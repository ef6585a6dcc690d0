import ExchangeServer.TcpServer.Locking

/-!
# Who closes a descriptor

A connection is handed round: it is armed in epoll, reported to the main thread,
queued, worked on, and armed again.  Whoever has it is the only one to touch its
descriptor, so it would be closed once if a worker that has closed it did not run
`doCleanup` on the number.  `doCleanup` begins with a check, which lets it through
when the slot is empty; that is how the worker itself has left it.

`Sole` is the invariant, with `place` for who has a connection.
`closes_once` says that every descriptor is closed once, and that nothing done for a
closed connection hits a later one, in a run in which that check stops every worker
that has closed its connection.
-/

namespace ExchangeServer

open Lib

namespace TcpServer

/-! ## The law -/

/-- The operation is done for an open connection, or hits no other one. -/
def Effect.Harmless (e : Effect) : Prop :=
  e.late = true → e.hit = none ∨ e.hit = e.behalf

instance (e : Effect) : Decidable e.Harmless := by
  unfold Effect.Harmless
  infer_instance

/-- The connections that `close` was called for, in order. -/
def closings (effects : List Effect) : List (Option Conn) :=
  (effects.filter fun e => e.op = .close).map Effect.behalf

/-- Every connection is closed at most once, and no closing path that is late for its
own connection hits a later one. -/
structure ClosesOnce (s : TcpServer) : Prop where
  once : (closings s.trace.effects).Nodup
  harmless : ∀ e ∈ s.trace.effects, e.Harmless

/-- A worker that has closed its connection, and looks at the slot next, finds a
session there, so it leaves the descriptor alone. -/
def CheckStopsCloser (s : TcpServer) (a : Action) : Prop :=
  match a with
  | .worker w beyond =>
      match s.workers.lookup w with
      | some (.cleanup c .check) =>
          c ∈ s.trace.closed → s.sessionManager.hasSession beyond c.fd = false
      | _ => True
  | _ => True

instance (s : TcpServer) (a : Action) : Decidable (s.CheckStopsCloser a) := by
  unfold CheckStopsCloser
  split
  · split <;> infer_instance
  · infer_instance

/-- Behind the check of a worker that has closed its connection there is no session. -/
theorem CheckStopsCloser.no_session {s : TcpServer} {w : ℕ} {beyond : Bool} {c : Conn}
    (h : s.CheckStopsCloser (.worker w beyond))
    (hw : s.workers.lookup w = some (.cleanup c .check)) (hclosed : c ∈ s.trace.closed) :
    s.sessionManager.hasSession beyond c.fd = false := by
  simp only [CheckStopsCloser, hw] at h
  exact h hclosed

/-! ## The invariant -/

/-- Who has a connection. -/
inductive Place where
  | epoll
  | main
  | queue
  | worker (w : ℕ)
deriving DecidableEq

/-- The connections that the main thread has. -/
def MainPc.held : MainPc → List Conn
  | events rest | accept rest => readies rest
  | create c rest | epollAdd c rest | enqueue c rest => c :: readies rest
  | readClock c .start rest | lock c _ .start rest | arm c _ .start rest => c :: readies rest
  | readClock _ .acceptConnection rest | lock _ _ .acceptConnection rest
  | arm _ _ .acceptConnection rest => readies rest
  | _ => []

/-- The connection that is being accepted and has no timer yet. -/
def MainPc.new : MainPc → Option Conn
  | create c _ | epollAdd c _ => some c
  | readClock c .acceptConnection _ | lock c _ .acceptConnection _
  | arm c _ .acceptConnection _ => some c
  | _ => none

/-- Every connection is in one place, and open as long as it has not been closed
there.  `pc` is what the main thread does next. -/
structure Sole (s : TcpServer) (pc : MainPc) (place : Conn → Place) : Prop where
  inMain : ∀ c ∈ pc.held, place c = .main ∧ s.opened c.fd = some c
  inQueue : ∀ c ∈ s.tasks, place c = .queue ∧ s.opened c.fd = some c
  inWorker : ∀ w p, s.workers.lookup w = some p → place p.conn = .worker w ∧
    (s.opened p.conn.fd = some p.conn ∨
      p = .cleanup p.conn .check ∧ p.conn ∈ s.trace.closed)
  inEpoll : ∀ fd c, s.interest fd = .armed → s.opened fd = some c → place c = .epoll
  watched : ∀ fd, s.opened fd = none → s.interest fd = .absent
  heldOnce : pc.held.Nodup
  queuedOnce : s.tasks.Nodup
  opened : ∀ fd c, s.opened fd = some c →
    c.fd = fd ∧ c ∈ s.trace.accepted ∧ c ∉ s.trace.closed
  numbers : ∀ c ∈ s.trace.accepted, c.number < s.trace.accepted.length
  settled : ∀ c ∈ s.trace.accepted, c ∈ s.trace.closed ∨ s.opened c.fd = some c
  known : ∀ c ∈ s.trace.closed, c ∈ s.trace.accepted
  timers : ∀ fd c, s.opened fd = some c → s.trace.armedFor fd = some c ∨ pc.new = some c
  newOpen : ∀ c, pc.new = some c →
    s.opened c.fd = some c ∧ (place c = .main ∨ place c = .epoll)
  closings : closings s.trace.effects = s.trace.closed.map some
  closedOnce : s.trace.closed.Nodup
  harmless : ∀ e ∈ s.trace.effects, e.Harmless

namespace Sole

variable {s s' : TcpServer} {pc : MainPc} {place : Conn → Place}

theorem init : Sole TcpServer.init (.wait none) fun _ => .main where
  inMain c hc := by cases hc
  inQueue c hc := by cases hc
  inWorker w p hp := by cases hp
  inEpoll fd c harmed := by cases harmed
  watched _ _ := rfl
  heldOnce := List.nodup_nil
  queuedOnce := List.nodup_nil
  opened fd c hc := by cases hc
  numbers c hc := by cases hc
  settled c hc := by cases hc
  known c hc := by cases hc
  timers fd c hc := by cases hc
  newOpen c hc := by cases hc
  closings := rfl
  closedOnce := List.nodup_nil
  harmless e he := by cases he

/-- Each connection is closed once and no late operation does harm. -/
theorem closesOnce (h : Sole s pc place) : s.ClosesOnce where
  once := by
    rw [h.closings]
    exact h.closedOnce.map (Option.some_injective Conn)
  harmless := h.harmless

/-- The main thread goes on with the connections it has. -/
theorem goto (h : Sole s pc place) (pc' : MainPc)
    (hheld : pc'.held = pc.held) (hnew : pc'.new = pc.new) :
    Sole s pc' place :=
  { h with
    inMain := hheld ▸ h.inMain
    heldOnce := hheld ▸ h.heldOnce
    timers := hnew ▸ h.timers
    newOpen := hnew ▸ h.newOpen }

/-- Two connections with a descriptor that is open are the same. -/
theorem eq_of_opened {c d : Conn} (hc : s.opened c.fd = some c)
    (hd : s.opened d.fd = some d) (hfd : d.fd = c.fd) : d = c := by
  rw [hfd] at hd
  exact Option.some.inj (hd.symm.trans hc)

/-- An operation for an open connection is not late. -/
theorem not_late (h : Sole s pc place) {c : Conn} (hopen : s.opened c.fd = some c) :
    (some c).any (fun c => decide (c ∈ s.trace.closed)) = false :=
  decide_eq_false (h.opened _ c hopen).2.2

theorem closings_append (effects : List Effect) (e : Effect) :
    TcpServer.closings (effects ++ [e])
      = TcpServer.closings effects ++ if e.op = .close then [e.behalf] else [] := by
  unfold TcpServer.closings
  rw [List.filter_append, List.map_append, List.filter_singleton]
  split_ifs <;> simp_all

/-- An operation that closes nothing is noted. -/
theorem note (h : Sole s pc place) {thread : Thread} (op : Op) {behalf hit : Option Conn}
    (hop : op ≠ .close)
    (hharmless : (behalf.any fun c => decide (c ∈ s.trace.closed)) = true →
      hit = none ∨ hit = behalf) :
    Sole { s with trace := s.note thread op behalf hit } pc place :=
  { h with
    closings := by
      show TcpServer.closings (s.trace.effects ++ [_]) = _
      rw [closings_append, if_neg hop, List.append_nil]
      exact h.closings
    harmless := by
      intro e he
      rcases List.mem_append.mp he with he | he
      · exact h.harmless e he
      · rw [List.mem_singleton.mp he]
        exact hharmless }

/-- A registration is removed, or disarmed. -/
theorem unwatch (h : Sole s pc place) (fd : Fd) :
    Sole { s with interest := Function.update s.interest fd .absent } pc place :=
  { h with
    inEpoll := by
      intro fd' c harmed
      rcases eq_or_ne fd' fd with rfl | hne
      · change Function.update s.interest fd' _ fd' = _ at harmed
        rw [Function.update_self] at harmed
        cases harmed
      · change Function.update s.interest fd _ fd' = _ at harmed
        rw [Function.update_of_ne hne] at harmed
        exact h.inEpoll fd' c harmed
    watched := by
      intro fd' hnone
      show Function.update s.interest fd _ fd' = _
      rcases eq_or_ne fd' fd with rfl | hne
      · rw [Function.update_self]
      · rw [Function.update_of_ne hne]
        exact h.watched fd' hnone }

/-- A worker goes on with its connection. -/
theorem moveWorker (h : Sole s pc place) {w : ℕ} {p : WorkerPc} {p' : Option WorkerPc}
    (hw : s.workers.lookup w = some p)
    (hp' : ∀ q, p' = some q → q.conn = p.conn ∧
      (s.opened p.conn.fd = some p.conn ∨
        q = .cleanup p.conn .check ∧ p.conn ∈ s.trace.closed)) :
    Sole (s.moveWorker w p') pc place :=
  { h with
    inWorker := by
      intro w' q hq
      rw [lookup_moveWorker] at hq
      split_ifs at hq with heq
      · subst heq
        obtain ⟨hconn, hstate⟩ := hp' q hq
        rw [hconn]
        exact ⟨(h.inWorker w' p hw).1, hstate⟩
      · exact h.inWorker w' q hq }

/-- A worker that has not come to the check of `doCleanup` has its connection open. -/
theorem opened_of_worker (h : Sole s pc place) {w : ℕ} {p : WorkerPc}
    (hw : s.workers.lookup w = some p) (hp : p ≠ .cleanup p.conn .check) :
    s.opened p.conn.fd = some p.conn :=
  (h.inWorker w p hw).2.resolve_right fun hcheck => hp hcheck.1

/-- A worker goes on with a connection that is open. -/
theorem goOn (h : Sole s pc place) {w : ℕ} {p q : WorkerPc} (hw : s.workers.lookup w = some p)
    (hopen : s.opened p.conn.fd = some p.conn) (hconn : q.conn = p.conn) :
    Sole (s.moveWorker w (some q)) pc place := by
  refine h.moveWorker hw fun q' hq => ?_
  obtain rfl := Option.some.inj hq
  exact ⟨hconn, Or.inl hopen⟩

/-- A worker closes its connection. -/
theorem close (h : Sole s pc place) {w : ℕ} {p : WorkerPc} {p' : Option WorkerPc}
    (hw : s.workers.lookup w = some p) (hopen : s.opened p.conn.fd = some p.conn)
    (hp' : ∀ q, p' = some q → q = .cleanup p.conn .check) :
    Sole ((s.close (.worker w) (some p.conn) p.conn.fd).moveWorker w p') pc place := by
  obtain ⟨hplace, -⟩ := h.inWorker w p hw
  -- No other place has a connection with this descriptor.
  have hother : ∀ d, s.opened d.fd = some d → place d ≠ .worker w →
      Function.update s.opened p.conn.fd none d.fd = some d := by
    intro d hd hne
    rw [Function.update_of_ne _ _ _]
    · exact hd
    · intro hfd
      exact hne (eq_of_opened hopen hd hfd ▸ hplace)
  have hclosed : (s.opened p.conn.fd).toList = [p.conn] := by
    rw [hopen]
    rfl
  have hstill : ∀ fd c, Function.update s.opened p.conn.fd none fd = some c →
      fd ≠ p.conn.fd ∧ s.opened fd = some c := by
    intro fd c hc
    rcases eq_or_ne fd p.conn.fd with rfl | hne
    · rw [Function.update_self] at hc
      cases hc
    · rw [Function.update_of_ne hne] at hc
      exact ⟨hne, hc⟩
  have hgone : ∀ c, c ∈ s.trace.closed ++ (s.opened p.conn.fd).toList ↔
      c ∈ s.trace.closed ∨ c = p.conn := by
    intro c
    rw [hclosed, List.mem_append, List.mem_singleton]
  refine { h with
    inMain := ?_, inQueue := ?_, inWorker := ?_, inEpoll := ?_, watched := ?_, opened := ?_
    settled := ?_, known := ?_, timers := ?_, newOpen := ?_, closings := ?_, closedOnce := ?_
    harmless := ?_ }
  · intro c hc
    obtain ⟨hc, hcopen⟩ := h.inMain c hc
    exact ⟨hc, hother c hcopen (by rw [hc]; nofun)⟩
  · intro c hc
    obtain ⟨hc, hcopen⟩ := h.inQueue c hc
    exact ⟨hc, hother c hcopen (by rw [hc]; nofun)⟩
  · intro w' q hq
    rw [lookup_moveWorker] at hq
    split_ifs at hq with heq
    · -- The worker itself comes to the check, with its connection closed.
      subst heq
      obtain rfl := hp' q hq
      exact ⟨hplace, Or.inr ⟨rfl, (hgone _).mpr (Or.inr rfl)⟩⟩
    · obtain ⟨hq', hstate⟩ := h.inWorker w' q hq
      refine ⟨hq', ?_⟩
      rcases hstate with hqopen | ⟨hcheck, hqclosed⟩
      · refine Or.inl (hother _ hqopen ?_)
        rw [hq']
        intro hw'
        exact heq (Place.worker.inj hw')
      · exact Or.inr ⟨hcheck, (hgone _).mpr (Or.inl hqclosed)⟩
  · intro fd c harmed hc
    obtain ⟨hne, hc⟩ := hstill fd c hc
    change Function.update s.interest p.conn.fd _ fd = _ at harmed
    rw [Function.update_of_ne hne] at harmed
    exact h.inEpoll fd c harmed hc
  · intro fd hnone
    show Function.update s.interest p.conn.fd _ fd = _
    rcases eq_or_ne fd p.conn.fd with rfl | hne
    · rw [Function.update_self]
    · change Function.update s.opened p.conn.fd _ fd = _ at hnone
      rw [Function.update_of_ne hne] at hnone ⊢
      exact h.watched fd hnone
  · intro fd c hc
    obtain ⟨hne, hc⟩ := hstill fd c hc
    obtain ⟨hfd, haccepted, hopen'⟩ := h.opened fd c hc
    refine ⟨hfd, haccepted, fun hmem => ?_⟩
    rcases (hgone c).mp hmem with hmem | rfl
    · exact hopen' hmem
    · exact hne hfd.symm
  · intro c hc
    show c ∈ s.trace.closed ++ _ ∨ _
    rw [hgone]
    rcases h.settled c hc with hclosed | hcopen
    · exact Or.inl (Or.inl hclosed)
    · by_cases hfd : c.fd = p.conn.fd
      · exact Or.inl (Or.inr (eq_of_opened hopen hcopen hfd))
      · exact Or.inr ((Function.update_of_ne hfd _ _).trans hcopen)
  · intro c hc
    rcases (hgone c).mp hc with hc | rfl
    · exact h.known c hc
    · exact (h.opened _ _ hopen).2.1
  · intro fd c hc
    exact h.timers fd c (hstill fd c hc).2
  · intro c hc
    obtain ⟨hcopen, hplaces⟩ := h.newOpen c hc
    refine ⟨hother c hcopen ?_, hplaces⟩
    rcases hplaces with hc | hc <;> rw [hc] <;> nofun
  · show TcpServer.closings (s.trace.effects ++ [_])
      = (s.trace.closed ++ (s.opened p.conn.fd).toList).map some
    rw [closings_append, h.closings, hclosed, List.map_append]
    rfl
  · show (s.trace.closed ++ (s.opened p.conn.fd).toList).Nodup
    rw [hclosed]
    refine List.nodup_append.mpr ⟨h.closedOnce, List.nodup_singleton _, ?_⟩
    intro c hc d hd
    obtain rfl := List.mem_singleton.mp hd
    rintro rfl
    exact (h.opened _ _ hopen).2.2 hc
  · intro e he
    rcases List.mem_append.mp he with he | he
    · exact h.harmless e he
    · rw [List.mem_singleton.mp he]
      intro hlate
      exact absurd (hlate.symm.trans (h.not_late hopen)) (by decide)

/-- Some connections that epoll watches are reported. -/
theorem epollWait (h : Sole s pc place) {events : List Event}
    (hnew : pc.new = none) (hreported : s.Reportable events) :
    Sole { s with interest := fun fd =>
        if fd ∈ (readies events).map Conn.fd then .disarmed else s.interest fd }
      (.events events) fun c => if c ∈ readies events then .main else place c := by
  obtain ⟨-, honce, hready⟩ := hreported
  -- Who has a connection that is not reported still has it.
  have hkeeps : ∀ c, place c ≠ .epoll →
      (if c ∈ readies events then Place.main else place c) = place c := by
    intro c hne
    refine if_neg fun hc => hne ?_
    exact h.inEpoll c.fd c (hready c hc).2 (hready c hc).1
  refine { h with
    inMain := ?_, inQueue := ?_, inWorker := ?_, inEpoll := ?_, watched := ?_
    heldOnce := honce, timers := ?_, newOpen := ?_ }
  · intro c hc
    exact ⟨if_pos hc, (hready c hc).1⟩
  · intro c hc
    obtain ⟨hplace, hopen⟩ := h.inQueue c hc
    exact ⟨(hkeeps c (by rw [hplace]; nofun)).trans hplace, hopen⟩
  · intro w p hp
    obtain ⟨hplace, hstate⟩ := h.inWorker w p hp
    exact ⟨(hkeeps p.conn (by rw [hplace]; nofun)).trans hplace, hstate⟩
  · intro fd c harmed hc
    change (if fd ∈ (readies events).map Conn.fd then _ else _) = _ at harmed
    split_ifs at harmed with hmem
    rw [if_neg]
    · exact h.inEpoll fd c harmed hc
    · intro hc'
      exact hmem (List.mem_map.mpr ⟨c, hc', (h.opened fd c hc).1⟩)
  · intro fd hnone
    refine (if_neg ?_).trans (h.watched fd hnone)
    intro hmem
    obtain ⟨c, hc, rfl⟩ := List.mem_map.mp hmem
    rw [(hready c hc).1] at hnone
    cases hnone
  · intro fd c hc
    rcases h.timers fd c hc with harmed | hisNew
    · exact Or.inl harmed
    · rw [hnew] at hisNew
      cases hisNew
  · intro c hc
    cases hc

/-- A connection is accepted. -/
theorem accept (h : Sole s pc place) {fd : Fd} {rest : List Event} (hpc : pc = .accept rest)
    (hfree : s.opened fd = none) :
    Sole
      { s with
        opened := Function.update s.opened fd (some ⟨s.trace.accepted.length, fd⟩)
        trace := { s.trace with
          accepted := s.trace.accepted ++ [⟨s.trace.accepted.length, fd⟩] } }
      (.create ⟨s.trace.accepted.length, fd⟩ rest)
      (Function.update place ⟨s.trace.accepted.length, fd⟩ .main) := by
  subst hpc
  generalize hc₀ : (⟨s.trace.accepted.length, fd⟩ : Conn) = c₀
  have hfd : c₀.fd = fd := by rw [← hc₀]
  have hnumber : c₀.number = s.trace.accepted.length := by rw [← hc₀]
  -- The number of an accept is new, even where the descriptor is not.
  have hfresh : c₀ ∉ s.trace.accepted := by
    intro hmem
    exact absurd (h.numbers c₀ hmem) (by rw [hnumber]; exact Nat.lt_irrefl _)
  have hopened : ∀ c, s.opened c.fd = some c →
      c ≠ c₀ ∧ Function.update s.opened fd (some c₀) c.fd = some c := by
    intro c hc
    refine ⟨?_, (Function.update_of_ne ?_ _ _).trans hc⟩
    · rintro rfl
      exact hfresh (h.opened _ _ hc).2.1
    · intro heq
      rw [heq, hfree] at hc
      cases hc
  have hcases : ∀ fd' c, Function.update s.opened fd (some c₀) fd' = some c →
      (fd' = fd ∧ c = c₀) ∨ (fd' ≠ fd ∧ s.opened fd' = some c) := by
    intro fd' c hc
    rcases eq_or_ne fd' fd with rfl | hne
    · rw [Function.update_self] at hc
      exact Or.inl ⟨rfl, (Option.some.inj hc).symm⟩
    · rw [Function.update_of_ne hne] at hc
      exact Or.inr ⟨hne, hc⟩
  have hself : Function.update s.opened fd (some c₀) c₀.fd = some c₀ := by
    rw [hfd, Function.update_self]
  have hplace : ∀ c, c ≠ c₀ → Function.update place c₀ .main c = place c := by
    intro c hne
    rw [Function.update_of_ne hne]
  refine { h with
    inMain := ?_, inQueue := ?_, inWorker := ?_, inEpoll := ?_, watched := ?_, heldOnce := ?_
    opened := ?_, numbers := ?_, settled := ?_, known := ?_, timers := ?_, newOpen := ?_ }
  · intro c hc
    rcases List.mem_cons.mp hc with rfl | hc
    · exact ⟨Function.update_self _ _ _, hself⟩
    · obtain ⟨hc, hopen⟩ := h.inMain c hc
      obtain ⟨hne, hopen'⟩ := hopened c hopen
      exact ⟨(hplace c hne).trans hc, hopen'⟩
  · intro c hc
    obtain ⟨hc, hopen⟩ := h.inQueue c hc
    obtain ⟨hne, hopen'⟩ := hopened c hopen
    exact ⟨(hplace c hne).trans hc, hopen'⟩
  · intro w p hp
    obtain ⟨hp, hstate⟩ := h.inWorker w p hp
    rcases hstate with hopen | ⟨hcheck, hclosed⟩
    · obtain ⟨hne, hopen'⟩ := hopened _ hopen
      exact ⟨(hplace _ hne).trans hp, Or.inl hopen'⟩
    · have hne : p.conn ≠ c₀ := fun heq => hfresh (heq ▸ h.known _ hclosed)
      exact ⟨(hplace _ hne).trans hp, Or.inr ⟨hcheck, hclosed⟩⟩
  · intro fd' c harmed hc
    rcases hcases fd' c hc with ⟨rfl, -⟩ | ⟨-, hc⟩
    · -- The registration of the number went when it was closed.
      change s.interest fd' = _ at harmed
      rw [h.watched fd' hfree] at harmed
      cases harmed
    · have hne := (hopened c ((h.opened fd' c hc).1 ▸ hc)).1
      exact (hplace c hne).trans (h.inEpoll fd' c harmed hc)
  · intro fd' hnone
    rcases eq_or_ne fd' fd with rfl | hne
    · exact h.watched fd' hfree
    · change Function.update s.opened fd _ fd' = _ at hnone
      rw [Function.update_of_ne hne] at hnone
      exact h.watched fd' hnone
  · refine List.nodup_cons.mpr ⟨fun hmem => ?_, h.heldOnce⟩
    exact hfresh (h.opened _ _ (h.inMain c₀ hmem).2).2.1
  · intro fd' c hc
    rcases hcases fd' c hc with ⟨rfl, rfl⟩ | ⟨-, hc⟩
    · refine ⟨hfd, List.mem_append_right _ List.mem_cons_self, fun hclosed => ?_⟩
      exact hfresh (h.known c hclosed)
    · obtain ⟨hcfd, hmem, hnot⟩ := h.opened fd' c hc
      exact ⟨hcfd, List.mem_append_left _ hmem, hnot⟩
  · intro c hc
    show c.number < (s.trace.accepted ++ [c₀]).length
    rw [List.length_append, List.length_singleton]
    rcases List.mem_append.mp hc with hc | hc
    · exact Nat.lt_succ_of_lt (h.numbers c hc)
    · rw [List.mem_singleton.mp hc, hnumber]
      exact Nat.lt_succ_self _
  · intro c hc
    rcases List.mem_append.mp hc with hc | hc
    · rcases h.settled c hc with hclosed | hopen
      · exact Or.inl hclosed
      · exact Or.inr (hopened c hopen).2
    · rw [List.mem_singleton.mp hc]
      exact Or.inr hself
  · intro c hc
    exact List.mem_append_left _ (h.known c hc)
  · intro fd' c hc
    rcases hcases fd' c hc with ⟨-, rfl⟩ | ⟨-, hc⟩
    · exact Or.inr rfl
    · refine Or.inl ((h.timers fd' c hc).resolve_right ?_)
      intro hnew
      cases hnew
  · intro c hc
    obtain rfl := Option.some.inj hc
    exact ⟨hself, Or.inl (Function.update_self _ _ _)⟩

/-- Handing one connection on leaves the others where they are. -/
theorem hand_of_ne {c d : Conn} {x : Place} (there : Place) (hd : place d = x) (hc : place c ≠ x) :
    Function.update place c there d = x := by
  rw [Function.update_of_ne]
  · exact hd
  · rintro rfl
    exact hc hd

/-- The new connection is watched. -/
theorem epollAdd {c : Conn} {rest : List Event} (h : Sole s (.epollAdd c rest) place) :
    Sole (s.epollAdd c.fd) (.readClock c .acceptConnection rest)
      (Function.update place c .epoll) := by
  obtain ⟨hplace, hopen⟩ := h.inMain c List.mem_cons_self
  obtain ⟨hfresh, honce⟩ := List.nodup_cons.mp h.heldOnce
  refine { h with
    inMain := ?_, inQueue := ?_, inWorker := ?_, inEpoll := ?_, watched := ?_
    heldOnce := honce, newOpen := ?_ }
  · intro d hd
    obtain ⟨hmain, hdopen⟩ := h.inMain d (List.mem_cons_of_mem _ hd)
    refine ⟨?_, hdopen⟩
    rw [Function.update_of_ne]
    · exact hmain
    · rintro rfl
      exact hfresh hd
  · intro d hd
    obtain ⟨hqueue, hdopen⟩ := h.inQueue d hd
    exact ⟨hand_of_ne .epoll hqueue (by rw [hplace]; nofun), hdopen⟩
  · intro w p hp
    obtain ⟨hworker, hstate⟩ := h.inWorker w p hp
    exact ⟨hand_of_ne .epoll hworker (by rw [hplace]; nofun), hstate⟩
  · intro fd d harmed hd
    obtain ⟨hfd, -⟩ := h.opened fd d hd
    subst hfd
    by_cases heq : d = c
    · subst heq
      rw [Function.update_self]
    · rw [Function.update_of_ne heq]
      have hne : d.fd ≠ c.fd := fun hfd => heq (eq_of_opened hopen hd hfd)
      refine h.inEpoll d.fd d ?_ hd
      simp only [TcpServer.epollAdd] at harmed
      split_ifs at harmed
      · rwa [Function.update_of_ne hne] at harmed
      · exact harmed
  · intro fd hnone
    have hne : fd ≠ c.fd := by
      rintro rfl
      exact absurd (hopen.symm.trans hnone) nofun
    simp only [TcpServer.epollAdd]
    split_ifs
    · rw [Function.update_of_ne hne]
      exact h.watched fd hnone
    · exact h.watched fd hnone
  · intro d hd
    obtain rfl := Option.some.inj hd
    exact ⟨hopen, Or.inr (Function.update_self _ _ _)⟩

/-- A timer is armed for a connection that is open. -/
theorem arm {c : Conn} {expire : TimePoint} {site : Site} {rest : List Event}
    (h : Sole s (.arm c expire site rest) place) :
    Sole
      { s with
        trace := { s.trace with armedFor := Function.update s.trace.armedFor c.fd (some c) } }
      (afterArm c rest site) place := by
  have hopen : s.opened c.fd = some c := by
    cases site with
    | acceptConnection => exact (h.newOpen c rfl).1
    | start => exact (h.inMain c List.mem_cons_self).2
  have hheld : (afterArm c rest site).held = (MainPc.arm c expire site rest).held := by
    cases site <;> rfl
  refine { h with
    inMain := hheld ▸ h.inMain, heldOnce := hheld ▸ h.heldOnce, timers := ?_, newOpen := ?_ }
  · intro fd d hd
    show Function.update s.trace.armedFor c.fd (some c) fd = some d ∨ _
    rcases eq_or_ne fd c.fd with rfl | hne
    · rw [Function.update_self]
      exact Or.inl (hopen.symm.trans hd)
    · rw [Function.update_of_ne hne]
      refine Or.inl ((h.timers fd d hd).resolve_right fun hnew => hne ?_)
      cases site with
      | acceptConnection =>
          obtain rfl := Option.some.inj hnew
          exact (h.opened fd _ hd).1.symm
      | start => cases hnew
  · intro d hd
    cases site <;> cases hd

/-- A connection with an event is queued. -/
theorem enqueue {c : Conn} {rest : List Event} (h : Sole s (.enqueue c rest) place) :
    Sole { s with tasks := s.tasks ++ [c] } (.events rest) (Function.update place c .queue) := by
  obtain ⟨hplace, hopen⟩ := h.inMain c List.mem_cons_self
  obtain ⟨hfresh, honce⟩ := List.nodup_cons.mp h.heldOnce
  refine { h with
    inMain := ?_, inQueue := ?_, inWorker := ?_, inEpoll := ?_, heldOnce := honce
    queuedOnce := ?_, newOpen := ?_ }
  · intro d hd
    obtain ⟨hmain, hdopen⟩ := h.inMain d (List.mem_cons_of_mem _ hd)
    refine ⟨?_, hdopen⟩
    rw [Function.update_of_ne]
    · exact hmain
    · rintro rfl
      exact hfresh hd
  · intro d hd
    rcases List.mem_append.mp hd with hd | hd
    · obtain ⟨hqueue, hdopen⟩ := h.inQueue d hd
      exact ⟨hand_of_ne .queue hqueue (by rw [hplace]; nofun), hdopen⟩
    · rw [List.mem_singleton.mp hd]
      exact ⟨Function.update_self _ _ _, hopen⟩
  · intro w p hp
    obtain ⟨hworker, hstate⟩ := h.inWorker w p hp
    exact ⟨hand_of_ne .queue hworker (by rw [hplace]; nofun), hstate⟩
  · intro fd d harmed hd
    exact hand_of_ne .queue (h.inEpoll fd d harmed hd) (by rw [hplace]; nofun)
  · refine List.nodup_append.mpr ⟨h.queuedOnce, List.nodup_singleton _, ?_⟩
    intro d hd e he
    rw [List.mem_singleton.mp he]
    rintro rfl
    rw [(h.inQueue _ hd).1] at hplace
    cases hplace
  · intro d hd
    cases hd

/-- A worker dequeues a connection. -/
theorem take (h : Sole s pc place) {c : Conn} {tasks : List Conn} {w : ℕ}
    (hqueue : s.tasks = c :: tasks) :
    Sole ({ s with tasks := tasks }.moveWorker w (some (.business c))) pc
      (Function.update place c (.worker w)) := by
  have hmem : c ∈ s.tasks := by
    rw [hqueue]
    exact List.mem_cons_self
  obtain ⟨hplace, hopen⟩ := h.inQueue c hmem
  have honce := h.queuedOnce
  rw [hqueue] at honce
  obtain ⟨hfresh, honce⟩ := List.nodup_cons.mp honce
  refine { h with
    inMain := ?_, inQueue := ?_, inWorker := ?_, inEpoll := ?_, queuedOnce := honce
    newOpen := ?_ }
  · intro d hd
    obtain ⟨hmain, hdopen⟩ := h.inMain d hd
    exact ⟨hand_of_ne _ hmain (by rw [hplace]; nofun), hdopen⟩
  · intro d hd
    have hd' : d ∈ s.tasks := by
      rw [hqueue]
      exact List.mem_cons_of_mem _ hd
    obtain ⟨hqueued, hdopen⟩ := h.inQueue d hd'
    refine ⟨?_, hdopen⟩
    rw [Function.update_of_ne]
    · exact hqueued
    · rintro rfl
      exact hfresh hd
  · intro w' p hp
    rw [lookup_moveWorker] at hp
    split_ifs at hp with heq
    · obtain rfl := Option.some.inj hp
      rw [heq]
      exact ⟨Function.update_self _ _ _, Or.inl hopen⟩
    · obtain ⟨hworker, hstate⟩ := h.inWorker w' p hp
      exact ⟨hand_of_ne _ hworker (by rw [hplace]; nofun), hstate⟩
  · intro fd d harmed hd
    exact hand_of_ne _ (h.inEpoll fd d harmed hd) (by rw [hplace]; nofun)
  · intro d hd
    obtain ⟨hdopen, hplaces⟩ := h.newOpen d hd
    exact ⟨hdopen, hplaces.imp (hand_of_ne _ · (by rw [hplace]; nofun))
      (hand_of_ne _ · (by rw [hplace]; nofun))⟩

/-- A worker arms its connection again. -/
theorem rearm (h : Sole s pc place) {c : Conn} {w : ℕ}
    (hw : s.workers.lookup w = some (.rearm c)) :
    Sole ((s.epollMod c.fd).moveWorker w none) pc (Function.update place c .epoll) := by
  have hplace : place c = .worker w := (h.inWorker w _ hw).1
  have hopen : s.opened c.fd = some c := h.opened_of_worker hw nofun
  refine { h with
    inMain := ?_, inQueue := ?_, inWorker := ?_, inEpoll := ?_, watched := ?_, newOpen := ?_ }
  · intro d hd
    obtain ⟨hmain, hdopen⟩ := h.inMain d hd
    exact ⟨hand_of_ne _ hmain (by rw [hplace]; nofun), hdopen⟩
  · intro d hd
    obtain ⟨hqueue, hdopen⟩ := h.inQueue d hd
    exact ⟨hand_of_ne _ hqueue (by rw [hplace]; nofun), hdopen⟩
  · intro w' p hp
    rw [lookup_moveWorker] at hp
    split_ifs at hp with heq
    obtain ⟨hworker, hstate⟩ := h.inWorker w' p hp
    refine ⟨hand_of_ne _ hworker ?_, hstate⟩
    rw [hplace]
    intro hw'
    exact heq (Place.worker.inj hw').symm
  · intro fd d harmed hd
    obtain ⟨hfd, -⟩ := h.opened fd d hd
    subst hfd
    by_cases heq : d = c
    · subst heq
      rw [Function.update_self]
    · rw [Function.update_of_ne heq]
      have hne : d.fd ≠ c.fd := fun hfd => heq (eq_of_opened hopen hd hfd)
      refine h.inEpoll d.fd d ?_ hd
      simp only [TcpServer.moveWorker, epollMod] at harmed
      split_ifs at harmed
      · exact harmed
      · rwa [Function.update_of_ne hne] at harmed
  · intro fd hnone
    have hne : fd ≠ c.fd := by
      rintro rfl
      exact absurd (hopen.symm.trans hnone) nofun
    simp only [TcpServer.moveWorker, epollMod]
    split_ifs
    · exact h.watched fd hnone
    · rw [Function.update_of_ne hne]
      exact h.watched fd hnone
  · intro d hd
    obtain ⟨hdopen, hplaces⟩ := h.newOpen d hd
    exact ⟨hdopen, hplaces.imp (hand_of_ne _ · (by rw [hplace]; nofun))
      (hand_of_ne _ · (by rw [hplace]; nofun))⟩

/-- `doCleanup` of a worker whose check stops it if it has closed its connection. -/
theorem workerCleanup (h : Sole s pc place) {w : ℕ} {c : Conn} {beyond : Bool} {pos : Cleanup}
    {pos' : Option Cleanup} (hw : s.workers.lookup w = some (.cleanup c pos))
    (hstops : pos = .check → c ∈ s.trace.closed →
      s.sessionManager.hasSession beyond c.fd = false)
    (hclean : s.doCleanup (.worker w) (some c) c.fd beyond pos = some (s', pos')) :
    Sole (s'.moveWorker w (pos'.map (.cleanup c))) pc place := by
  obtain ⟨-, hstate⟩ := h.inWorker w _ hw
  -- Behind the check the connection of the worker is open, so what it does is not late.
  by_cases hpos : pos = .check
  · subst hpos
    obtain ⟨rfl, rfl⟩ := Prod.mk.inj (Option.some.inj hclean)
    refine h.moveWorker hw fun q hq => ?_
    split_ifs at hq with hfound
    · obtain rfl := Option.some.inj hq
      refine ⟨rfl, Or.inl (hstate.resolve_right fun hclosed => ?_)⟩
      rw [hstops rfl hclosed.2] at hfound
      cases hfound
    · cases hq
  · have hopen : s.opened c.fd = some c :=
      hstate.resolve_right fun hclosed => hpos (WorkerPc.cleanup.inj hclosed.1).2
    have hlate := h.not_late hopen
    cases pos with
    | check => exact absurd rfl hpos
    | epollDel =>
        obtain ⟨rfl, rfl⟩ := Prod.mk.inj (Option.some.inj hclean)
        refine ((h.unwatch c.fd).note .epollDel nofun fun htrue => ?_).goOn hw hopen rfl
        exact absurd (htrue.symm.trans hlate) nofun
    | lock =>
        obtain ⟨-, rfl, rfl⟩ := of_doCleanup_lock hclean
        have h' : Sole { s with mutex := some (.worker w) } pc place := { h with }
        exact h'.goOn hw hopen rfl
    | cancel =>
        obtain ⟨rfl, rfl⟩ := Prod.mk.inj (Option.some.inj hclean)
        have h' : Sole { s with timerMgr := s.timerMgr.cancelTimer c.fd, mutex := none } pc place :=
          { h with }
        refine (h'.note .cancelTimer nofun fun htrue => ?_).goOn hw hopen rfl
        exact absurd (htrue.symm.trans hlate) nofun
    | remove =>
        obtain ⟨rfl, rfl⟩ := Prod.mk.inj (Option.some.inj hclean)
        have h' : Sole { s with sessionManager := s.sessionManager.removeSession c.fd } pc place :=
          { h with }
        refine (h'.note .removeSession nofun fun htrue => ?_).goOn hw hopen rfl
        exact absurd (htrue.symm.trans hlate) nofun
    | close =>
        obtain ⟨rfl, rfl⟩ := Prod.mk.inj (Option.some.inj hclean)
        exact h.close hw hopen nofun

/-- The main thread removes the registration of a descriptor whose callback found no
session; behind it is the connection of the timer. -/
theorem mainEpollDel {now : TimePoint} {top : TimerNode}
    (h : Sole s (.cleanup now top .epollDel) place) :
    Sole (s.epollDel .main (s.trace.armedFor top.fd) top.fd) (.cleanup now top .lock) place := by
  refine ((h.unwatch top.fd).note .epollDel nofun fun _ => ?_).goto _ rfl rfl
  split_ifs
  · exact Or.inl rfl
  · cases hopen : s.opened top.fd with
    | none => exact Or.inl rfl
    | some c => exact Or.inr ((h.timers top.fd c hopen).resolve_right nofun).symm

/-- Code that only leads on keeps the connections where they are. -/
theorem look (h : Sole s pc place) {a : Action} {there : MainPc} (hlook : Look s a pc there) :
    Sole s there place := by
  cases hlook <;> exact h.goto _ rfl rfl

/-- **One step.** -/
theorem step (h : Sole s s.main place) (hlocked : Locked s) {a : Action}
    (hstops : s.CheckStopsCloser a) (hstep : TcpServer.step s a = some s') :
    ∃ place', Sole s' s'.main place' := by
  cases step_spec hstep with
  | tick elapsed => exact ⟨place, { h with }⟩
  | epollWait passed events pc reported =>
      rw [pc] at h
      exact ⟨_, { h.epollWait rfl reported with }⟩
  | look _ here there pc looks =>
      rw [pc] at h
      exact ⟨place, { h.look looks with }⟩
  | accept fd rest pc valid free =>
      rw [pc] at h
      exact ⟨_, { h.accept rfl free with }⟩
  | create beyond c rest pc =>
      rw [pc] at h
      exact ⟨place, { h.goto (.epollAdd c rest) rfl rfl with }⟩
  | epollAdd beyond c rest pc =>
      rw [pc] at h
      exact ⟨_, { h.epollAdd with }⟩
  | readClock beyond c site rest pc =>
      rw [pc] at h
      refine ⟨place, { h.goto (.lock c (s.clock + seconds timeoutSec) site rest) ?_ ?_ with }⟩
      · cases site <;> rfl
      · cases site <;> rfl
  | lock beyond c expire site rest pc unlocked =>
      rw [pc] at h
      refine ⟨place, { h.goto (.arm c expire site rest) ?_ ?_ with }⟩
      · cases site <;> rfl
      · cases site <;> rfl
  | arm beyond c expire site rest pc =>
      rw [pc] at h
      exact ⟨place, { h.arm with }⟩
  | enqueue beyond c rest pc =>
      rw [pc] at h
      exact ⟨_, { h.enqueue with }⟩
  | passLock beyond now pc unlocked =>
      rw [pc] at h
      exact ⟨place, { h.goto (.pass now) rfl rfl with }⟩
  | passEnd top now pc late =>
      rw [pc] at h
      exact ⟨place, { h.goto (.wait (some now)) rfl rfl with }⟩
  | passStale top now pc isTop stale => exact ⟨place, { h with }⟩
  | passFire top now pc isTop due valid =>
      rw [pc] at h
      exact ⟨place, { h.goto (.callback now top) rfl rfl with }⟩
  | mainCleanup beyond now top pos t pos' pc cleans =>
      rw [pc] at h
      -- The main thread gets no further than to its lock.
      rcases hlocked.mainCleanup pc cleans with ⟨rfl, rfl, rfl⟩ | ⟨rfl, rfl, rfl⟩
      · refine ⟨place, { h.goto _ ?_ ?_ with }⟩
        · split_ifs <;> rfl
        · split_ifs <;> rfl
      · exact ⟨place, { h.mainEpollDel with }⟩
  | finish beyond now top pc =>
      rw [pc] at h
      exact ⟨place, { h.goto (.pass now) rfl rfl with }⟩
  | take w c tasks queue idle => exact ⟨_, h.take queue⟩
  | recvMore w result c pc => exact ⟨place, h⟩
  | recvAgain w c pc => exact ⟨place, h.goOn pc (h.opened_of_worker pc nofun) rfl⟩
  | recvEnd w result c pc ended => exact ⟨place, h.goOn pc (h.opened_of_worker pc nofun) rfl⟩
  | businessNone w beyond c pc session => exact ⟨place, h.goOn pc (h.opened_of_worker pc nofun) rfl⟩
  | business w beyond c d pc session => exact ⟨place, h.goOn pc (h.opened_of_worker pc nofun) rfl⟩
  | remove w beyond c pc =>
      have hopen : s.opened c.fd = some c := h.opened_of_worker pc nofun
      have h' : Sole { s with sessionManager := s.sessionManager.removeSession c.fd } s.main place :=
        { h with }
      refine ⟨place, (h'.note .removeSession nofun fun htrue => ?_).goOn pc hopen rfl⟩
      exact absurd (htrue.symm.trans (h.not_late hopen)) nofun
  | close w beyond c pc =>
      refine ⟨place, h.close pc (h.opened_of_worker pc nofun) fun q hq => ?_⟩
      exact (Option.some.inj hq).symm
  | rearm w beyond c pc => exact ⟨_, h.rearm pc⟩
  | workerCleanup w beyond c pos t pos' pc cleans =>
      have hmain : t.main = s.main := doCleanup_main cleans
      refine ⟨place, ?_⟩
      show Sole _ t.main place
      rw [hmain]
      refine h.workerCleanup pc (fun hpos hclosed => ?_) cleans
      subst hpos
      exact hstops.no_session pc hclosed

theorem reachable {acts : List Action}
    (hstops : Along TcpServer.step CheckStopsCloser TcpServer.init acts)
    (hrun : runs TcpServer.step TcpServer.init acts = some s) :
    Locked s ∧ ∃ place, Sole s s.main place := by
  refine runs_induction_along (I := fun s => Locked s ∧ ∃ place, Sole s s.main place)
    ?_ acts ⟨Locked.init, _, Sole.init⟩ hstops hrun
  rintro s a s' ⟨hlocked, place, h⟩ hstop hstep
  exact ⟨hlocked.step hstep, h.step hlocked hstop hstep⟩

end Sole

/-- **Every descriptor is closed once, as long as the check of `doCleanup` stops the
workers that have closed theirs**: no connection is closed twice, and no close, epoll
removal, timer cancellation or session removal for a closed connection hits a later
one with its number. -/
theorem closes_once (acts : List Action) (s : TcpServer)
    (hstops : Along step CheckStopsCloser init acts) (hrun : runs step init acts = some s) :
    s.ClosesOnce := by
  obtain ⟨-, place, h⟩ := Sole.reachable hstops hrun
  exact h.closesOnce

/-- The worker closes the connection; the main thread accepts one with the number of
the closed one, and its session is there when the worker looks. -/
theorem closes_once_sample :
    ∃ s, runs step init (eventFive ++ [.recv 0 .closed, .worker 0 false, .worker 0 false] ++
        mains 2 ++ [.top (some ⟨5, seconds 60⟩), .epollWait [.listen], .main false,
          .accept (some 5), .main false, .worker 0 false]) = some s ∧ s.ClosesOnce := by
  refine ⟨_, runs_eq_runsTo step (by decide), ?_⟩
  exact closes_once _ _ (by decide) (runs_eq_runsTo step (by decide))

/-- The worker looks before the new session is there, and goes on after the new
connection has its registration, its timer and its session: all of them go, and its
descriptor is closed for the old one, whose second close it is. -/
theorem closes_later_connection :
    ∃ acts s, runs step init acts = some s ∧ ¬ s.ClosesOnce ∧
      ∀ op, ⟨.worker 0, op, some ⟨0, 5⟩, true, some ⟨1, 5⟩⟩ ∈ s.trace.effects := by
  refine ⟨eventFive ++ [.recv 0 .closed, .worker 0 false, .worker 0 false] ++ mains 2 ++
    [.top (some ⟨5, seconds 60⟩), .epollWait [.listen], .main false, .accept (some 5),
      .worker 0 false] ++ mains 5 ++ List.replicate 5 (.worker 0 false), ?_⟩
  refine ⟨_, runs_eq_runsTo step (by decide), fun h => absurd h.once (by decide), ?_⟩
  intro op
  cases op <;> decide

end TcpServer

end ExchangeServer
