import ExchangeServer.TcpServer.Descriptors

/-!
# Idle connections

The timer of a descriptor is armed for its newest connection, and runs out 60
seconds after the last event.  The callback does not close it: `hasSession` is true
of an *empty* slot, so the callback returns when there is a session.

`pass_reaps_idle` says what is left of the law: every idle connection is gone after
a pass in a run in which no callback finds a session (and no worker cleans up after
itself twice, see `closes_once`).  `main_never_closes` says that none of them was
closed by the pass.
-/

namespace ExchangeServer

open Lib

namespace TcpServer

/-! ## The law -/

/-- After a pass at `now` the connections whose accept and last event are 60 seconds
old are closed and have no session, and passes have closed no others. -/
structure Reaped (s : TcpServer) (now : TimePoint) : Prop where
  idle : ∀ c ∈ s.trace.accepted, s.trace.active c + seconds timeoutSec ≤ now →
    c ∈ s.trace.closed ∧ s.sessionManager.sessions c.fd ≠ some c
  only : ∀ e ∈ s.trace.effects, e.thread = .main → e.op = .close →
    ∀ c, e.hit = some c → s.trace.active c + seconds timeoutSec ≤ now

/-- `accept` returns a descriptor that has a slot. -/
def AcceptsBelowMax (_s : TcpServer) (a : Action) : Prop :=
  match a with
  | .accept (some fd) => fd < SessionManager.maxFd
  | _ => True

instance (s : TcpServer) (a : Action) : Decidable (s.AcceptsBelowMax a) := by
  unfold AcceptsBelowMax
  split <;> infer_instance

/-- The callback of the timer pass, if it is what comes next, finds no session. -/
def CallbackFindsNone (s : TcpServer) (a : Action) : Prop :=
  match s.main, a with
  | .callback _ top, .main beyond => s.sessionManager.hasSession beyond top.fd = true
  | _, _ => True

instance (s : TcpServer) (a : Action) : Decidable (s.CallbackFindsNone a) :=
  decidable_of_bool
    (match s.main, a with
      | .callback _ top, .main beyond => s.sessionManager.hasSession beyond top.fd
      | _, _ => true)
    (by unfold CallbackFindsNone; split <;> simp)

/-! ## The main thread closes nothing -/

/-- **The timer pass closes no connection**, in any run: it returns from the callback,
or waits for the mutex forever. -/
theorem main_never_closes {s : TcpServer} {acts : List Action}
    (hrun : runs step init acts = some s) :
    ∀ e ∈ s.trace.effects, e.thread = .main → e.op = .epollDel := by
  refine (runs_induction (P := fun s => Locked s ∧
    ∀ e ∈ s.trace.effects, e.thread = .main → e.op = .epollDel) ?_ acts ⟨Locked.init, nofun⟩
    hrun).2
  rintro s a s' ⟨hlocked, h⟩ hstep
  refine ⟨hlocked.step hstep, ?_⟩
  -- A worker's operation is none of the main thread.
  have hnote : ∀ e' : Effect, e'.thread ≠ .main →
      ∀ e ∈ s.trace.effects ++ [e'], e.thread = .main → e.op = .epollDel := by
    intro e' hne e he hmain
    rcases List.mem_append.mp he with he | he
    · exact h e he hmain
    · rw [List.mem_singleton.mp he] at hmain
      exact absurd hmain hne
  cases step_spec hstep with
  | mainCleanup beyond now top pos t pos' pc cleans =>
      rcases hlocked.mainCleanup pc cleans with ⟨rfl, rfl, rfl⟩ | ⟨rfl, rfl, rfl⟩
      · exact h
      · intro e he hmain
        rcases List.mem_append.mp he with he | he
        · exact h e he hmain
        · rw [List.mem_singleton.mp he]
  | remove w beyond c pc => exact hnote _ nofun
  | close w beyond c pc => exact hnote _ nofun
  | workerCleanup w beyond c pos t pos' pc cleans =>
      cases pos with
      | lock =>
          obtain ⟨-, rfl, rfl⟩ := of_doCleanup_lock cleans
          exact h
      | check =>
          obtain ⟨rfl, rfl⟩ := Prod.mk.inj (Option.some.inj cleans)
          exact h
      | _ =>
          obtain ⟨rfl, rfl⟩ := Prod.mk.inj (Option.some.inj cleans)
          exact hnote _ nofun
  | _ => exact h

/-! ## The timers are right -/

/-- The accepted connection whose session is in its slot and whose timer is not armed
yet. -/
def MainPc.created : MainPc → Option Conn
  | epollAdd c _ => some c
  | readClock c .acceptConnection _ | lock c _ .acceptConnection _
  | arm c _ .acceptConnection _ => some c
  | _ => none

/-- The connection whose timer is being armed, and the time for it. -/
def MainPc.arming : MainPc → Option (Conn × TimePoint)
  | lock c expire _ _ | arm c expire _ _ => some (c, expire)
  | _ => none

/-- When the timer of a connection runs out. -/
def expiry (s : TcpServer) (c : Conn) : TimePoint :=
  s.trace.active c + seconds timeoutSec

/-- Sessions and timers belong to the newest connection of their descriptor; `T` are
the deadlines that the timer manager keeps.  Nothing is ever cancelled, because no
`doCleanup` gets past its check. -/
structure Timed (s : TcpServer) (pc : MainPc) (T : DeadlineTable) : Prop where
  slots : ∀ c ∈ s.trace.accepted, c.fd < SessionManager.maxFd
  armedSlots : ∀ fd c, s.trace.armedFor fd = some c → c.fd = fd
  sessionSlots : ∀ fd c, s.sessionManager.sessions fd = some c → c.fd = fd
  owners : ∀ fd c, s.sessionManager.sessions fd = some c →
    s.trace.armedFor fd = some c ∨ pc.new = some c
  created : ∀ c, pc.created = some c → ∀ d, s.sessionManager.sessions c.fd = some d → d = c
  present : ∀ fd c, s.opened fd = some c → s.sessionManager.sessions fd = some c ∨
    (∃ rest, pc = .create c rest) ∨ ∃ w, s.workers.lookup w = some (.close c)
  stopped : ∀ w c pos, s.workers.lookup w = some (.cleanup c pos) →
    pos = .check ∧ c ∈ s.trace.closed
  keeps : s.timerMgr.Keeps T
  nodes : ∀ n ∈ s.timerMgr.minHeap, n.fd < SessionManager.maxFd
  deadlines : ∀ c, s.trace.armedFor c.fd = some c →
    T c.fd = some (s.expiry c) ∨ ∃ expire, pc.arming = some (c, expire)
  arming : ∀ c expire, pc.arming = some (c, expire) →
    expire = s.expiry c ∧ c ∈ s.trace.accepted
  passed : ∀ now, pc = .wait (some now) → ∀ fd d, T fd = some d → now < d
  callback : ∀ now top, pc = .callback now top → top.fd < SessionManager.maxFd
  stuck : ∀ now top, pc ≠ .finish now top ∧ (pc = .cleanup now top .check →
    top.fd < SessionManager.maxFd ∧ s.sessionManager.sessions top.fd = none)

namespace Timed

variable {s s' : TcpServer} {pc : MainPc} {T : DeadlineTable} {place : Conn → Place}

theorem init : Timed TcpServer.init (.wait none) fun _ => none where
  slots c hc := by cases hc
  armedSlots fd c hc := by cases hc
  sessionSlots fd c hc := by cases hc
  owners fd c hc := by cases hc
  created c hc := by cases hc
  present fd c hc := by cases hc
  stopped w c pos hw := by cases hw
  keeps := TimerManager.Keeps.new
  nodes n hn := by cases hn
  deadlines c hc := by cases hc
  arming c expire harming := by cases harming
  passed now hpc := by cases hpc
  callback now top hpc := by cases hpc
  stuck now top := ⟨nofun, nofun⟩

/-- The main thread goes on, to code for which what `Timed` says of it is known. -/
theorem enter (h : Timed s pc T) (pc' : MainPc) (hcreate : ∀ c rest, pc ≠ .create c rest)
    (hnew : pc'.new = pc.new) (hcreated : pc'.created = pc.created)
    (harming : pc'.arming = pc.arming)
    (hpassed : ∀ now, pc' = .wait (some now) → ∀ fd d, T fd = some d → now < d)
    (hcallback : ∀ now top, pc' = .callback now top → top.fd < SessionManager.maxFd)
    (hstuck : ∀ now top, pc' ≠ .finish now top ∧ (pc' = .cleanup now top .check →
      top.fd < SessionManager.maxFd ∧ s.sessionManager.sessions top.fd = none)) :
    Timed s pc' T :=
  { h with
    owners := hnew ▸ h.owners
    created := hcreated ▸ h.created
    present := fun fd c hc =>
      (h.present fd c hc).imp_right (Or.imp_left fun hrest =>
        hrest.elim fun rest hpc => absurd hpc (hcreate c rest))
    deadlines := harming ▸ h.deadlines
    arming := harming ▸ h.arming
    passed := hpassed
    callback := hcallback
    stuck := hstuck }

/-- The main thread is at code of which `Timed` says nothing. -/
def plain : MainPc → Bool
  | .wait (some _) | .callback .. | .finish .. | .cleanup _ _ .check => false
  | _ => true

/-- The main thread goes on to such code. -/
theorem goto (h : Timed s pc T) (pc' : MainPc) (hcreate : ∀ c rest, pc ≠ .create c rest)
    (hplain : plain pc' = true) (hnew : pc'.new = pc.new) (hcreated : pc'.created = pc.created)
    (harming : pc'.arming = pc.arming) : Timed s pc' T := by
  refine h.enter pc' hcreate hnew hcreated harming ?_ ?_ ?_
  · rintro now rfl
    cases hplain
  · rintro now top rfl
    cases hplain
  · intro now top
    constructor
    · rintro rfl
      cases hplain
    · rintro rfl
      cases hplain

/-- A worker that is not about to close its connection goes on. -/
theorem moveWorker (h : Timed s pc T) {w : ℕ} {p p' : Option WorkerPc}
    (hw : s.workers.lookup w = p) (hclose : ∀ c, p ≠ some (.close c))
    (hcleanup : ∀ c pos, p' ≠ some (.cleanup c pos)) : Timed (s.moveWorker w p') pc T :=
  { h with
    present := by
      intro fd c hc
      refine (h.present fd c hc).imp_right (Or.imp_right ?_)
      rintro ⟨w', hw'⟩
      refine ⟨w', ?_⟩
      rw [lookup_moveWorker, if_neg]
      · exact hw'
      · rintro rfl
        exact hclose c (hw.symm.trans hw')
    stopped := by
      intro w' c pos hw'
      rw [lookup_moveWorker] at hw'
      split_ifs at hw' with heq
      · exact absurd hw' (hcleanup c pos)
      · exact h.stopped w' c pos hw' }

theorem accept {fd : Fd} {rest : List Event} (h : Timed s (.accept rest) T)
    (hfd : fd < SessionManager.maxFd) :
    Timed
      { s with
        opened := Function.update s.opened fd (some ⟨s.trace.accepted.length, fd⟩)
        trace := { s.trace with
          accepted := s.trace.accepted ++ [⟨s.trace.accepted.length, fd⟩] } }
      (.create ⟨s.trace.accepted.length, fd⟩ rest) T := by
  refine { h with
    slots := ?_, owners := ?_, created := nofun, present := ?_, deadlines := ?_
    arming := nofun, passed := nofun, callback := nofun, stuck := fun _ _ => ⟨nofun, nofun⟩ }
  · intro c hc
    rcases List.mem_append.mp hc with hc | hc
    · exact h.slots c hc
    · rw [List.mem_singleton.mp hc]
      exact hfd
  · intro fd' c hc
    exact Or.inl ((h.owners fd' c hc).resolve_right nofun)
  · intro fd' c hc
    change Function.update s.opened fd _ fd' = _ at hc
    rcases eq_or_ne fd' fd with rfl | hne
    · rw [Function.update_self] at hc
      obtain rfl := Option.some.inj hc
      exact Or.inr (Or.inl ⟨rest, rfl⟩)
    · rw [Function.update_of_ne hne] at hc
      refine (h.present fd' c hc).imp_right (Or.imp_left ?_)
      rintro ⟨_, hpc⟩
      cases hpc
  · intro c hc
    exact Or.inl ((h.deadlines c hc).resolve_right nofun)

theorem create {c : Conn} {rest : List Event} (h : Timed s (.create c rest) T)
    (hsole : Sole s (.create c rest) place) :
    Timed { s with sessionManager := s.sessionManager.createSession c } (.epollAdd c rest) T := by
  have hopen : s.opened c.fd = some c := (hsole.newOpen c rfl).1
  have hslot : c.fd < SessionManager.maxFd := h.slots c (hsole.opened _ c hopen).2.1
  have hsessions : (s.sessionManager.createSession c).sessions
      = Function.update s.sessionManager.sessions c.fd (some c) := by
    rw [SessionManager.createSession, if_pos hslot]
  refine { h with
    sessionSlots := ?_, owners := ?_, created := ?_, present := ?_, deadlines := ?_
    arming := nofun, passed := nofun, callback := nofun, stuck := fun _ _ => ⟨nofun, nofun⟩ }
  · intro fd d hd
    change (s.sessionManager.createSession c).sessions fd = _ at hd
    rw [hsessions] at hd
    rcases eq_or_ne fd c.fd with rfl | hne
    · rw [Function.update_self] at hd
      obtain rfl := Option.some.inj hd
      rfl
    · rw [Function.update_of_ne hne] at hd
      exact h.sessionSlots fd d hd
  · intro fd d hd
    change (s.sessionManager.createSession c).sessions fd = _ at hd
    rw [hsessions] at hd
    rcases eq_or_ne fd c.fd with rfl | hne
    · rw [Function.update_self] at hd
      exact Or.inr hd
    · rw [Function.update_of_ne hne] at hd
      exact h.owners fd d hd
  · intro d hd e he
    obtain rfl := Option.some.inj hd
    change (s.sessionManager.createSession c).sessions c.fd = _ at he
    rw [hsessions, Function.update_self] at he
    exact (Option.some.inj he).symm
  · intro fd d hd
    show (s.sessionManager.createSession c).sessions fd = _ ∨ _
    rw [hsessions]
    rcases eq_or_ne fd c.fd with rfl | hne
    · rw [Function.update_self]
      exact Or.inl (hopen.symm.trans hd)
    · rw [Function.update_of_ne hne]
      refine (h.present fd d hd).imp_right (Or.imp_left ?_)
      rintro ⟨_, hpc⟩
      obtain ⟨rfl, -⟩ := MainPc.create.inj hpc
      exact absurd (hsole.opened fd c hd).1.symm hne
  · intro d hd
    exact Or.inl ((h.deadlines d hd).resolve_right nofun)

/-- The connection whose timer is going to be armed is open. -/
theorem open_of_readClock {c : Conn} {site : Site} {rest : List Event}
    (hsole : Sole s (.readClock c site rest) place) : s.opened c.fd = some c := by
  cases site with
  | acceptConnection => exact (hsole.newOpen c rfl).1
  | start => exact (hsole.inMain c List.mem_cons_self).2

theorem readClock {c : Conn} {site : Site} {rest : List Event}
    (h : Timed s (.readClock c site rest) T) (hsole : Sole s (.readClock c site rest) place) :
    Timed { s with
        trace := { s.trace with active := Function.update s.trace.active c s.clock } }
      (.lock c (s.clock + seconds timeoutSec) site rest) T := by
  have hopen := open_of_readClock hsole
  have hnew : (MainPc.lock c (s.clock + seconds timeoutSec) site rest).new
      = (MainPc.readClock c site rest).new := by
    cases site <;> rfl
  have hcreated : (MainPc.lock c (s.clock + seconds timeoutSec) site rest).created
      = (MainPc.readClock c site rest).created := by
    cases site <;> rfl
  refine { h with
    owners := hnew ▸ h.owners, created := hcreated ▸ h.created, present := ?_, deadlines := ?_
    arming := ?_, passed := nofun, callback := nofun, stuck := fun _ _ => ⟨nofun, nofun⟩ }
  · intro fd d hd
    refine (h.present fd d hd).imp_right (Or.imp_left ?_)
    rintro ⟨_, hpc⟩
    cases hpc
  · intro d hd
    by_cases heq : d = c
    · subst heq
      exact Or.inr ⟨_, rfl⟩
    · refine Or.inl (((h.deadlines d hd).resolve_right nofun).trans ?_)
      show some (s.trace.active d + _) = some (Function.update s.trace.active c s.clock d + _)
      rw [Function.update_of_ne heq]
  · intro d expire hd
    obtain ⟨rfl, rfl⟩ := Prod.mk.inj (Option.some.inj hd)
    refine ⟨?_, (hsole.opened _ c hopen).2.1⟩
    show _ = Function.update s.trace.active c s.clock c + _
    rw [Function.update_self]

theorem arm {c : Conn} {expire : TimePoint} {site : Site} {rest : List Event}
    (h : Timed s (.arm c expire site rest) T) (hsole : Sole s (.arm c expire site rest) place) :
    Timed
      { s with
        timerMgr := s.timerMgr.arm c.fd expire
        trace := { s.trace with armedFor := Function.update s.trace.armedFor c.fd (some c) } }
      (afterArm c rest site) (T.set c.fd (some expire)) := by
  obtain ⟨hexpire, haccepted⟩ := h.arming c expire rfl
  have hpos : 0 < expire := by
    rw [hexpire]
    exact Nat.add_pos_right _ (seconds_pos (by decide))
  have harming : (afterArm c rest site).arming = none := by
    cases site <;> rfl
  -- The session of the descriptor, if there is one, is that of the connection.
  have howner : ∀ d, s.sessionManager.sessions c.fd = some d → d = c := by
    intro d hd
    cases site with
    | acceptConnection => exact h.created c rfl d hd
    | start =>
        have hopen : s.opened c.fd = some c := (hsole.inMain c List.mem_cons_self).2
        have hc := (hsole.timers c.fd c hopen).resolve_right nofun
        have hd := (h.owners c.fd d hd).resolve_right nofun
        exact Option.some.inj (hd.symm.trans hc)
  refine { h with
    armedSlots := ?_, owners := ?_, created := ?_, present := ?_, keeps := h.keeps.arm c.fd hpos
    nodes := ?_, deadlines := ?_, arming := ?_, passed := ?_, callback := ?_, stuck := ?_ }
  · intro fd d hd
    change Function.update s.trace.armedFor c.fd _ fd = _ at hd
    rcases eq_or_ne fd c.fd with rfl | hne
    · rw [Function.update_self] at hd
      rw [Option.some.inj hd]
    · rw [Function.update_of_ne hne] at hd
      exact h.armedSlots fd d hd
  · intro fd d hd
    show Function.update s.trace.armedFor c.fd _ fd = _ ∨ _
    rcases eq_or_ne fd c.fd with rfl | hne
    · rw [Function.update_self, howner d hd]
      exact Or.inl rfl
    · rw [Function.update_of_ne hne]
      refine Or.inl ((h.owners fd d hd).resolve_right fun hnew => hne ?_)
      cases site with
      | acceptConnection =>
          obtain rfl := Option.some.inj hnew
          exact (h.sessionSlots fd _ hd).symm
      | start => cases hnew
  · intro d hd
    cases site <;> cases hd
  · intro fd d hd
    refine (h.present fd d hd).imp_right (Or.imp_left ?_)
    rintro ⟨_, hpc⟩
    cases hpc
  · intro n hn
    rcases PriorityQueue.mem_push.mp hn with rfl | hn
    · exact h.slots c haccepted
    · exact h.nodes n hn
  · intro d hd
    rw [harming]
    change Function.update s.trace.armedFor c.fd _ d.fd = _ at hd
    refine Or.inl ?_
    by_cases hfd : d.fd = c.fd
    · rw [hfd, Function.update_self] at hd
      obtain rfl := Option.some.inj hd
      rw [DeadlineTable.set_self, hexpire]
      rfl
    · rw [Function.update_of_ne hfd] at hd
      rw [DeadlineTable.set_of_ne hfd]
      refine (h.deadlines d hd).resolve_right ?_
      rintro ⟨_, hd'⟩
      obtain ⟨rfl, -⟩ := Prod.mk.inj (Option.some.inj hd')
      exact hfd rfl
  · intro d e hd
    rw [harming] at hd
    cases hd
  · intro now hpc
    cases site <;> cases hpc
  · intro now top hpc
    cases site <;> cases hpc
  · intro now top
    cases site <;> exact ⟨nofun, nofun⟩

/-- A worker empties the slot of its connection. -/
theorem remove (h : Timed s pc T) (hsole : Sole s pc place) {w : ℕ} {c : Conn}
    (hw : s.workers.lookup w = some (.remove c)) :
    Timed ((s.removeSession (.worker w) (some c) c.fd).moveWorker w (some (.close c))) pc T := by
  have hopen : s.opened c.fd = some c := hsole.opened_of_worker hw nofun
  have hslot : c.fd < SessionManager.maxFd := h.slots c (hsole.opened _ c hopen).2.1
  have hsessions : (s.sessionManager.removeSession c.fd).sessions
      = Function.update s.sessionManager.sessions c.fd none := by
    rw [SessionManager.removeSession, if_pos hslot]
  have hsub : ∀ fd d, (s.sessionManager.removeSession c.fd).sessions fd = some d →
      s.sessionManager.sessions fd = some d := by
    intro fd d hd
    rw [hsessions] at hd
    rcases eq_or_ne fd c.fd with rfl | hne
    · rw [Function.update_self] at hd
      cases hd
    · rwa [Function.update_of_ne hne] at hd
  refine { h with
    sessionSlots := ?_, owners := ?_, created := ?_, present := ?_, stopped := ?_, stuck := ?_ }
  · intro fd d hd
    exact h.sessionSlots fd d (hsub fd d hd)
  · intro fd d hd
    exact h.owners fd d (hsub fd d hd)
  · intro d hd e he
    exact h.created d hd e (hsub d.fd e he)
  · intro fd d hd
    change s.opened fd = some d at hd
    rcases eq_or_ne fd c.fd with rfl | hne
    · -- Until the worker closes it, the connection is open and has no session.
      obtain rfl := Option.some.inj (hopen.symm.trans hd)
      refine Or.inr (Or.inr ⟨w, ?_⟩)
      rw [lookup_moveWorker, if_pos rfl]
    · show (s.sessionManager.removeSession c.fd).sessions fd = _ ∨ _
      rw [hsessions, Function.update_of_ne hne]
      refine (h.present fd d hd).imp_right (Or.imp_right ?_)
      rintro ⟨w', hw'⟩
      refine ⟨w', ?_⟩
      rw [lookup_moveWorker, if_neg]
      · exact hw'
      · rintro rfl
        exact absurd (hw.symm.trans hw') nofun
  · intro w' d pos hw'
    rw [lookup_moveWorker] at hw'
    split_ifs at hw' with heq
    · cases hw'
    · exact h.stopped w' d pos hw'
  · intro now top
    obtain ⟨hfinish, hcheck⟩ := h.stuck now top
    refine ⟨hfinish, fun hpc => ⟨(hcheck hpc).1, ?_⟩⟩
    show (s.sessionManager.removeSession c.fd).sessions top.fd = none
    rw [hsessions]
    rcases eq_or_ne top.fd c.fd with heq | hne
    · rw [heq, Function.update_self]
    · rw [Function.update_of_ne hne]
      exact (hcheck hpc).2

/-- A worker closes its connection. -/
theorem close (h : Timed s pc T) (hsole : Sole s pc place) {w : ℕ} {c : Conn}
    (hw : s.workers.lookup w = some (.close c)) :
    Timed ((s.close (.worker w) (some c) c.fd).moveWorker w (some (.cleanup c .check))) pc T := by
  have hopen : s.opened c.fd = some c := hsole.opened_of_worker hw nofun
  have hclosed : (s.opened c.fd).toList = [c] := by
    rw [hopen]
    rfl
  refine { h with present := ?_, stopped := ?_ }
  · intro fd d hd
    change Function.update s.opened c.fd none fd = some d at hd
    rcases eq_or_ne fd c.fd with rfl | hne
    · rw [Function.update_self] at hd
      cases hd
    · rw [Function.update_of_ne hne] at hd
      refine (h.present fd d hd).imp_right (Or.imp_right ?_)
      rintro ⟨w', hw'⟩
      refine ⟨w', ?_⟩
      rw [lookup_moveWorker, if_neg]
      · exact hw'
      · rintro rfl
        obtain rfl := WorkerPc.close.inj (Option.some.inj (hw.symm.trans hw'))
        exact hne (hsole.opened fd c hd).1.symm
  · intro w' d pos hw'
    show _ ∧ d ∈ s.trace.closed ++ (s.opened c.fd).toList
    rw [hclosed]
    rw [lookup_moveWorker] at hw'
    split_ifs at hw' with heq
    · obtain ⟨rfl, rfl⟩ := WorkerPc.cleanup.inj (Option.some.inj hw')
      exact ⟨rfl, List.mem_append_right _ List.mem_cons_self⟩
    · obtain ⟨hpos, hmem⟩ := h.stopped w' d pos hw'
      exact ⟨hpos, List.mem_append_left _ hmem⟩

/-- A worker that begins its task finds a session. -/
theorem session_of_business (h : Timed s pc T) (hsole : Sole s pc place) {w : ℕ} {c : Conn}
    (hw : s.workers.lookup w = some (.business c)) :
    s.sessionManager.getSession c.fd ≠ none := by
  have hplace : place c = .worker w := (hsole.inWorker w _ hw).1
  have hopen : s.opened c.fd = some c := hsole.opened_of_worker hw nofun
  have hslot : c.fd < SessionManager.maxFd := h.slots c (hsole.opened _ c hopen).2.1
  rw [SessionManager.getSession, if_neg (Int32.not_le.mpr hslot)]
  -- Nobody else has the connection: it is not being accepted, and no other worker is
  -- about to close it.
  rcases h.present c.fd c hopen with hsession | ⟨rest, rfl⟩ | ⟨w', hw'⟩
  · rw [hsession]
    nofun
  · rw [(hsole.inMain c List.mem_cons_self).1] at hplace
    cases hplace
  · have hplace' : place c = .worker w' := (hsole.inWorker w' _ hw').1
    obtain rfl := Place.worker.inj (hplace.symm.trans hplace')
    cases hw.symm.trans hw'

/-- Code that only leads on. -/
theorem look (h : Timed s pc T) {a : Action} {there : MainPc} (hlook : Look s a pc there)
    (hnone : ∀ now top beyond, pc = .callback now top → a = .main beyond →
      s.sessionManager.hasSession beyond top.fd = true) : Timed s there T := by
  cases hlook with
  | callbackReturn beyond now top empty =>
      rw [hnone now top beyond rfl rfl] at empty
      cases empty
  | callbackClean beyond now top found =>
      have hslot := h.callback now top rfl
      refine h.enter _ nofun rfl rfl rfl nofun nofun fun now' top' => ⟨nofun, fun hpc => ?_⟩
      obtain ⟨-, rfl, -⟩ := MainPc.cleanup.inj hpc
      refine ⟨hslot, ?_⟩
      rw [SessionManager.hasSession, if_pos hslot] at found
      exact Option.isNone_iff_eq_none.mp found
  | acceptNone | endEvents | listen | ready =>
      exact h.goto _ nofun rfl rfl rfl rfl

/-- **One step.** -/
theorem step (h : Timed s s.main T) (hsole : Sole s s.main place) (hlocked : Locked s) {a : Action}
    (hbelow : s.AcceptsBelowMax a) (hstops : s.CheckStopsCloser a)
    (hnone : s.CallbackFindsNone a) (hstep : TcpServer.step s a = some s') :
    ∃ T', Timed s' s'.main T' := by
  cases step_spec hstep with
  | tick elapsed => exact ⟨T, { h with }⟩
  | epollWait passed events pc reported =>
      rw [pc] at h
      exact ⟨T, { h.goto (.events events) nofun rfl rfl rfl rfl with }⟩
  | look _ here there pc looks =>
      rw [pc] at h
      refine ⟨T, { h.look looks ?_ with }⟩
      rintro now top beyond rfl rfl
      simpa only [CallbackFindsNone, pc] using hnone
  | accept fd rest pc valid free =>
      rw [pc] at h
      exact ⟨T, { h.accept hbelow with }⟩
  | create beyond c rest pc =>
      rw [pc] at h hsole
      exact ⟨T, { h.create hsole with }⟩
  | epollAdd beyond c rest pc =>
      rw [pc] at h
      exact ⟨T, { h.goto (.readClock c .acceptConnection rest) nofun rfl rfl rfl rfl with }⟩
  | readClock beyond c site rest pc =>
      rw [pc] at h hsole
      exact ⟨T, { h.readClock hsole with }⟩
  | lock beyond c expire site rest pc unlocked =>
      rw [pc] at h
      cases site <;> exact ⟨T, { h.goto (.arm c expire _ rest) nofun rfl rfl rfl rfl with }⟩
  | arm beyond c expire site rest pc =>
      rw [pc] at h hsole
      exact ⟨_, { h.arm hsole with }⟩
  | enqueue beyond c rest pc =>
      rw [pc] at h
      exact ⟨T, { h.goto (.events rest) nofun rfl rfl rfl rfl with }⟩
  | passLock beyond now pc unlocked =>
      rw [pc] at h
      exact ⟨T, { h.goto (.pass now) nofun rfl rfl rfl rfl with }⟩
  | passEnd top now pc late =>
      rw [pc] at h
      have hwait : Timed s (.wait (some now)) T := by
        refine h.enter _ nofun rfl rfl rfl (fun now' hpc fd d hd => ?_) nofun
          fun _ _ => ⟨nofun, nofun⟩
        obtain rfl := Option.some.inj (MainPc.wait.inj hpc)
        exact late _ (h.keeps.armed fd d hd).2
      exact ⟨T, { hwait with }⟩
  | passStale top now pc isTop stale =>
      have hnot : T top.fd ≠ some top.expire := fun hT =>
        stale ((h.keeps.entry_eq_iff isTop.1).mpr hT)
      refine ⟨T, { h with
        keeps := (h.keeps.touch top.fd).pop hnot
        nodes := fun n hn => h.nodes n (PriorityQueue.mem_of_mem_pop hn) }⟩
  | passFire top now pc isTop due valid =>
      rw [pc] at h
      have hcallback : Timed s (.callback now top) T := by
        refine h.enter _ nofun rfl rfl rfl nofun (fun now' top' hpc => ?_)
          fun _ _ => ⟨nofun, nofun⟩
        obtain ⟨-, rfl⟩ := MainPc.callback.inj hpc
        exact h.nodes _ isTop.1
      exact ⟨T, { hcallback with keeps := h.keeps.touch top.fd }⟩
  | mainCleanup beyond now top pos t pos' pc cleans =>
      rcases hlocked.mainCleanup pc cleans with ⟨rfl, rfl, rfl⟩ | ⟨rfl, rfl, rfl⟩
      · rw [pc] at h
        -- The slot that the callback has found empty is still empty.
        obtain ⟨hslot, hempty⟩ := (h.stuck now top).2 rfl
        have hfound : t.sessionManager.hasSession beyond top.fd = true := by
          rw [SessionManager.hasSession, if_pos hslot, hempty]
          rfl
        rw [if_pos hfound]
        exact ⟨T, { h.goto (.cleanup now top .epollDel) nofun rfl rfl rfl rfl with }⟩
      · rw [pc] at h
        exact ⟨T, { h.goto (.cleanup now top .lock) nofun rfl rfl rfl rfl with }⟩
  | finish beyond now top pc => exact absurd pc (h.stuck now top).1
  | take w c tasks queue idle =>
      have h' : Timed { s with tasks := tasks } s.main T := { h with }
      exact ⟨T, h'.moveWorker idle nofun nofun⟩
  | recvMore w result c pc => exact ⟨T, h⟩
  | recvAgain w c pc => exact ⟨T, h.moveWorker pc nofun nofun⟩
  | recvEnd w result c pc ended => exact ⟨T, h.moveWorker pc nofun nofun⟩
  | businessNone w beyond c pc session => exact absurd session (h.session_of_business hsole pc)
  | business w beyond c d pc session => exact ⟨T, h.moveWorker pc nofun nofun⟩
  | remove w beyond c pc => exact ⟨T, h.remove hsole pc⟩
  | close w beyond c pc => exact ⟨T, h.close hsole pc⟩
  | rearm w beyond c pc =>
      have h' : Timed (s.epollMod c.fd) s.main T := { h with }
      exact ⟨T, h'.moveWorker pc nofun nofun⟩
  | workerCleanup w beyond c pos t pos' pc cleans =>
      obtain ⟨rfl, hclosed⟩ := h.stopped w c pos pc
      obtain ⟨rfl, rfl⟩ := Prod.mk.inj (Option.some.inj cleans)
      rw [hstops.no_session pc hclosed]
      exact ⟨T, h.moveWorker pc nofun nofun⟩

end Timed

/-- What runs have to meet for passes to be right: a worker does not clean up after it
has closed its connection, and a callback finds no session. -/
def GuardsHold (s : TcpServer) (a : Action) : Prop :=
  s.CheckStopsCloser a ∧ s.CallbackFindsNone a

instance (s : TcpServer) (a : Action) : Decidable (s.GuardsHold a) :=
  inferInstanceAs (Decidable (_ ∧ _))

end TcpServer

end ExchangeServer
