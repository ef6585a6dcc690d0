import ExchangeServer.TcpServer.Reaping

/-!
# Connections are handed round

Every descriptor is watched with `EPOLLONESHOT`: epoll reports it once, the main thread
queues it, a worker takes it and watches it again.  Nobody looks for a connection that falls
out of this round, and one that is in it twice has two workers at its session.

`handed_round` says that every open connection is in exactly one place of it, in a run in
which the guards of the closing paths hold: armed in epoll, with the main thread, in the
queue, or with one worker.
-/

namespace ExchangeServer

open Lib

namespace TcpServer

/-! ## The law -/

/-- How often a connection is in the round. -/
def holders (s : TcpServer) (c : Conn) : ℕ :=
  (if s.interest c.fd = .armed then 1 else 0) + s.main.held.count c + s.tasks.count c
    + (s.workers.entries.filter fun e => e.2.conn = c).length

/-- What runs have to meet: descriptors have slots, a worker does not clean up after it has
closed its connection, and the callback of the timer pass returns at its guard. -/
def RoundHolds (s : TcpServer) (a : Action) : Prop :=
  s.AcceptsBelowMax a ∧ s.CheckStopsCloser a ∧ s.CallbackFindsSession a

instance (s : TcpServer) (a : Action) : Decidable (s.RoundHolds a) :=
  inferInstanceAs (Decidable (_ ∧ _ ∧ _))

/-! ## The invariant -/

/-- The connection that is not watched yet. -/
def MainPc.adding : MainPc → Option Conn
  | create c _ | epollAdd c _ => some c
  | _ => none

/-- The worker will watch its connection again, unless `recv` reports its end. -/
def WorkerPc.serving : WorkerPc → Bool
  | business _ | recv _ | rearm _ => true
  | remove _ | close _ | cleanup _ _ => false

/-- No connection has fallen out of the round, and whoever has one can pass it on. -/
structure Kept (s : TcpServer) (pc : MainPc) : Prop where
  held : ∀ fd c, s.opened fd = some c → s.interest fd = .armed ∨ c ∈ pc.held ∨ c ∈ s.tasks ∨
    ∃ w p, s.workers.lookup w = some p ∧ p.conn = c
  fresh : ∀ c, pc.adding = some c → s.interest c.fd = .absent
  inMain : ∀ c ∈ pc.held, pc.adding ≠ some c → s.interest c.fd = .disarmed
  inQueue : ∀ c ∈ s.tasks, s.interest c.fd = .disarmed
  inWorker : ∀ w p, s.workers.lookup w = some p → p.serving = true →
    s.interest p.conn.fd = .disarmed
  sessions : ∀ fd c, s.opened fd = some c → (∀ rest, pc ≠ .create c rest) →
    (∀ w, s.workers.lookup w ≠ some (.close c)) → s.sessionManager.sessions fd = some c
  below : ∀ c ∈ s.trace.accepted, c.fd < SessionManager.maxFd
  cleaning : ∀ w c pos, s.workers.lookup w = some (.cleanup c pos) →
    pos = .check ∧ c ∈ s.trace.closed

namespace Kept

variable {s s' : TcpServer} {pc : MainPc} {place : Conn → Place}

theorem init : Kept TcpServer.init (.wait none) where
  held fd c hc := by cases hc
  fresh c hc := by cases hc
  inMain c hc := by cases hc
  inQueue c hc := by cases hc
  inWorker w p hp := by cases hp
  sessions fd c hc := by cases hc
  below c hc := by cases hc
  cleaning w c pos hp := by cases hp

/-- The main thread goes on with the connections it has. -/
theorem goto (h : Kept s pc) (pc' : MainPc) (hheld : pc'.held = pc.held)
    (hadding : pc'.adding = pc.adding) (hcreate : ∀ c rest, pc ≠ .create c rest) : Kept s pc' :=
  { h with
    held := hheld ▸ h.held
    fresh := hadding ▸ h.fresh
    inMain := by
      rw [hheld, hadding]
      exact h.inMain
    sessions := fun fd c hc _ => h.sessions fd c hc (hcreate c) }

theorem mem_held_of_adding {c : Conn} (h : pc.adding = some c) : c ∈ pc.held := by
  unfold MainPc.adding at h
  split at h
  case h_1 | h_2 =>
      obtain rfl := Option.some.inj h
      exact List.mem_cons_self
  case h_3 => cases h

/-- A worker that serves its connection has it open. -/
theorem open_of_serving (hsole : Sole s pc place) {w : ℕ} {p : WorkerPc}
    (hw : s.workers.lookup w = some p) (hserves : p.serving = true) :
    place p.conn = .worker w ∧ s.opened p.conn.fd = some p.conn := by
  refine ⟨(hsole.inWorker w p hw).1, hsole.opened_of_worker hw fun hcheck => ?_⟩
  rw [hcheck] at hserves
  cases hserves

/-- A worker has a session for its connection. -/
theorem session_of_business (h : Kept s pc) (hsole : Sole s pc place) {w : ℕ} {c : Conn}
    (hw : s.workers.lookup w = some (.business c)) :
    s.sessionManager.getSession c.fd = some c := by
  have hopen : s.opened c.fd = some c := hsole.opened_of_worker hw nofun
  have hplace := (hsole.inWorker w _ hw).1
  obtain ⟨-, haccepted, -⟩ := hsole.opened _ _ hopen
  have hslot := h.sessions c.fd c hopen ?_ ?_
  · unfold SessionManager.getSession
    rw [if_neg (Int32.not_le.mpr (h.below c haccepted))]
    exact hslot
  · rintro rest rfl
    have hmain := (hsole.inMain c List.mem_cons_self).1
    rw [show place c = .worker w from hplace] at hmain
    cases hmain
  · intro w' hw'
    have hother := (hsole.inWorker w' _ hw').1
    obtain rfl := Place.worker.inj ((show place c = .worker w from hplace).symm.trans hother)
    cases hw.symm.trans hw'

/-- A worker goes on with its connection. -/
theorem goOn (h : Kept s pc) {w : ℕ} {p q : WorkerPc} (hw : s.workers.lookup w = some p)
    (hconn : q.conn = p.conn) (hserving : q.serving = true → p.serving = true)
    (hclose : ∀ c, p ≠ .close c)
    (hcleanup : ∀ c pos, q = .cleanup c pos → pos = .check ∧ c ∈ s.trace.closed) :
    Kept (s.moveWorker w (some q)) pc := by
  refine { h with held := ?_, inWorker := ?_, sessions := ?_, cleaning := ?_ }
  · intro fd c hc
    refine (h.held fd c hc).imp id (Or.imp id (Or.imp id ?_))
    rintro ⟨w', p', hp', rfl⟩
    by_cases heq : w' = w
    · subst heq
      obtain rfl := Option.some.inj (hw.symm.trans hp')
      exact ⟨w', q, by rw [lookup_moveWorker, if_pos rfl], hconn⟩
    · exact ⟨w', p', by rw [lookup_moveWorker, if_neg heq]; exact hp', rfl⟩
  · intro w' p' hp' hserves
    rw [lookup_moveWorker] at hp'
    split_ifs at hp' with heq
    · obtain rfl := Option.some.inj hp'
      rw [hconn]
      exact h.inWorker w p hw (hserving hserves)
    · exact h.inWorker w' p' hp' hserves
  · intro fd c hc hnot hkeeps
    refine h.sessions fd c hc hnot fun w' hw' => ?_
    by_cases heq : w' = w
    · subst heq
      exact hclose c (Option.some.inj (hw.symm.trans hw'))
    · refine hkeeps w' ?_
      rw [lookup_moveWorker, if_neg heq]
      exact hw'
  · intro w' c pos hp'
    rw [lookup_moveWorker] at hp'
    split_ifs at hp' with heq
    · exact hcleanup c pos (Option.some.inj hp')
    · exact h.cleaning w' c pos hp'

/-- Some connections that epoll watches are reported. -/
theorem epollWait (h : Kept s pc) {events : List Event}
    (hidle : pc.held = []) (hcreate : ∀ c rest, pc ≠ .create c rest)
    (hreported : s.Reportable events) :
    Kept { s with interest := fun fd =>
        if fd ∈ (readies events).map Conn.fd then .disarmed else s.interest fd }
      (.events events) := by
  obtain ⟨-, -, hready⟩ := hreported
  -- A connection that somebody has is not armed, so it stays disarmed.
  have hstays : ∀ {fd}, s.interest fd = .disarmed →
      (if fd ∈ (readies events).map Conn.fd then Interest.disarmed else s.interest fd)
        = .disarmed := by
    intro fd hfd
    split_ifs
    · rfl
    · exact hfd
  refine { h with
    held := ?_, fresh := nofun, inMain := ?_, inQueue := fun c hc => hstays (h.inQueue c hc)
    inWorker := fun w p hp hserves => hstays (h.inWorker w p hp hserves)
    sessions := fun fd c hc _ => h.sessions fd c hc (hcreate c) }
  · intro fd c hc
    by_cases hmem : fd ∈ (readies events).map Conn.fd
    · obtain ⟨d, hd, rfl⟩ := List.mem_map.mp hmem
      obtain rfl := Option.some.inj ((hready d hd).1.symm.trans hc)
      exact Or.inr (Or.inl hd)
    · rcases h.held fd c hc with harmed | hmain | hrest
      · exact Or.inl ((if_neg hmem).trans harmed)
      · rw [hidle] at hmain
        cases hmain
      · exact Or.inr (Or.inr hrest)
  · intro c hc _
    exact if_pos (List.mem_map_of_mem hc)

/-- A connection is accepted. -/
theorem accept {fd : Fd} {rest : List Event} (h : Kept s (.accept rest))
    (hsole : Sole s (.accept rest) place) (hbelow : fd < SessionManager.maxFd)
    (hfree : s.opened fd = none) :
    Kept
      { s with
        opened := Function.update s.opened fd (some ⟨s.trace.accepted.length, fd⟩)
        trace := { s.trace with
          accepted := s.trace.accepted ++ [⟨s.trace.accepted.length, fd⟩] } }
      (.create ⟨s.trace.accepted.length, fd⟩ rest) := by
  refine { h with held := ?_, fresh := ?_, inMain := ?_, sessions := ?_, below := ?_ }
  · intro fd' c hc
    change Function.update s.opened fd _ fd' = some c at hc
    rcases eq_or_ne fd' fd with rfl | hne
    · rw [Function.update_self] at hc
      obtain rfl := Option.some.inj hc
      exact Or.inr (Or.inl List.mem_cons_self)
    · rw [Function.update_of_ne hne] at hc
      exact (h.held fd' c hc).imp id (Or.imp (List.mem_cons_of_mem _) id)
  · intro c hc
    obtain rfl := Option.some.inj hc
    exact hsole.watched fd hfree
  · intro c hc hne
    rcases List.mem_cons.mp hc with rfl | hc
    · exact absurd rfl hne
    · exact h.inMain c hc nofun
  · intro fd' c hc hnot hkeeps
    change Function.update s.opened fd _ fd' = some c at hc
    rcases eq_or_ne fd' fd with rfl | hne
    · rw [Function.update_self] at hc
      obtain rfl := Option.some.inj hc
      exact absurd rfl (hnot rest)
    · rw [Function.update_of_ne hne] at hc
      exact h.sessions fd' c hc nofun hkeeps
  · intro c hc
    rcases List.mem_append.mp hc with hc | hc
    · exact h.below c hc
    · rw [List.mem_singleton.mp hc]
      exact hbelow

/-- The new connection gets its session. -/
theorem create {c : Conn} {rest : List Event} (h : Kept s (.create c rest))
    (hsole : Sole s (.create c rest) place) :
    Kept { s with sessionManager := s.sessionManager.createSession c } (.epollAdd c rest) := by
  obtain ⟨-, hopen⟩ := hsole.inMain c List.mem_cons_self
  obtain ⟨-, haccepted, -⟩ := hsole.opened _ _ hopen
  refine { h with sessions := ?_ }
  intro fd d hd _ hkeeps
  show (s.sessionManager.createSession c).sessions fd = some d
  unfold SessionManager.createSession
  rw [if_pos (h.below c haccepted)]
  rcases eq_or_ne fd c.fd with rfl | hne
  · exact (Function.update_self _ _ _).trans (hopen.symm.trans hd)
  · refine (Function.update_of_ne hne _ _).trans (h.sessions fd d hd ?_ hkeeps)
    rintro rest' heq
    obtain ⟨rfl, -⟩ := MainPc.create.inj heq
    exact hne (hsole.opened fd _ hd).1.symm

/-- The new connection is watched. -/
theorem epollAdd {c : Conn} {rest : List Event} (h : Kept s (.epollAdd c rest))
    (hsole : Sole s (.epollAdd c rest) place) :
    Kept (s.epollAdd c.fd) (.readClock c .acceptConnection rest) := by
  obtain ⟨-, hopen⟩ := hsole.inMain c List.mem_cons_self
  obtain ⟨hfresh, -⟩ := List.nodup_cons.mp hsole.heldOnce
  have habsent := h.fresh c rfl
  have hinterest : (s.epollAdd c.fd).interest = Function.update s.interest c.fd .armed := by
    unfold TcpServer.epollAdd
    exact if_pos ⟨by rw [hopen]; rfl, habsent⟩
  -- Nobody has a connection that is disarmed with this number.
  have hothers : ∀ fd, s.interest fd = .disarmed → (s.epollAdd c.fd).interest fd = .disarmed := by
    intro fd hfd
    rw [hinterest, Function.update_of_ne]
    · exact hfd
    · rintro rfl
      cases habsent.symm.trans hfd
  refine { h with
    held := ?_, fresh := nofun, inMain := ?_
    inQueue := fun d hd => hothers _ (h.inQueue d hd)
    inWorker := fun w p hp hserves => hothers _ (h.inWorker w p hp hserves)
    sessions := fun fd d hd _ => h.sessions fd d hd nofun }
  · intro fd d hd
    rw [hinterest]
    rcases eq_or_ne fd c.fd with rfl | hne
    · exact Or.inl (Function.update_self _ _ _)
    · rw [Function.update_of_ne hne]
      refine (h.held fd d hd).imp id (Or.imp (fun hmem => ?_) id)
      rcases List.mem_cons.mp hmem with rfl | hmem
      · exact absurd (hsole.opened fd _ hd).1.symm hne
      · exact hmem
  · intro d hd _
    refine hothers _ (h.inMain d (List.mem_cons_of_mem _ hd) ?_)
    rintro heq
    obtain rfl := Option.some.inj heq
    exact hfresh hd

/-- A connection with an event is queued. -/
theorem enqueue {c : Conn} {rest : List Event} (h : Kept s (.enqueue c rest)) :
    Kept { s with tasks := s.tasks ++ [c] } (.events rest) := by
  refine { h with held := ?_, fresh := nofun, inMain := ?_, inQueue := ?_, sessions := ?_ }
  · intro fd d hd
    rcases h.held fd d hd with harmed | hmain | hqueue | hworker
    · exact Or.inl harmed
    · rcases List.mem_cons.mp hmain with rfl | hmain
      · exact Or.inr (Or.inr (Or.inl (List.mem_append_right _ List.mem_cons_self)))
      · exact Or.inr (Or.inl hmain)
    · exact Or.inr (Or.inr (Or.inl (List.mem_append_left _ hqueue)))
    · exact Or.inr (Or.inr (Or.inr hworker))
  · intro d hd _
    exact h.inMain d (List.mem_cons_of_mem _ hd) nofun
  · intro d hd
    rcases List.mem_append.mp hd with hd | hd
    · exact h.inQueue d hd
    · rw [List.mem_singleton.mp hd]
      exact h.inMain c List.mem_cons_self nofun
  · exact fun fd d hd _ => h.sessions fd d hd nofun

/-- A worker dequeues a connection. -/
theorem take (h : Kept s pc) {c : Conn} {tasks : List Conn} {w : ℕ}
    (hqueue : s.tasks = c :: tasks) (hidle : s.workers.lookup w = none) :
    Kept ({ s with tasks := tasks }.moveWorker w (some (.business c))) pc := by
  refine { h with held := ?_, inQueue := ?_, inWorker := ?_, sessions := ?_, cleaning := ?_ }
  · intro fd d hd
    refine (h.held fd d hd).imp id (Or.imp id ?_)
    rintro (hmem | ⟨w', p, hp, rfl⟩)
    · rw [hqueue] at hmem
      rcases List.mem_cons.mp hmem with rfl | hmem
      · exact Or.inr ⟨w, .business d, by rw [lookup_moveWorker, if_pos rfl], rfl⟩
      · exact Or.inl hmem
    · refine Or.inr ⟨w', p, ?_, rfl⟩
      rw [lookup_moveWorker, if_neg]
      · exact hp
      · rintro rfl
        cases hidle.symm.trans hp
  · intro d hd
    refine h.inQueue d ?_
    rw [hqueue]
    exact List.mem_cons_of_mem _ hd
  · intro w' p hp hserves
    rw [lookup_moveWorker] at hp
    split_ifs at hp
    · obtain rfl := Option.some.inj hp
      refine h.inQueue c ?_
      rw [hqueue]
      exact List.mem_cons_self
    · exact h.inWorker w' p hp hserves
  · intro fd d hd hnot hkeeps
    refine h.sessions fd d hd hnot fun w' hw' => hkeeps w' ?_
    rw [lookup_moveWorker, if_neg]
    · exact hw'
    · rintro rfl
      cases hidle.symm.trans hw'
  · intro w' d pos hp
    rw [lookup_moveWorker] at hp
    split_ifs at hp
    · cases hp
    · exact h.cleaning w' d pos hp

/-- A worker takes the session of its connection away. -/
theorem remove (h : Kept s pc) (hsole : Sole s pc place) {w : ℕ} {c : Conn}
    (hw : s.workers.lookup w = some (.remove c)) :
    Kept ((s.removeSession (.worker w) (some c) c.fd).moveWorker w (some (.close c))) pc := by
  have hopen : s.opened c.fd = some c := hsole.opened_of_worker hw nofun
  have hmoved := h.goOn (q := .close c) hw rfl nofun nofun nofun
  refine { hmoved with sessions := ?_ }
  intro fd d hd hnot hkeeps
  have hne : fd ≠ c.fd := by
    rintro rfl
    obtain rfl := Option.some.inj (hopen.symm.trans hd)
    exact hkeeps w (by rw [lookup_moveWorker, if_pos rfl])
  have hslot := hmoved.sessions fd d hd hnot hkeeps
  show (s.sessionManager.removeSession c.fd).sessions fd = some d
  unfold SessionManager.removeSession
  split_ifs
  · exact (Function.update_of_ne hne _ _).trans hslot
  · exact hslot

/-- A worker closes its connection. -/
theorem close (h : Kept s pc) (hsole : Sole s pc place) {w : ℕ} {c : Conn}
    (hw : s.workers.lookup w = some (.close c)) :
    Kept ((s.close (.worker w) (some c) c.fd).moveWorker w (some (.cleanup c .check))) pc := by
  have hopen : s.opened c.fd = some c := hsole.opened_of_worker hw nofun
  have hplace : place c = .worker w := (hsole.inWorker w _ hw).1
  -- Whoever has another connection does not notice.
  have hothers : ∀ d, s.opened d.fd = some d → place d ≠ .worker w →
      ∀ x, Function.update s.interest c.fd .absent d.fd = x ↔ s.interest d.fd = x := by
    intro d hd hne x
    rw [Function.update_of_ne]
    intro hfd
    exact hne (Sole.eq_of_opened hopen hd hfd ▸ hplace)
  have hlookup : ∀ w' p, ((s.close (.worker w) (some c) c.fd).moveWorker w
      (some (.cleanup c .check))).workers.lookup w' = some p →
      (w' = w ∧ p = .cleanup c .check) ∨ (w' ≠ w ∧ s.workers.lookup w' = some p) := by
    intro w' p hp
    rw [lookup_moveWorker] at hp
    split_ifs at hp with heq
    · exact Or.inl ⟨heq, (Option.some.inj hp).symm⟩
    · exact Or.inr ⟨heq, hp⟩
  have hstill : ∀ fd d, Function.update s.opened c.fd none fd = some d →
      fd ≠ c.fd ∧ s.opened fd = some d := by
    intro fd d hd
    rcases eq_or_ne fd c.fd with rfl | hne
    · rw [Function.update_self] at hd
      cases hd
    · rw [Function.update_of_ne hne] at hd
      exact ⟨hne, hd⟩
  refine { h with
    held := ?_, fresh := ?_, inMain := ?_, inQueue := ?_, inWorker := ?_, sessions := ?_
    cleaning := ?_ }
  · intro fd d hd
    obtain ⟨hne, hdopen⟩ := hstill fd d hd
    rcases h.held fd d hdopen with harmed | hmain | hqueue | ⟨w', p, hp, rfl⟩
    · exact Or.inl ((Function.update_of_ne hne _ _).trans harmed)
    · exact Or.inr (Or.inl hmain)
    · exact Or.inr (Or.inr (Or.inl hqueue))
    · refine Or.inr (Or.inr (Or.inr ⟨w', p, ?_, rfl⟩))
      rw [lookup_moveWorker, if_neg]
      · exact hp
      · rintro rfl
        obtain rfl := Option.some.inj (hw.symm.trans hp)
        exact hne (hsole.opened fd _ hdopen).1.symm
  · intro d hd
    obtain ⟨hmain, hdopen⟩ := hsole.inMain d (mem_held_of_adding hd)
    exact (hothers d hdopen (by rw [hmain]; nofun) _).mpr (h.fresh d hd)
  · intro d hd hnew
    obtain ⟨hmain, hdopen⟩ := hsole.inMain d hd
    exact (hothers d hdopen (by rw [hmain]; nofun) _).mpr (h.inMain d hd hnew)
  · intro d hd
    obtain ⟨hqueue, hdopen⟩ := hsole.inQueue d hd
    exact (hothers d hdopen (by rw [hqueue]; nofun) _).mpr (h.inQueue d hd)
  · intro w' p hp hserves
    rcases hlookup w' p hp with ⟨rfl, rfl⟩ | ⟨hne, hp⟩
    · cases hserves
    · obtain ⟨hworker, hpopen⟩ := open_of_serving hsole hp hserves
      refine (hothers _ hpopen ?_ _).mpr (h.inWorker w' p hp hserves)
      rw [hworker]
      intro heq
      exact hne (Place.worker.inj heq)
  · intro fd d hd hnot hkeeps
    obtain ⟨hne, hdopen⟩ := hstill fd d hd
    refine h.sessions fd d hdopen hnot fun w' hw' => ?_
    by_cases heq : w' = w
    · subst heq
      obtain rfl := WorkerPc.close.inj (Option.some.inj (hw.symm.trans hw'))
      exact hne (hsole.opened fd _ hdopen).1.symm
    · refine hkeeps w' ?_
      rw [lookup_moveWorker, if_neg heq]
      exact hw'
  · intro w' d pos hp
    show pos = .check ∧ d ∈ s.trace.closed ++ (s.opened c.fd).toList
    rcases hlookup w' _ hp with ⟨-, heq⟩ | ⟨-, hp⟩
    · obtain ⟨rfl, rfl⟩ := WorkerPc.cleanup.inj heq
      rw [hopen]
      exact ⟨rfl, List.mem_append_right _ List.mem_cons_self⟩
    · obtain ⟨hpos, hclosed⟩ := h.cleaning w' d pos hp
      exact ⟨hpos, List.mem_append_left _ hclosed⟩

/-- A worker is done with its connection. -/
theorem leave (h : Kept s pc) (hsole : Sole s pc place) {w : ℕ} {p : WorkerPc}
    {interest : Fd → Interest} (hw : s.workers.lookup w = some p) (hclose : ∀ c, p ≠ .close c)
    (hdone : ∀ fd, s.opened fd = some p.conn → interest fd = .armed)
    (harmed : ∀ fd, s.interest fd = .armed → interest fd = .armed)
    (hothers : ∀ d, s.opened d.fd = some d → place d ≠ .worker w →
      interest d.fd = s.interest d.fd) :
    Kept ({ s with interest }.moveWorker w none) pc := by
  have hlookup : ∀ w' q, ({ s with interest }.moveWorker w none).workers.lookup w' = some q →
      w' ≠ w ∧ s.workers.lookup w' = some q := by
    intro w' q hq
    rw [lookup_moveWorker] at hq
    split_ifs at hq with heq
    exact ⟨heq, hq⟩
  refine { h with
    held := ?_, fresh := ?_, inMain := ?_, inQueue := ?_, inWorker := ?_, sessions := ?_
    cleaning := fun w' c pos hq => h.cleaning w' c pos (hlookup w' _ hq).2 }
  · intro fd c hc
    rcases h.held fd c hc with hwatched | hmain | hqueue | ⟨w', q, hq, rfl⟩
    · exact Or.inl (harmed fd hwatched)
    · exact Or.inr (Or.inl hmain)
    · exact Or.inr (Or.inr (Or.inl hqueue))
    · by_cases heq : w' = w
      · subst heq
        obtain rfl := Option.some.inj (hw.symm.trans hq)
        exact Or.inl (hdone fd hc)
      · refine Or.inr (Or.inr (Or.inr ⟨w', q, ?_, rfl⟩))
        rw [lookup_moveWorker, if_neg heq]
        exact hq
  · intro c hc
    obtain ⟨hmain, hopen⟩ := hsole.inMain c (mem_held_of_adding hc)
    exact (hothers c hopen (by rw [hmain]; nofun)).trans (h.fresh c hc)
  · intro c hc hnew
    obtain ⟨hmain, hopen⟩ := hsole.inMain c hc
    exact (hothers c hopen (by rw [hmain]; nofun)).trans (h.inMain c hc hnew)
  · intro c hc
    obtain ⟨hqueue, hopen⟩ := hsole.inQueue c hc
    exact (hothers c hopen (by rw [hqueue]; nofun)).trans (h.inQueue c hc)
  · intro w' q hq hserves
    obtain ⟨hne, hq⟩ := hlookup w' q hq
    obtain ⟨hworker, hopen⟩ := open_of_serving hsole hq hserves
    refine (hothers _ hopen ?_).trans (h.inWorker w' q hq hserves)
    rw [hworker]
    intro heq
    exact hne (Place.worker.inj heq)
  · intro fd c hc hnot hkeeps
    refine h.sessions fd c hc hnot fun w' hw' => ?_
    by_cases heq : w' = w
    · subst heq
      exact hclose c (Option.some.inj (hw.symm.trans hw'))
    · refine hkeeps w' ?_
      rw [lookup_moveWorker, if_neg heq]
      exact hw'

/-- A worker arms its connection again. -/
theorem rearm (h : Kept s pc) (hsole : Sole s pc place) {w : ℕ} {c : Conn}
    (hw : s.workers.lookup w = some (.rearm c)) :
    Kept ((s.epollMod c.fd).moveWorker w none) pc := by
  have hopen : s.opened c.fd = some c := hsole.opened_of_worker hw nofun
  have hplace : place c = .worker w := (hsole.inWorker w _ hw).1
  have hdisarmed : s.interest c.fd = .disarmed := h.inWorker w _ hw rfl
  unfold epollMod
  rw [if_neg (by rw [hdisarmed]; nofun)]
  refine h.leave hsole hw nofun (fun fd hc => ?_) (fun fd hfd => ?_) fun d hd hne => ?_
  · rw [← (hsole.opened fd c hc).1]
    exact Function.update_self _ _ _
  · rcases eq_or_ne fd c.fd with rfl | hne
    · exact Function.update_self _ _ _
    · exact (Function.update_of_ne hne _ _).trans hfd
  · refine Function.update_of_ne (fun hfd => hne ?_) _ _
    rw [Sole.eq_of_opened hopen hd hfd]
    exact hplace

/-- Code that only leads on keeps the connections in the round. -/
theorem look (h : Kept s pc) {a : Action} {there : MainPc} (hlook : Look s a pc there) :
    Kept s there := by
  cases hlook <;> exact h.goto _ rfl rfl nofun

/-- **One step.** -/
theorem step (h : Kept s s.main) (hsole : Sole s s.main place) {a : Action}
    (hround : s.RoundHolds a) (hmain : ∀ now top pos, s.main ≠ .cleanup now top pos)
    (hstep : TcpServer.step s a = some s') : Kept s' s'.main := by
  obtain ⟨hbelow, hstops, -⟩ := hround
  cases step_spec hstep with
  | tick elapsed => exact { h with }
  | epollWait passed events pc reported =>
      rw [pc] at h
      exact { h.epollWait rfl nofun reported with }
  | look _ here there pc looks =>
      rw [pc] at h
      exact { h.look looks with }
  | accept fd rest pc valid free =>
      rw [pc] at h hsole
      exact { h.accept hsole hbelow free with }
  | create beyond c rest pc =>
      rw [pc] at h hsole
      exact { h.create hsole with }
  | epollAdd beyond c rest pc =>
      rw [pc] at h hsole
      exact { h.epollAdd hsole with }
  | readClock beyond c site rest pc =>
      rw [pc] at h
      cases site <;> exact { h.goto (.lock c _ _ rest) rfl rfl nofun with }
  | lock beyond c expire site rest pc unlocked =>
      rw [pc] at h
      cases site <;> exact { h.goto (.arm c expire _ rest) rfl rfl nofun with }
  | arm beyond c expire site rest pc =>
      rw [pc] at h
      cases site with
      | acceptConnection => exact { h.goto (.accept rest) rfl rfl nofun with }
      | start => exact { h.goto (.enqueue c rest) rfl rfl nofun with }
  | enqueue beyond c rest pc =>
      rw [pc] at h
      exact { h.enqueue with }
  | passLock beyond now pc unlocked =>
      rw [pc] at h
      exact { h.goto (.pass now) rfl rfl nofun with }
  | passEnd top now pc late =>
      rw [pc] at h
      exact { h.goto (.wait (some now)) rfl rfl nofun with }
  | passStale top now pc isTop stale => exact { h with }
  | passFire top now pc isTop due valid =>
      rw [pc] at h
      exact { h.goto (.callback now top) rfl rfl nofun with }
  | mainCleanup beyond now top pos t pos' pc cleans => exact absurd pc (hmain now top pos)
  | finish beyond now top pc =>
      rw [pc] at h
      exact { h.goto (.pass now) rfl rfl nofun with }
  | take w c tasks queue idle => exact h.take queue idle
  | recvMore w result c pc => exact h
  | recvAgain w c pc => exact h.goOn pc rfl (fun _ => rfl) nofun nofun
  | recvEnd w result c pc ended => exact h.goOn pc rfl nofun nofun nofun
  | businessNone w beyond c pc session =>
      cases session.symm.trans (h.session_of_business hsole pc)
  | business w beyond c d pc session => exact h.goOn pc rfl (fun _ => rfl) nofun nofun
  | remove w beyond c pc => exact h.remove hsole pc
  | close w beyond c pc => exact h.close hsole pc
  | rearm w beyond c pc => exact h.rearm hsole pc
  | workerCleanup w beyond c pos t pos' pc cleans =>
      -- The worker has closed its connection, so the check stops it.
      obtain ⟨rfl, hclosed⟩ := h.cleaning w c pos pc
      have hempty := hstops.no_session pc hclosed
      obtain ⟨rfl, rfl⟩ := Prod.mk.inj (Option.some.inj cleans)
      rw [hempty]
      refine h.leave hsole pc nofun (fun fd hc => ?_) (fun _ => id) fun _ _ _ => rfl
      exact absurd hclosed (hsole.opened fd c hc).2.2

end Kept

/-! ## One place -/

namespace Sole

variable {s : TcpServer} {place : Conn → Place} {c : Conn}

/-- The workers that have a connection. -/
theorem workers_of_place (h : Sole s s.main place) {w : ℕ} {p : WorkerPc}
    (hw : s.workers.lookup w = some p) (hc : p.conn = c) :
    (s.workers.entries.filter fun e => e.2.conn = c).length = 1 := by
  have hnodup : (s.workers.entries.filter fun e => e.2.conn = c).Nodup :=
    s.workers.nodupKeys.nodup.filter _
  refine ((List.perm_ext_iff_of_nodup hnodup (List.nodup_singleton ⟨w, p⟩)).mpr
    fun e => ?_).length_eq
  rw [List.mem_filter, decide_eq_true_eq, List.mem_singleton]
  constructor
  · rintro ⟨he, hconn⟩
    have hother := (UnorderedMap.mem_entries_iff _ e.1 e.2).mp he
    have hplace := (h.inWorker e.1 e.2 hother).1
    rw [hconn, ← hc, (h.inWorker w p hw).1] at hplace
    obtain ⟨w', q⟩ := e
    obtain rfl := Place.worker.inj hplace
    obtain rfl := Option.some.inj (hw.symm.trans hother)
    rfl
  · rintro rfl
    exact ⟨(UnorderedMap.mem_entries_iff _ w p).mpr hw, hc⟩

/-- Who does not have a connection does not count. -/
theorem workers_of_ne (h : Sole s s.main place) (hne : ∀ w, place c ≠ .worker w) :
    (s.workers.entries.filter fun e => e.2.conn = c).length = 0 := by
  rw [List.length_eq_zero_iff, List.filter_eq_nil_iff]
  intro e he
  rw [decide_eq_true_eq]
  rintro rfl
  exact hne e.1 (h.inWorker e.1 e.2 ((UnorderedMap.mem_entries_iff _ e.1 e.2).mp he)).1

theorem held_of_ne (h : Sole s s.main place) (hne : place c ≠ .main) : s.main.held.count c = 0 :=
  List.count_eq_zero_of_not_mem fun hc => hne (h.inMain c hc).1

theorem queued_of_ne (h : Sole s s.main place) (hne : place c ≠ .queue) : s.tasks.count c = 0 :=
  List.count_eq_zero_of_not_mem fun hc => hne (h.inQueue c hc).1

theorem armed_of_ne (h : Sole s s.main place) (hopen : s.opened c.fd = some c)
    (hne : place c ≠ .epoll) : (if s.interest c.fd = .armed then 1 else 0) = 0 :=
  if_neg fun harmed => hne (h.inEpoll c.fd c harmed hopen)

end Sole

/-- **An open connection is in one place.** -/
theorem Kept.holders_eq_one {s : TcpServer} {place : Conn → Place} (h : Kept s s.main)
    (hsole : Sole s s.main place) {c : Conn} (hopen : s.opened c.fd = some c) :
    s.holders c = 1 := by
  unfold holders
  rcases h.held c.fd c hopen with harmed | hmain | hqueue | ⟨w, p, hw, hc⟩
  · have hplace := hsole.inEpoll c.fd c harmed hopen
    rw [if_pos harmed, hsole.held_of_ne (by rw [hplace]; nofun),
      hsole.queued_of_ne (by rw [hplace]; nofun), hsole.workers_of_ne (by rw [hplace]; nofun)]
  · have hplace := (hsole.inMain c hmain).1
    rw [hsole.armed_of_ne hopen (by rw [hplace]; nofun), hsole.queued_of_ne (by rw [hplace]; nofun),
      hsole.workers_of_ne (by rw [hplace]; nofun), List.count_eq_one_of_mem hsole.heldOnce hmain]
  · have hplace := (hsole.inQueue c hqueue).1
    rw [hsole.armed_of_ne hopen (by rw [hplace]; nofun), hsole.held_of_ne (by rw [hplace]; nofun),
      hsole.workers_of_ne (by rw [hplace]; nofun), List.count_eq_one_of_mem hsole.queuedOnce hqueue]
  · have hplace := (hsole.inWorker w p hw).1
    rw [hc] at hplace
    rw [hsole.armed_of_ne hopen (by rw [hplace]; nofun), hsole.held_of_ne (by rw [hplace]; nofun),
      hsole.queued_of_ne (by rw [hplace]; nofun), hsole.workers_of_place hw hc]

/-- **No connection falls out of the round, and none is in it twice.**  In a run in which
the guards of the closing paths hold, every connection that has not been closed is in one
place: armed in epoll, with the main thread, in the queue of the pool, or with one worker. -/
theorem handed_round (acts : List Action) (s : TcpServer)
    (hround : Along step RoundHolds init acts) (hrun : runs step init acts = some s) :
    ∀ c ∈ s.trace.accepted, c ∉ s.trace.closed → s.holders c = 1 := by
  have hkept : Kept s s.main := by
    refine runs_reachable_along (I := fun s => Kept s s.main) acts Kept.init ?_ hround hrun
    intro before s a s' halong hbefore h hround hstep
    obtain ⟨-, place, hsole⟩ := Sole.reachable (halong.mono fun _ _ h => h.2.1) hbefore
    have hmain := main_ne_cleanup (halong.mono fun _ _ h => h.2.2) hbefore
    exact h.step hsole hround hmain hstep
  obtain ⟨-, place, hsole⟩ := Sole.reachable (hround.mono fun _ _ h => h.2.1) hrun
  intro c hc hnot
  exact hkept.holders_eq_one hsole ((hsole.settled c hc).resolve_left hnot)

/-- A second connection is accepted in the round in which the first one has an event; the
first one is with a worker, and the second one is armed. -/
theorem handed_round_sample :
    ∃ s, runs step init (acceptFive ++ [.epollWait [.listen, .ready ⟨0, 5⟩], .main false,
        .accept (some 6)] ++ mains 5 ++ [.accept none] ++ mains 5 ++ [.take 0, .worker 0 false,
          .recv 0 .data]) = some s ∧
      ∀ c ∈ s.trace.accepted, c ∉ s.trace.closed → s.holders c = 1 := by
  refine ⟨_, runs_eq_runsTo step (by decide), ?_⟩
  exact handed_round _ _ (by decide) (runs_eq_runsTo step (by decide))

end TcpServer

end ExchangeServer
