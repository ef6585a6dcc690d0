import ExchangeServer.TcpServer.Basic

/-!
# The mutex of the timer manager

`handleTimeouts` holds `mtx_` while it runs its callback, and the callback reaches
`cancelTimer`, which takes `mtx_` again, when it finds no session in the slot of the
descriptor.  A worker empties the slot before it cancels the timer, so the main
thread can come between the two.

`no_self_lock` says that this is the only way: in a run whose callbacks all find a
session no thread takes the mutex while it owns it.  `self_lock_of_no_session` is the
other direction, for a callback that finds none.
-/

namespace ExchangeServer

open Lib

namespace TcpServer

/-- The main thread is where it owns the mutex. -/
def MainPc.critical : MainPc → Bool
  | arm .. | pass _ | callback .. | cleanup .. | finish .. => true
  | _ => false

/-- The thread is about to take the mutex. -/
def locking (s : TcpServer) : Thread → Bool
  | .main =>
      match s.main with
      | .lock .. | .passLock _ | .cleanup _ _ .lock => true
      | _ => false
  | .worker w =>
      match s.workers.lookup w with
      | some (.cleanup _ .lock) => true
      | _ => false

/-- No thread is about to take the mutex while it owns it. -/
def NoSelfLock (s : TcpServer) : Prop :=
  ∀ t, s.locking t = true → s.mutex ≠ some t

/-- The callback of the timer pass, if it is what comes next, finds a session. -/
def CallbackFindsSession (s : TcpServer) (a : Action) : Prop :=
  match s.main, a with
  | .callback _ top, .main beyond => s.sessionManager.hasSession beyond top.fd = false
  | _, _ => True

instance (s : TcpServer) (a : Action) : Decidable (s.CallbackFindsSession a) := by
  unfold CallbackFindsSession
  split <;> infer_instance

/-- The mutex is owned by the thread that is in a critical section, and the main
thread never gets past the `lock` of its own `doCleanup`. -/
structure Locked (s : TcpServer) : Prop where
  main : s.mutex = some .main ↔ s.main.critical = true
  worker : ∀ w, s.mutex = some (.worker w) ↔ ∃ c, s.workers.lookup w = some (.cleanup c .cancel)
  stuck : ∀ now top pos, s.main = .cleanup now top pos →
    pos = .check ∨ pos = .epollDel ∨ pos = .lock

namespace Locked

variable {s s' : TcpServer}

theorem init : Locked TcpServer.init where
  main := by decide
  worker w := by
    constructor
    · intro h
      cases h
    · rintro ⟨c, hc⟩
      cases hc
  stuck now top pos h := by cases h

/-- A step of the main thread that leaves the mutex alone. -/
theorem goto (h : Locked s) (hmutex : s'.mutex = s.mutex) (hworkers : s'.workers = s.workers)
    (hcritical : s'.main.critical = s.main.critical)
    (hstuck : ∀ now top pos, s'.main = .cleanup now top pos →
      pos = .check ∨ pos = .epollDel ∨ pos = .lock) : Locked s' where
  main := by
    rw [hmutex, hcritical]
    exact h.main
  worker w := by
    rw [hmutex, hworkers]
    exact h.worker w
  stuck := hstuck

/-- The main thread takes the mutex. -/
theorem enter (h : Locked s) (hfree : s.mutex = none) (hmutex : s'.mutex = some .main)
    (hworkers : s'.workers = s.workers) (hcritical : s'.main.critical = true)
    (hstuck : ∀ now top pos, s'.main ≠ .cleanup now top pos) : Locked s' where
  main := by
    rw [hmutex, hcritical]
    exact iff_of_true rfl rfl
  worker w := by
    rw [hmutex, hworkers, ← h.worker w, hfree]
    exact iff_of_false nofun nofun
  stuck now top pos hpc := absurd hpc (hstuck now top pos)

/-- The main thread gives it back. -/
theorem leave (h : Locked s) (howner : s.main.critical = true) (hmutex : s'.mutex = none)
    (hworkers : s'.workers = s.workers) (hcritical : s'.main.critical = false)
    (hstuck : ∀ now top pos, s'.main ≠ .cleanup now top pos) : Locked s' where
  main := by
    rw [hmutex, hcritical]
    exact iff_of_false nofun nofun
  worker w := by
    rw [hmutex, hworkers, ← h.worker w, h.main.mpr howner]
    exact iff_of_false nofun nofun
  stuck now top pos hpc := absurd hpc (hstuck now top pos)

/-- A worker goes on without the mutex. -/
theorem moveWorker (h : Locked s) {w : ℕ} {pc pc' : Option WorkerPc}
    (hpc : s.workers.lookup w = pc) (hbefore : ∀ c, pc ≠ some (.cleanup c .cancel))
    (hafter : ∀ c, pc' ≠ some (.cleanup c .cancel)) : Locked (s.moveWorker w pc') where
  main := h.main
  worker w' := by
    show s.mutex = _ ↔ _
    rw [h.worker w', lookup_moveWorker]
    split_ifs with heq
    · subst heq
      constructor
      · rintro ⟨c, hc⟩
        exact absurd (hpc.symm.trans hc) (hbefore c)
      · rintro ⟨c, hc⟩
        exact absurd hc (hafter c)
    · exact Iff.rfl
  stuck := h.stuck

/-- `doCleanup` of a worker. -/
theorem workerCleanup (h : Locked s) {w : ℕ} {c : Conn} {beyond : Bool} {pos : Cleanup}
    {pos' : Option Cleanup} {behalf : Option Conn}
    (hpc : s.workers.lookup w = some (.cleanup c pos))
    (hclean : s.doCleanup (.worker w) behalf c.fd beyond pos = some (s', pos')) :
    Locked (s'.moveWorker w (pos'.map (.cleanup c))) := by
  cases pos with
  | check =>
      obtain ⟨rfl, rfl⟩ := Prod.mk.inj (Option.some.inj hclean)
      refine h.moveWorker hpc nofun fun d => ?_
      split_ifs <;> nofun
  | epollDel =>
      obtain ⟨rfl, rfl⟩ := Prod.mk.inj (Option.some.inj hclean)
      have h' : Locked (s.epollDel (.worker w) behalf c.fd) := ⟨h.main, h.worker, h.stuck⟩
      exact h'.moveWorker hpc nofun nofun
  | lock =>
      obtain ⟨hfree, rfl, rfl⟩ := of_doCleanup_lock hclean
      have hmain : ¬ s.main.critical = true := by
        rw [← h.main, hfree]
        nofun
      -- Nobody had the mutex, so this worker is the only one that is critical.
      refine ⟨iff_of_false ?_ hmain, fun w' => ?_, h.stuck⟩
      · nofun
      · rw [lookup_moveWorker]
        split_ifs with heq
        · subst heq
          exact iff_of_true rfl ⟨c, rfl⟩
        · show some (Thread.worker w) = _ ↔ _
          rw [← h.worker w', hfree]
          constructor
          · intro hne
            obtain rfl := Thread.worker.inj (Option.some.inj hne)
            exact absurd rfl heq
          · nofun
  | cancel =>
      obtain ⟨rfl, rfl⟩ := Prod.mk.inj (Option.some.inj hclean)
      -- This worker had the mutex, so nobody else was critical, and now nobody is.
      have howner : s.mutex = some (.worker w) := (h.worker w).mpr ⟨c, hpc⟩
      have hmain : ¬ s.main.critical = true := by
        rw [← h.main, howner]
        nofun
      refine ⟨iff_of_false ?_ hmain, fun w' => ?_, h.stuck⟩
      · nofun
      · rw [lookup_moveWorker]
        split_ifs with heq
        · subst heq
          refine iff_of_false ?_ ?_
          · nofun
          · rintro ⟨d, hd⟩
            cases hd
        · show none = _ ↔ _
          refine iff_of_false ?_ ?_
          · nofun
          · intro hother
            have hne := ((h.worker w').mpr hother).symm.trans howner
            exact heq (Thread.worker.inj (Option.some.inj hne))
  | remove =>
      obtain ⟨rfl, rfl⟩ := Prod.mk.inj (Option.some.inj hclean)
      have h' : Locked (s.removeSession (.worker w) behalf c.fd) := ⟨h.main, h.worker, h.stuck⟩
      exact h'.moveWorker hpc nofun nofun
  | close =>
      obtain ⟨rfl, rfl⟩ := Prod.mk.inj (Option.some.inj hclean)
      have h' : Locked (s.close (.worker w) behalf c.fd) := ⟨h.main, h.worker, h.stuck⟩
      exact h'.moveWorker hpc nofun nofun

/-- The main thread never gets the mutex for its `doCleanup`: it has it. -/
theorem mainCleanup (h : Locked s) {now : TimePoint} {top : TimerNode} {beyond : Bool}
    {pos : Cleanup} {pos' : Option Cleanup} {behalf : Option Conn}
    (hpc : s.main = .cleanup now top pos)
    (hclean : s.doCleanup .main behalf top.fd beyond pos = some (s', pos')) :
    (pos = .check ∧ s' = s ∧ pos' = if s.sessionManager.hasSession beyond top.fd then
        some .epollDel else none) ∨
      (pos = .epollDel ∧ s' = s.epollDel .main behalf top.fd ∧ pos' = some .lock) := by
  rcases h.stuck now top pos hpc with rfl | rfl | rfl
  · obtain ⟨rfl, rfl⟩ := Prod.mk.inj (Option.some.inj hclean)
    exact Or.inl ⟨rfl, rfl, rfl⟩
  · obtain ⟨rfl, rfl⟩ := Prod.mk.inj (Option.some.inj hclean)
    exact Or.inr ⟨rfl, rfl, rfl⟩
  · -- `handleTimeouts` holds the mutex while its callback runs.
    have howner : s.mutex = some .main := h.main.mpr (by rw [hpc]; rfl)
    cases howner.symm.trans (of_doCleanup_lock hclean).1

/-- Code that only leads on leaves the mutex alone. -/
theorem look (h : Locked s) {a : Action} {here there : MainPc} (hpc : s.main = here)
    (hlook : Look s a here there) : Locked { s with main := there } := by
  refine h.goto rfl rfl ?_ ?_
  · rw [hpc]
    cases hlook <;> rfl
  · intro now top pos hpc
    obtain rfl : there = .cleanup now top pos := hpc
    cases hlook
    exact Or.inl rfl

/-- **One step.** -/
theorem step (h : Locked s) {a : Action} (hstep : TcpServer.step s a = some s') : Locked s' := by
  cases step_spec hstep with
  | tick elapsed => exact ⟨h.main, h.worker, h.stuck⟩
  | look _ here there pc looks => exact h.look pc looks
  | epollWait passed events pc => exact h.goto rfl rfl (by rw [pc]; rfl) nofun
  | accept fd rest pc => exact h.goto rfl rfl (by rw [pc]; rfl) nofun
  | create beyond c rest pc => exact h.goto rfl rfl (by rw [pc]; rfl) nofun
  | epollAdd beyond c rest pc => exact h.goto rfl rfl (by rw [pc]; rfl) nofun
  | readClock beyond c site rest pc => exact h.goto rfl rfl (by rw [pc]; rfl) nofun
  | enqueue beyond c rest pc => exact h.goto rfl rfl (by rw [pc]; rfl) nofun
  | passFire top now pc => exact h.goto rfl rfl (by rw [pc]; rfl) nofun
  | finish beyond now top pc => exact h.goto rfl rfl (by rw [pc]; rfl) nofun
  | passStale top now pc => exact ⟨h.main, h.worker, h.stuck⟩
  | lock beyond c expire site rest pc unlocked => exact h.enter unlocked rfl rfl rfl nofun
  | passLock beyond now pc unlocked => exact h.enter unlocked rfl rfl rfl nofun
  | arm beyond c expire site rest pc =>
      have howner : s.main.critical = true := by rw [pc]; rfl
      cases site <;> exact h.leave howner rfl rfl rfl nofun
  | passEnd top now pc =>
      have howner : s.main.critical = true := by rw [pc]; rfl
      exact h.leave howner rfl rfl rfl nofun
  | mainCleanup beyond now top pos t pos' pc cleans =>
      rcases h.mainCleanup pc cleans with ⟨rfl, rfl, rfl⟩ | ⟨rfl, rfl, rfl⟩
      · refine h.goto rfl rfl ?_ ?_
        · rw [pc]
          split_ifs <;> rfl
        · intro now' top' pos hpc
          split_ifs at hpc
          · obtain ⟨-, -, rfl⟩ := MainPc.cleanup.inj hpc
            exact Or.inr (Or.inl rfl)
          · cases hpc
      · refine h.goto rfl rfl (by rw [pc]; rfl) ?_
        intro now' top' pos hpc
        obtain ⟨-, -, rfl⟩ := MainPc.cleanup.inj hpc
        exact Or.inr (Or.inr rfl)
  | take w c tasks queue idle =>
      have h' : Locked { s with tasks := tasks } := ⟨h.main, h.worker, h.stuck⟩
      exact h'.moveWorker idle nofun nofun
  | recvMore => exact h
  | recvAgain w c pc => exact h.moveWorker pc nofun nofun
  | recvEnd w result c pc => exact h.moveWorker pc nofun nofun
  | businessNone w beyond c pc => exact h.moveWorker pc nofun nofun
  | business w beyond c d pc => exact h.moveWorker pc nofun nofun
  | remove w beyond c pc =>
      have h' : Locked (s.removeSession (.worker w) (some c) c.fd) :=
        ⟨h.main, h.worker, h.stuck⟩
      exact h'.moveWorker pc nofun nofun
  | close w beyond c pc =>
      have h' : Locked (s.close (.worker w) (some c) c.fd) := ⟨h.main, h.worker, h.stuck⟩
      exact h'.moveWorker pc nofun nofun
  | rearm w beyond c pc =>
      have h' : Locked (s.epollMod c.fd) := ⟨h.main, h.worker, h.stuck⟩
      exact h'.moveWorker pc nofun nofun
  | workerCleanup w beyond c pos t pos' pc cleans => exact h.workerCleanup pc cleans

theorem reachable {acts : List Action} (hrun : runs TcpServer.step TcpServer.init acts = some s) :
    Locked s :=
  runs_induction (fun _ _ _ h hstep => h.step hstep) acts Locked.init hrun

/-- The one thread that can lock itself is the main thread in its `doCleanup`. -/
theorem noSelfLock (h : Locked s) (hnot : ∀ now top, s.main ≠ .cleanup now top .lock) :
    s.NoSelfLock := by
  intro t hlocking howner
  cases t with
  | main =>
      have hcritical := h.main.mp howner
      simp only [locking] at hlocking
      split at hlocking
      case h_1 pc =>
          rw [pc] at hcritical
          cases hcritical
      case h_2 pc =>
          rw [pc] at hcritical
          cases hcritical
      case h_3 now top pc => exact hnot now top pc
      case h_4 => cases hlocking
  | worker w =>
      obtain ⟨c, hc⟩ := (h.worker w).mp howner
      simp only [locking, hc] at hlocking
      cases hlocking

end Locked

/-! ## The timer pass -/

/-- A pass whose callbacks find a session never enters `doCleanup`. -/
theorem main_ne_cleanup {s : TcpServer} {acts : List Action}
    (hfinds : Along step CallbackFindsSession init acts)
    (hrun : runs step init acts = some s) : ∀ now top pos, s.main ≠ .cleanup now top pos := by
  refine runs_induction_along (I := fun s => ∀ now top pos, s.main ≠ .cleanup now top pos)
    ?_ acts ?_ hfinds hrun
  · intro s a s' h hfinds hstep now top pos hpc
    cases step_spec hstep with
    | look _ here there pc looks =>
        obtain rfl : there = .cleanup now top pos := hpc
        cases looks with
        | callbackClean beyond _ _ found =>
            simp only [CallbackFindsSession, pc] at hfinds
            rw [found] at hfinds
            cases hfinds
    | mainCleanup beyond now' top' pos' t pos'' pc cleans => exact h now' top' pos' pc
    | arm beyond c expire site rest pc => cases site <;> cases hpc
    | workerCleanup w beyond c pos' t pos'' pc cleans =>
        cases pos' with
        | lock =>
            obtain ⟨-, rfl, rfl⟩ := of_doCleanup_lock cleans
            exact h now top pos hpc
        | _ =>
            obtain ⟨rfl, rfl⟩ := Prod.mk.inj (Option.some.inj cleans)
            exact h now top pos hpc
    | epollWait | accept | create | epollAdd | readClock | lock | enqueue | passLock | passEnd
    | passFire | finish => cases hpc
    | tick | passStale | take | recvMore | recvAgain | recvEnd | businessNone | business | remove
    | close | rearm => exact h now top pos hpc
  · intro now top pos hpc
    cases hpc

/-- **The timer pass does not block on itself as long as its callbacks find
sessions**: then no thread is ever about to take the mutex while it owns it. -/
theorem no_self_lock (acts : List Action) (s : TcpServer)
    (hfinds : Along step CallbackFindsSession init acts) (hrun : runs step init acts = some s) :
    s.NoSelfLock :=
  (Locked.reachable hrun).noSelfLock fun now top => main_ne_cleanup hfinds hrun now top .lock

/-- **A callback that finds no session blocks the main thread forever**: whatever
else happens, three steps on it waits for the mutex that it owns. -/
theorem self_lock_of_no_session {s : TcpServer} (h : Locked s) {now : TimePoint} {top : TimerNode}
    (hpc : s.main = .callback now top)
    (hempty : s.sessionManager.hasSession true top.fd = true) :
    ∃ t, runs step s [.main true, .main true, .main true] = some t ∧ ¬ t.NoSelfLock ∧
      ∀ beyond, step t (.main beyond) = none := by
  have howner : s.mutex = some .main := h.main.mpr (by rw [hpc]; rfl)
  have hbusy : s.mutex ≠ none := by
    rw [howner]
    nofun
  refine ⟨{ s.epollDel .main (s.trace.armedFor top.fd) top.fd with main := .cleanup now top .lock },
    ?_, ?_, ?_⟩
  · simp only [runs, step, mainStep, hpc, hempty, doCleanup, afterCleanup, if_true,
      Option.bind_some, Option.map_some]
    rfl
  · intro hno
    exact hno .main rfl howner
  · intro beyond
    show Option.map _ (if s.mutex = none then _ else none) = none
    rw [if_neg hbusy]
    rfl

/-! ## A run -/

/-- Some steps of the main thread. -/
def mains (n : ℕ) : List Action :=
  List.replicate n (.main false)

/-- The main thread accepts a connection with descriptor 5, and its pass closes
nothing. -/
def acceptFive : List Action :=
  [.epollWait [.listen], .main false, .accept (some 5)] ++ mains 5 ++ [.accept none] ++ mains 2 ++
    [.top (some ⟨5, seconds 60⟩)]

/-- It has an event, and a worker takes the task. -/
def eventFive : List Action :=
  acceptFive ++ [.epollWait [.ready ⟨0, 5⟩]] ++ mains 5 ++ [.take 0, .worker 0 false]

/-- After 60 seconds the main thread comes to the callback for it. -/
def expireFive : List Action :=
  [.tick (seconds 60)] ++ mains 2 ++ [.top (some ⟨5, seconds 60⟩)]

/-- The peer has closed the connection.  The worker empties the slot and stops there;
when it is idle for 60 seconds, the callback finds no session. -/
theorem self_lock_of_removed :
    ∃ acts s, runs step init acts = some s ∧ ¬ s.NoSelfLock := by
  refine ⟨eventFive ++ [.recv 0 .closed, .worker 0 false] ++ expireFive ++ mains 3, ?_⟩
  refine ⟨_, runs_eq_runsTo step (by decide), ?_⟩
  intro hno
  exact hno .main (by decide) (by decide)

theorem no_self_lock_sample :
    ∃ s, runs step init (eventFive ++ [.recv 0 .data] ++ expireFive ++ mains 2) = some s ∧
      s.NoSelfLock := by
  refine ⟨_, runs_eq_runsTo step (by decide), ?_⟩
  exact no_self_lock _ _ (by decide) (runs_eq_runsTo step (by decide))

end TcpServer

end ExchangeServer
