import ExchangeServer.TcpServer.Reaping

/-!
# Indices into the session array

`sessions_` has `MAX_FD` slots and descriptors are not bounded by it.  Three of the
accessors of `SessionManager` compare the descriptor with `MAX_FD` before they index;
`hasSession` does not.

`indices` are the indices that a step makes.  All descriptors the server handles come
from `accept`, through epoll, the queue of the pool and the timer heap, which is the
invariant `Handles`.
-/

namespace ExchangeServer

open Lib

namespace SessionManager

/-! ## What the accessors index -/

/-- One index behind `if (fd < MAX_FD)`. -/
def guarded (fd : Fd) : List Fd :=
  if fd < maxFd then [fd] else []

/-- The indices `createSession` makes. -/
def createIndices (fd : Fd) : List Fd :=
  guarded fd

/-- The indices `getSession` makes. -/
def getIndices (fd : Fd) : List Fd :=
  if maxFd ≤ fd then [] else [fd]

/-- The indices `removeSession` makes. -/
def removeIndices (fd : Fd) : List Fd :=
  guarded fd

/-- The indices `hasSession` makes. -/
def hasIndices (fd : Fd) : List Fd :=
  [fd]

theorem mem_guarded {fd i : Fd} : i ∈ guarded fd ↔ i = fd ∧ fd < maxFd := by
  unfold guarded
  split_ifs with hfd
  · exact List.mem_singleton.trans (and_iff_left hfd).symm
  · exact ⟨nofun, fun h => absurd h.2 hfd⟩

/-- The early return of `getSession` is the guard of the others. -/
theorem getIndices_eq_guarded (fd : Fd) : getIndices fd = guarded fd := by
  unfold getIndices guarded
  split_ifs with hover hfd hfd
  · exact absurd hover (Int32.not_le.mpr hfd)
  · rfl
  · rfl
  · exact absurd (Int32.not_le.mp hover) hfd

theorem createSession_frame (m : SessionManager) (c : Conn) {i : Fd}
    (hi : i ∉ createIndices c.fd) : (m.createSession c).sessions i = m.sessions i := by
  unfold createSession
  split_ifs with hfd
  · apply Function.update_of_ne
    rintro rfl
    exact hi (mem_guarded.mpr ⟨rfl, hfd⟩)
  · rfl

theorem removeSession_frame (m : SessionManager) {fd i : Fd} (hi : i ∉ removeIndices fd) :
    (m.removeSession fd).sessions i = m.sessions i := by
  unfold removeSession
  split_ifs with hfd
  · apply Function.update_of_ne
    rintro rfl
    exact hi (mem_guarded.mpr ⟨rfl, hfd⟩)
  · rfl

/-- What `hasSession` answers depends on memory behind the array only if its index is
past the end. -/
theorem hasSession_eq (m : SessionManager) (beyond beyond' : Bool) {fd : Fd}
    (h : ∀ i ∈ hasIndices fd, i < maxFd) : m.hasSession beyond fd = m.hasSession beyond' fd := by
  have hfd : fd < maxFd := h fd (List.mem_singleton_self fd)
  rw [hasSession, hasSession, if_pos hfd, if_pos hfd]

end SessionManager

namespace TcpServer

/-- The indices `doCleanup(fd)` makes in one step. -/
def cleanupIndices (fd : Fd) : Cleanup → List Fd
  | .check => SessionManager.hasIndices fd
  | .remove => SessionManager.removeIndices fd
  | .epollDel | .lock | .cancel | .close => []

/-- The indices into `sessions_` that a step makes. -/
def indices (s : TcpServer) : Action → List Fd
  | .main _ =>
      match s.main with
      | .create c _ => SessionManager.createIndices c.fd
      | .callback _ top => SessionManager.hasIndices top.fd
      | .cleanup _ top pos => cleanupIndices top.fd pos
      | _ => []
  | .worker w _ =>
      match s.workers.lookup w with
      | some (.business c) => SessionManager.getIndices c.fd
      | some (.remove c) => SessionManager.removeIndices c.fd
      | some (.cleanup c pos) => cleanupIndices c.fd pos
      | _ => []
  | .tick _ | .epollWait _ | .accept _ | .top _ | .take _ | .recv _ _ => []

/-- **A step writes only slots that it indexes.** -/
theorem sessions_frame {s s' : TcpServer} {a : Action} (hstep : step s a = some s') {i : Fd}
    (hi : i ∉ s.indices a) : s'.sessionManager.sessions i = s.sessionManager.sessions i := by
  have hcleanup : ∀ {thread : Thread} {behalf : Option Conn} {fd : Fd} {beyond : Bool}
      {pos : Cleanup} {t : TcpServer} {pos' : Option Cleanup}, i ∉ cleanupIndices fd pos →
      s.doCleanup thread behalf fd beyond pos = some (t, pos') →
      t.sessionManager.sessions i = s.sessionManager.sessions i := by
    intro thread behalf fd beyond pos t pos' hi hclean
    cases pos with
    | lock =>
        obtain ⟨-, rfl, -⟩ := of_doCleanup_lock hclean
        rfl
    | remove =>
        obtain ⟨rfl, -⟩ := Prod.mk.inj (Option.some.inj hclean)
        exact s.sessionManager.removeSession_frame hi
    | _ =>
        obtain ⟨rfl, -⟩ := Prod.mk.inj (Option.some.inj hclean)
        rfl
  cases step_spec hstep with
  | create beyond c rest pc =>
      simp only [indices, pc] at hi
      exact s.sessionManager.createSession_frame c hi
  | mainCleanup beyond now top pos t pos' pc cleans =>
      simp only [indices, pc] at hi
      have hkeep := hcleanup hi cleans
      exact hkeep
  | remove w beyond c pc =>
      simp only [indices, pc] at hi
      exact s.sessionManager.removeSession_frame hi
  | workerCleanup w beyond c pos t pos' pc cleans =>
      simp only [indices, pc] at hi
      have hkeep := hcleanup hi cleans
      exact hkeep
  | _ => rfl

/-! ## The descriptors the server handles -/

/-- The descriptors that the main thread has in hand. -/
def MainPc.fds : MainPc → List Fd
  | .wait _ | .passLock _ | .pass _ => []
  | .events rest | .accept rest => (readies rest).map Conn.fd
  | .create c rest | .epollAdd c rest | .readClock c _ rest | .lock c _ _ rest
  | .arm c _ _ rest | .enqueue c rest => c.fd :: (readies rest).map Conn.fd
  | .callback _ top | .cleanup _ top _ | .finish _ top => [top.fd]

/-- Every descriptor that the server handles has `P`. -/
structure Handles (P : Fd → Prop) (s : TcpServer) : Prop where
  opened : ∀ fd c, s.opened fd = some c → P c.fd
  main : ∀ fd ∈ s.main.fds, P fd
  timers : ∀ n ∈ s.timerMgr.minHeap, P n.fd
  tasks : ∀ c ∈ s.tasks, P c.fd
  workers : ∀ w pc, s.workers.lookup w = some pc → P pc.conn.fd

namespace Handles

variable {P : Fd → Prop} {s s' : TcpServer}

theorem init : Handles P TcpServer.init where
  opened := nofun
  main := nofun
  timers := nofun
  tasks := nofun
  workers := nofun

/-- The main thread goes on with descriptors it has in hand. -/
theorem goto (h : Handles P s) (hmain : ∀ fd ∈ s'.main.fds, P fd)
    (hopened : s'.opened = s.opened) (htimers : s'.timerMgr.minHeap = s.timerMgr.minHeap)
    (htasks : s'.tasks = s.tasks) (hworkers : s'.workers = s.workers) : Handles P s' where
  opened := hopened ▸ h.opened
  main := hmain
  timers := htimers ▸ h.timers
  tasks := htasks ▸ h.tasks
  workers := hworkers ▸ h.workers

theorem moveWorker (h : Handles P s) {w : ℕ} {pc : Option WorkerPc}
    (hpc : ∀ pc' ∈ pc, P pc'.conn.fd) : Handles P (s.moveWorker w pc) where
  opened := h.opened
  main := h.main
  timers := h.timers
  tasks := h.tasks
  workers w' pc' hpc' := by
    rw [lookup_moveWorker] at hpc'
    split_ifs at hpc' with hw
    · exact hpc pc' hpc'
    · exact h.workers w' pc' hpc'

/-- A worker goes on with the connection of its task. -/
theorem goOn (h : Handles P s) {w : ℕ} {pc pc' : WorkerPc} (hpc : s.workers.lookup w = some pc)
    (hconn : pc'.conn = pc.conn) : Handles P (s.moveWorker w (some pc')) :=
  h.moveWorker fun _ hmem => Option.some.inj hmem ▸ hconn ▸ h.workers w pc hpc

/-- `doCleanup` brings in no descriptor. -/
theorem doCleanup (h : Handles P s) {thread : Thread} {behalf : Option Conn} {fd : Fd}
    {beyond : Bool} {pos : Cleanup} {pos' : Option Cleanup}
    (hclean : s.doCleanup thread behalf fd beyond pos = some (s', pos')) : Handles P s' := by
  cases pos with
  | lock =>
      obtain ⟨-, rfl, -⟩ := of_doCleanup_lock hclean
      exact ⟨h.opened, h.main, h.timers, h.tasks, h.workers⟩
  | close =>
      obtain ⟨rfl, -⟩ := Prod.mk.inj (Option.some.inj hclean)
      refine ⟨fun fd' c hc => ?_, h.main, h.timers, h.tasks, h.workers⟩
      have hupdate : Function.update s.opened fd none fd' = some c := hc
      by_cases hfd : fd' = fd
      · rw [hfd, Function.update_self] at hupdate
        cases hupdate
      · rw [Function.update_of_ne hfd] at hupdate
        exact h.opened fd' c hupdate
  | _ =>
      obtain ⟨rfl, -⟩ := Prod.mk.inj (Option.some.inj hclean)
      exact ⟨h.opened, h.main, h.timers, h.tasks, h.workers⟩

/-- Code that only leads on keeps to the descriptors in hand. -/
theorem fds_of_look {a : Action} {here there : MainPc} (hlook : Look s a here there) :
    ∀ fd ∈ there.fds, fd ∈ here.fds := by
  cases hlook with
  | endEvents => exact nofun
  | _ => exact fun fd hfd => hfd

/-- **One step** brings in no descriptor but the one that `accept` returns. -/
theorem step (h : Handles P s) {a : Action}
    (haccept : ∀ fd, a = .accept (some fd) → 0 ≤ fd → P fd)
    (hstep : TcpServer.step s a = some s') : Handles P s' := by
  -- The main thread goes on with what it has in hand at `pc`.
  have hmain : ∀ {pc : MainPc}, s.main = pc → ∀ fd ∈ pc.fds, P fd := by
    rintro _ rfl
    exact h.main
  have hlist : ∀ {c : Conn} {rest : List Event}, (∀ fd ∈ c.fd :: (readies rest).map Conn.fd, P fd) →
      ∀ fd ∈ (readies rest).map Conn.fd, P fd := fun hall fd hfd =>
    hall fd (List.mem_cons_of_mem _ hfd)
  cases step_spec hstep with
  | tick elapsed => exact ⟨h.opened, h.main, h.timers, h.tasks, h.workers⟩
  | epollWait passed events pc reported =>
      refine h.goto ?_ rfl rfl rfl rfl
      intro fd hfd
      obtain ⟨c, hc, rfl⟩ := List.mem_map.mp hfd
      exact h.opened c.fd c (reported.2.2 c hc).1
  | look _ here there pc looks =>
      exact h.goto (fun fd hfd => hmain pc fd (fds_of_look looks fd hfd)) rfl rfl rfl rfl
  | accept fd rest pc valid free =>
      have hfd : P fd := haccept fd rfl valid
      refine ⟨fun fd' c hc => ?_, ?_, h.timers, h.tasks, h.workers⟩
      · have hupdate : Function.update s.opened fd (some _) fd' = some c := hc
        by_cases heq : fd' = fd
        · rw [heq, Function.update_self] at hupdate
          exact Option.some.inj hupdate ▸ hfd
        · rw [Function.update_of_ne heq] at hupdate
          exact h.opened fd' c hupdate
      · exact List.forall_mem_cons.mpr ⟨hfd, hmain pc⟩
  | create beyond c rest pc =>
      have hheld := hmain pc
      exact h.goto hheld rfl rfl rfl rfl
  | epollAdd beyond c rest pc =>
      have hheld := hmain pc
      exact h.goto hheld rfl rfl rfl rfl
  | readClock beyond c site rest pc =>
      have hheld := hmain pc
      exact h.goto hheld rfl rfl rfl rfl
  | lock beyond c expire site rest pc unlocked =>
      have hheld := hmain pc
      exact h.goto hheld rfl rfl rfl rfl
  | arm beyond c expire site rest pc =>
      have hheld := hmain pc
      refine ⟨h.opened, ?_, ?_, h.tasks, h.workers⟩
      · cases site with
        | acceptConnection => exact hlist hheld
        | start => exact hheld
      · intro n hn
        rcases PriorityQueue.mem_push.mp hn with rfl | hn
        · exact hheld c.fd List.mem_cons_self
        · exact h.timers n hn
  | enqueue beyond c rest pc =>
      refine ⟨h.opened, hlist (hmain pc), h.timers, fun d hd => ?_, h.workers⟩
      rcases List.mem_append.mp hd with hd | hd
      · exact h.tasks d hd
      · exact List.mem_singleton.mp hd ▸ hmain pc c.fd List.mem_cons_self
  | passLock beyond now pc unlocked => exact h.goto nofun rfl rfl rfl rfl
  | passEnd top now pc late => exact h.goto nofun rfl rfl rfl rfl
  | passStale top now pc isTop stale =>
      exact ⟨h.opened, h.main, fun n hn => h.timers n (PriorityQueue.mem_of_mem_pop hn),
        h.tasks, h.workers⟩
  | passFire top now pc isTop due valid =>
      refine h.goto ?_ rfl rfl rfl rfl
      exact List.forall_mem_singleton.mpr (h.timers top isTop.1)
  | mainCleanup beyond now top pos t pos' pc cleans =>
      have hheld := hmain pc
      refine (h.doCleanup cleans).goto ?_ rfl rfl rfl rfl
      cases pos' with
      | none => exact hheld
      | some pos' => exact hheld
  | finish beyond now top pc =>
      exact ⟨h.opened, nofun, fun n hn => h.timers n (PriorityQueue.mem_of_mem_pop hn),
        h.tasks, h.workers⟩
  | take w c tasks queue idle =>
      have htasks : ∀ d ∈ c :: tasks, P d.fd := queue ▸ h.tasks
      have h' : Handles P { s with tasks := tasks } :=
        ⟨h.opened, h.main, h.timers, (List.forall_mem_cons.mp htasks).2, h.workers⟩
      exact h'.moveWorker fun pc' hpc' => Option.some.inj hpc' ▸ htasks c List.mem_cons_self
  | recvMore w result c pc => exact h
  | recvAgain w c pc => exact h.goOn pc rfl
  | recvEnd w result c pc ended => exact h.goOn pc rfl
  | businessNone w beyond c pc session => exact h.goOn pc rfl
  | business w beyond c d pc session => exact h.goOn pc rfl
  | remove w beyond c pc =>
      have hclean : s.doCleanup (.worker w) (some c) c.fd beyond .remove = some (_, _) := rfl
      exact (h.doCleanup hclean).goOn pc rfl
  | close w beyond c pc =>
      have hclean : s.doCleanup (.worker w) (some c) c.fd beyond .close = some (_, _) := rfl
      exact (h.doCleanup hclean).goOn pc rfl
  | rearm w beyond c pc =>
      have h' : Handles P (s.epollMod c.fd) :=
        ⟨h.opened, h.main, h.timers, h.tasks, h.workers⟩
      exact h'.moveWorker nofun
  | workerCleanup w beyond c pos t pos' pc cleans =>
      refine (h.doCleanup cleans).moveWorker fun pc' hpc' => ?_
      obtain ⟨_, -, rfl⟩ := Option.map_eq_some_iff.mp hpc'
      have hconn : P c.fd := h.workers w _ pc
      exact hconn

theorem of_runs {acts : List Action}
    (haccepts : Along TcpServer.step
      (fun _ a => ∀ fd, a = .accept (some fd) → 0 ≤ fd → P fd) TcpServer.init acts)
    (hrun : runs TcpServer.step TcpServer.init acts = some s) : Handles P s :=
  runs_induction_along (fun _ _ _ h haccept hstep => h.step haccept hstep) acts init haccepts hrun

end Handles

/-- Only `hasSession` indexes without a guard. -/
theorem mem_cleanupIndices {fd i : Fd} {pos : Cleanup} (h : i ∈ cleanupIndices fd pos) :
    i = fd ∧ (pos = .check ∨ fd < SessionManager.maxFd) := by
  cases pos with
  | check => exact ⟨List.mem_singleton.mp h, .inl rfl⟩
  | remove =>
      obtain ⟨hi, hfd⟩ := SessionManager.mem_guarded.mp h
      exact ⟨hi, .inr hfd⟩
  | _ => cases h

/-- All indices are descriptors that the server handles. -/
theorem Handles.of_mem_indices {P : Fd → Prop} {s : TcpServer} (h : Handles P s) {a : Action}
    {i : Fd} (hi : i ∈ s.indices a) : P i := by
  have hmain : ∀ {pc : MainPc}, s.main = pc → ∀ fd ∈ pc.fds, P fd := by
    rintro _ rfl
    exact h.main
  cases a with
  | main beyond =>
      simp only [indices] at hi
      split at hi
      case h_1 c rest pc =>
          rw [(SessionManager.mem_guarded.mp hi).1]
          exact hmain pc c.fd List.mem_cons_self
      case h_2 now top pc =>
          rw [List.mem_singleton.mp hi]
          exact hmain pc top.fd List.mem_cons_self
      case h_3 now top pos pc =>
          rw [(mem_cleanupIndices hi).1]
          exact hmain pc top.fd List.mem_cons_self
      case h_4 => cases hi
  | worker w beyond =>
      simp only [indices] at hi
      split at hi
      case h_1 c pc =>
          rw [SessionManager.getIndices_eq_guarded] at hi
          rw [(SessionManager.mem_guarded.mp hi).1]
          exact h.workers w _ pc
      case h_2 c pc =>
          rw [(SessionManager.mem_guarded.mp hi).1]
          exact h.workers w _ pc
      case h_3 c pos pc =>
          rw [(mem_cleanupIndices hi).1]
          exact h.workers w _ pc
      case h_4 => cases hi
  | _ => cases hi

/-- **Below `MAX_FD` the memory behind the array does not matter.** -/
theorem step_beyond {s : TcpServer} {w : ℕ} (beyond beyond' : Bool) :
    ((∀ i ∈ s.indices (.main beyond), i < SessionManager.maxFd) →
      s.step (.main beyond) = s.step (.main beyond')) ∧
    ((∀ i ∈ s.indices (.worker w beyond), i < SessionManager.maxFd) →
      s.step (.worker w beyond) = s.step (.worker w beyond')) := by
  have hcleanup : ∀ {thread : Thread} {behalf : Option Conn} {fd : Fd} {pos : Cleanup},
      (∀ i ∈ cleanupIndices fd pos, i < SessionManager.maxFd) →
      s.doCleanup thread behalf fd beyond pos = s.doCleanup thread behalf fd beyond' pos := by
    intro thread behalf fd pos hbounds
    cases pos with
    | check => rw [doCleanup, doCleanup, s.sessionManager.hasSession_eq beyond beyond' hbounds]
    | _ => rfl
  constructor
  · intro hbounds
    show s.mainStep beyond = s.mainStep beyond'
    cases hmain : s.main with
    | callback now top =>
        simp only [indices, hmain] at hbounds
        simp only [mainStep, hmain, s.sessionManager.hasSession_eq beyond beyond' hbounds]
    | cleanup now top pos =>
        simp only [indices, hmain] at hbounds
        simp only [mainStep, hmain, hcleanup hbounds]
    | events rest => rcases rest with _ | ⟨_ | _, _⟩ <;> simp only [mainStep, hmain]
    | _ => simp only [mainStep, hmain]
  · intro hbounds
    show s.workerStep w beyond = s.workerStep w beyond'
    cases hworker : s.workers.lookup w with
    | none => simp only [workerStep, hworker]
    | some pc =>
        cases pc with
        | cleanup c pos =>
            simp only [indices, hworker] at hbounds
            simp only [workerStep, hworker, hcleanup hbounds]
        | _ => simp only [workerStep, hworker]

/-! ## Runs that leave the array -/

/-- A connection with descriptor `fd` is accepted and idle for 60 seconds. -/
def expires (fd : Fd) : List Action :=
  [.epollWait [.listen], .main false, .accept (some fd)] ++ mains 5 ++
    [.accept none, .tick (seconds 60)] ++ mains 2 ++ [.top (some ⟨fd, seconds 60⟩)]

theorem callback_of_expires {fd : Fd} (h : 0 ≤ fd) :
    ∃ s, runs step init (expires fd) = some s ∧
      s.main = .callback (seconds 60) ⟨fd, seconds 60⟩ := by
  have hentry : (AList.singleton fd 60000000000 : UnorderedMap Fd TimePoint).lookup fd
      = some 60000000000 := AList.lookup_insert ∅
  simp [expires, mains, List.replicate, runs, step, mainStep, init, Reportable, readies, h,
    epollAdd, afterArm, timeoutSec, seconds, turn, TimerManager.new, TimerManager.arm,
    TimerManager.IsTop, TimerManager.entry, PriorityQueue.push, PriorityQueue.IsTop, hentry]

/-- **Every access to the session array is in bounds as long as `accept` returns
descriptors below `MAX_FD`**, whatever the threads do and in whatever order. -/
theorem session_accesses_in_bounds {acts : List Action} {s : TcpServer}
    (hbelow : Along step AcceptsBelowMax init acts) (hrun : runs step init acts = some s)
    (a : Action) : ∀ i ∈ s.indices a, 0 ≤ i ∧ i < SessionManager.maxFd := by
  intro i hi
  have hhandles : Handles (fun fd => 0 ≤ fd ∧ fd < SessionManager.maxFd) s := by
    refine Handles.of_runs (hbelow.mono ?_) hrun
    rintro s _ hfd fd rfl hnonneg
    exact ⟨hnonneg, hfd⟩
  exact hhandles.of_mem_indices hi

/-- The connection with descriptor 5 has an event after the peer has closed it: its
slot is read by the business callback. -/
theorem session_accesses_in_bounds_sample :
    ∃ s, runs step init (acceptFive ++ [.epollWait [.ready ⟨0, 5⟩]] ++ mains 5 ++ [.take 0])
        = some s ∧ s.indices (.worker 0 false) = [5] ∧
      ∀ i ∈ s.indices (.worker 0 false), 0 ≤ i ∧ i < SessionManager.maxFd := by
  refine ⟨_, runs_eq_runsTo step (by decide), by decide, ?_⟩
  exact session_accesses_in_bounds (by decide) (runs_eq_runsTo step (by decide)) _

/-- No descriptor can be added to the bound: from `MAX_FD` on, each can lead to an access
that is not in the array. -/
theorem exists_access_of_maxFd_le {fd : Fd} (hfd : SessionManager.maxFd ≤ fd) :
    ∃ acts s a, runs step init acts = some s ∧ fd ∈ s.indices a := by
  obtain ⟨s, hrun, hmain⟩ := callback_of_expires (Int32.le_trans (by decide) hfd)
  refine ⟨expires fd, s, .main false, hrun, ?_⟩
  simp only [indices, hmain]
  exact List.mem_singleton_self fd

/-- Descriptor 65535 is accepted and idle for 60 seconds.  The callback of the timer
pass asks `hasSession` about it. -/
theorem session_access_out_of_bounds :
    ∃ acts s a i, runs step init acts = some s ∧ i ∈ s.indices a ∧
      ¬ i < SessionManager.maxFd := by
  obtain ⟨acts, s, a, hrun, hi⟩ := exists_access_of_maxFd_le (Int32.le_refl 65535)
  exact ⟨acts, s, a, 65535, hrun, hi, by decide⟩

end TcpServer

end ExchangeServer
