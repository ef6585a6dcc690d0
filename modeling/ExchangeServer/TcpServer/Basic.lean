import ExchangeServer.TimerManager

/-!
# The event loop and its workers

`TcpServer.cpp` with `SessionManager.hpp` and the closing branches of
`MyEchoBusiness`, one step for each access to something that two threads share: the
descriptors of the kernel, its epoll instance, `sessions_`, the timer manager and its
mutex, the queue of the thread pool.

The kernel gives the number of a closed descriptor to a later connection, so
what a thread does to a descriptor may hit another connection than the one it is done
for.  `Conn` tells connections apart.  It, and `Trace`, are no part of the
program.

`TcpServer.step` is the server, in any interleaving; `step_spec` lists what one step
can do.
-/

namespace ExchangeServer

open Lib

/-- A connection: the how manieth it is, and its descriptor. -/
structure Conn where
  number : ℕ
  fd : Fd
deriving DecidableEq, Repr

/-! ## Sessions -/

/-- `SessionManager`: for every slot of `sessions_`, the connection whose `Session` it
points to. -/
structure SessionManager where
  sessions : Fd → Option Conn

namespace SessionManager

/-- `MAX_FD`. -/
def maxFd : Fd := 65535

/-- `createSession`. -/
def createSession (m : SessionManager) (c : Conn) : SessionManager :=
  if c.fd < maxFd then ⟨Function.update m.sessions c.fd (some c)⟩ else m

/-- `getSession`. -/
def getSession (m : SessionManager) (fd : Fd) : Option Conn :=
  if maxFd ≤ fd then none else m.sessions fd

/-- `removeSession`. -/
def removeSession (m : SessionManager) (fd : Fd) : SessionManager :=
  if fd < maxFd then ⟨Function.update m.sessions fd none⟩ else m

/-- `hasSession`, which answers whether the slot is *empty*.  It does not check the
descriptor: `beyond` is the answer when the read is past the array. -/
def hasSession (m : SessionManager) (beyond : Bool) (fd : Fd) : Bool :=
  if fd < maxFd then (m.sessions fd).isNone else beyond

end SessionManager

/-! ## Threads -/

namespace TcpServer

/-- The main thread, and those of the pool. -/
inductive Thread where
  | main
  | worker (w : ℕ)
deriving DecidableEq, Repr

/-- An element of `events_`. -/
inductive Event where
  /-- `listenFd_` is ready. -/
  | listen
  | ready (c : Conn)
deriving DecidableEq, Repr

/-- Where `addTimer` is called from. -/
inductive Site where
  | acceptConnection
  | start
deriving DecidableEq, Repr

/-- What a thread does next in `doCleanup`; `remove` and `close` are
`cleanConnection`. -/
inductive Cleanup where
  | check
  | epollDel
  | lock
  | cancel
  | remove
  | close
deriving DecidableEq, Repr

/-- What the main thread does next.  `rest` are the events it has not looked at. -/
inductive MainPc where
  /-- `epoll_wait`, after a pass at the time `passed`. -/
  | wait (passed : Option TimePoint)
  | events (rest : List Event)
  | accept (rest : List Event)
  | create (c : Conn) (rest : List Event)
  | epollAdd (c : Conn) (rest : List Event)
  /-- `addTimer`. -/
  | readClock (c : Conn) (site : Site) (rest : List Event)
  | lock (c : Conn) (expire : TimePoint) (site : Site) (rest : List Event)
  | arm (c : Conn) (expire : TimePoint) (site : Site) (rest : List Event)
  | enqueue (c : Conn) (rest : List Event)
  /-- `handleTimeouts`, after its reading of the clock. -/
  | passLock (now : TimePoint)
  | pass (now : TimePoint)
  | callback (now : TimePoint) (top : TimerNode)
  | cleanup (now : TimePoint) (top : TimerNode) (pos : Cleanup)
  | finish (now : TimePoint) (top : TimerNode)
deriving DecidableEq, Repr

/-- What a worker does next for its task. -/
inductive WorkerPc where
  /-- `MyEchoBusiness`. -/
  | business (c : Conn)
  | recv (c : Conn)
  /-- `cleanConnection`, which is two steps. -/
  | remove (c : Conn)
  | close (c : Conn)
  /-- The `EPOLL_CTL_MOD` of a connection that is kept. -/
  | rearm (c : Conn)
  | cleanup (c : Conn) (pos : Cleanup)
deriving DecidableEq, Repr

/-- The connection of the task. -/
def WorkerPc.conn : WorkerPc → Conn
  | business c | recv c | remove c | close c | rearm c | cleanup c _ => c

/-- What `recv` reports; handlers touch nothing that is modelled here. -/
inductive Recv where
  | data
  | again
  | interrupted
  | closed
  | failed
deriving DecidableEq, Repr

/-! ## What has happened -/

/-- What closing paths do. -/
inductive Op where
  | close
  | epollDel
  | cancelTimer
  | removeSession
deriving DecidableEq, Repr

/-- An operation of a closing path. -/
structure Effect where
  thread : Thread
  op : Op
  /-- The connection it is done for. -/
  behalf : Option Conn
  /-- That connection had been closed before. -/
  late : Bool
  /-- The connection whose descriptor, registration, timer or session is gone by it. -/
  hit : Option Conn
deriving DecidableEq, Repr

/-- What has happened. -/
structure Trace where
  accepted : List Conn
  closed : List Conn
  effects : List Effect
  /-- The time of the accept or of the last event, which is the reading of the clock
  that `addTimer` makes for it. -/
  active : Conn → TimePoint
  /-- The connection for which the timer of a descriptor was armed. -/
  armedFor : Fd → Option Conn

end TcpServer

/-! ## The server -/

/-- Whether epoll watches a descriptor; `EPOLLONESHOT` disarms it with every event. -/
inductive Interest where
  | absent
  | disarmed
  | armed
deriving DecidableEq, Repr

/-- The server and what the kernel keeps for it. -/
structure TcpServer where
  clock : TimePoint
  /-- The connection behind an open descriptor. -/
  opened : Fd → Option Conn
  interest : Fd → Interest
  sessionManager : SessionManager
  timerMgr : TimerManager
  /-- The owner of `TimerManager::mtx_`. -/
  mutex : Option TcpServer.Thread
  main : TcpServer.MainPc
  /-- The queue of the pool, which only the main thread fills. -/
  tasks : List Conn
  /-- The workers that have a task. -/
  workers : UnorderedMap ℕ TcpServer.WorkerPc
  trace : TcpServer.Trace

namespace TcpServer

/-- The server before its first `epoll_wait`. -/
def init : TcpServer where
  clock := 0
  opened _ := none
  interest _ := .absent
  sessionManager := ⟨fun _ => none⟩
  timerMgr := TimerManager.new
  mutex := none
  main := .wait none
  tasks := []
  workers := ∅
  trace := ⟨[], [], [], fun _ => 0, fun _ => none⟩

/-- The idle time after which a connection is closed. -/
def timeoutSec : ℕ := 60

/-- An operation for `behalf` that hits `hit`. -/
def note (s : TcpServer) (thread : Thread) (op : Op) (behalf hit : Option Conn) : Trace :=
  { s.trace with
    effects := s.trace.effects ++
      [⟨thread, op, behalf, behalf.any fun c => decide (c ∈ s.trace.closed), hit⟩] }

/-- `epoll_ctl(epollFd_, EPOLL_CTL_DEL, fd, nullptr)`. -/
def epollDel (s : TcpServer) (thread : Thread) (behalf : Option Conn) (fd : Fd) : TcpServer :=
  { s with
    interest := Function.update s.interest fd .absent
    trace := s.note thread .epollDel behalf
      (if s.interest fd = .absent then none else s.opened fd) }

/-- What `cancelTimer` does while it holds the mutex. -/
def cancelTimer (s : TcpServer) (thread : Thread) (behalf : Option Conn) (fd : Fd) :
    TcpServer :=
  { s with
    timerMgr := s.timerMgr.cancelTimer fd
    mutex := none
    trace := s.note thread .cancelTimer behalf
      ((s.timerMgr.secretTable.lookup fd).bind fun _ => s.trace.armedFor fd) }

/-- `removeSession(fd)`. -/
def removeSession (s : TcpServer) (thread : Thread) (behalf : Option Conn) (fd : Fd) :
    TcpServer :=
  { s with
    sessionManager := s.sessionManager.removeSession fd
    trace := s.note thread .removeSession behalf (s.sessionManager.getSession fd) }

/-- `close(fd)`.  The registration goes with the descriptor. -/
def close (s : TcpServer) (thread : Thread) (behalf : Option Conn) (fd : Fd) : TcpServer :=
  { s with
    opened := Function.update s.opened fd none
    interest := Function.update s.interest fd .absent
    trace :=
      { s.note thread .close behalf (s.opened fd) with
        closed := s.trace.closed ++ (s.opened fd).toList } }

/-- One step of `doCleanup(fd)`, and where the thread is after it unless that was the
last one. -/
def doCleanup (s : TcpServer) (thread : Thread) (behalf : Option Conn) (fd : Fd)
    (beyond : Bool) : Cleanup → Option (TcpServer × Option Cleanup)
  | .check => some (s, if s.sessionManager.hasSession beyond fd then some .epollDel else none)
  | .epollDel => some (s.epollDel thread behalf fd, some .lock)
  | .lock =>
      if s.mutex = none then some ({ s with mutex := some thread }, some .cancel) else none
  | .cancel => some (s.cancelTimer thread behalf fd, some .remove)
  | .remove => some (s.removeSession thread behalf fd, some .close)
  | .close => some (s.close thread behalf fd, none)

/-- What can happen next.  `beyond` is what `hasSession` reads when it reads past
`sessions_`. -/
inductive Action where
  | tick (elapsed : ℕ)
  | epollWait (events : List Event)
  /-- `accept` returns a descriptor, or `-1`. -/
  | accept (client : Option Fd)
  /-- The next turn of the loop of `handleTimeouts`, with what `top()` shows. -/
  | top (top : Option TimerNode)
  /-- Any other step of the main thread. -/
  | main (beyond : Bool)
  /-- A worker dequeues a task. -/
  | take (w : ℕ)
  | recv (w : ℕ) (result : Recv)
  /-- Any other step of a worker. -/
  | worker (w : ℕ) (beyond : Bool)
deriving DecidableEq, Repr

/-- The connections whose readiness is reported. -/
def readies (events : List Event) : List Conn :=
  events.filterMap fun e => match e with
    | .listen => none
    | .ready c => some c

/-- `epoll_wait` reports at most 1024 events, of descriptors that it watches. -/
def Reportable (s : TcpServer) (events : List Event) : Prop :=
  events.length ≤ 1024 ∧ (readies events).Nodup ∧
    ∀ c ∈ readies events, s.opened c.fd = some c ∧ s.interest c.fd = .armed

instance (s : TcpServer) (events : List Event) : Decidable (s.Reportable events) := by
  unfold Reportable
  infer_instance

/-- A turn of the loop of `handleTimeouts` up to the callback. -/
def turn (s : TcpServer) (now : TimePoint) : Option TimerNode → Option TcpServer
  | none =>
      if s.timerMgr.minHeap = [] then some { s with mutex := none, main := .wait (some now) }
      else none
  | some top =>
      if s.timerMgr.IsTop top then
        if now < top.expire then some { s with mutex := none, main := .wait (some now) }
        else if top.expire ≠ s.timerMgr.entry top.fd then
          some { s with timerMgr := (s.timerMgr.touch top.fd).pop top }
        else some { s with timerMgr := s.timerMgr.touch top.fd, main := .callback now top }
      else none

/-- `epoll_ctl(epollFd_, EPOLL_CTL_ADD, fd, &ev)`. -/
def epollAdd (s : TcpServer) (fd : Fd) : TcpServer :=
  { s with
    interest :=
      if (s.opened fd).isSome ∧ s.interest fd = .absent then
        Function.update s.interest fd .armed
      else s.interest }

/-- Where the main thread is when `addTimer` has returned. -/
def afterArm (c : Conn) (rest : List Event) : Site → MainPc
  | .acceptConnection => .accept rest
  | .start => .enqueue c rest

/-- Where the main thread is when its `doCleanup` goes on at `pos`, or has returned. -/
def afterCleanup (now : TimePoint) (top : TimerNode) : Option Cleanup → MainPc
  | some pos => .cleanup now top pos
  | none => .finish now top

/-- A step of the main thread that depends on nothing but the state. -/
def mainStep (s : TcpServer) (beyond : Bool) : Option TcpServer :=
  match s.main with
  | .wait _ | .accept _ | .pass _ => none
  | .events [] => some { s with main := .passLock s.clock }
  | .events (.listen :: rest) => some { s with main := .accept rest }
  | .events (.ready c :: rest) => some { s with main := .readClock c .start rest }
  | .create c rest =>
      some { s with
        sessionManager := s.sessionManager.createSession c
        main := .epollAdd c rest }
  | .epollAdd c rest =>
      some { s.epollAdd c.fd with main := .readClock c .acceptConnection rest }
  | .readClock c site rest =>
      some { s with
        main := .lock c (s.clock + seconds timeoutSec) site rest
        trace := { s.trace with active := Function.update s.trace.active c s.clock } }
  | .lock c expire site rest =>
      if s.mutex = none then some { s with mutex := some .main, main := .arm c expire site rest }
      else none
  | .arm c expire site rest =>
      some { s with
        timerMgr := s.timerMgr.arm c.fd expire
        mutex := none
        main := afterArm c rest site
        trace := { s.trace with armedFor := Function.update s.trace.armedFor c.fd (some c) } }
  | .enqueue c rest => some { s with tasks := s.tasks ++ [c], main := .events rest }
  | .passLock now =>
      if s.mutex = none then some { s with mutex := some .main, main := .pass now } else none
  | .callback now top =>
      some { s with
        main :=
          if s.sessionManager.hasSession beyond top.fd then .cleanup now top .check
          else .finish now top }
  | .cleanup now top pos =>
      (s.doCleanup .main (s.trace.armedFor top.fd) top.fd beyond pos).map fun out =>
        { out.1 with main := afterCleanup now top out.2 }
  | .finish now top => some { s with timerMgr := s.timerMgr.finish top, main := .pass now }

/-- `epoll_ctl(epollFd_, EPOLL_CTL_MOD, fd, &ev)`. -/
def epollMod (s : TcpServer) (fd : Fd) : TcpServer :=
  { s with
    interest :=
      if s.interest fd = .absent then s.interest else Function.update s.interest fd .armed }

/-- The worker goes on at `pc`, or has finished its task. -/
def moveWorker (s : TcpServer) (w : ℕ) (pc : Option WorkerPc) : TcpServer :=
  { s with
    workers := match pc with
      | some pc => s.workers.insert w pc
      | none => s.workers.erase w }

/-- `recv` in the loop of `MyEchoBusiness`. -/
def recvStep (s : TcpServer) (w : ℕ) (result : Recv) : Option TcpServer :=
  match s.workers.lookup w with
  | some (.recv c) =>
      match result with
      | .data | .interrupted => some s
      | .again => some (s.moveWorker w (some (.rearm c)))
      | .closed | .failed => some (s.moveWorker w (some (.remove c)))
  | _ => none

/-- A step of a worker that depends on nothing but the state. -/
def workerStep (s : TcpServer) (w : ℕ) (beyond : Bool) : Option TcpServer :=
  match s.workers.lookup w with
  | some (.business c) =>
      some (s.moveWorker w (match s.sessionManager.getSession c.fd with
        | none => some (.cleanup c .check)
        | some _ => some (.recv c)))
  | some (.remove c) =>
      some ((s.removeSession (.worker w) (some c) c.fd).moveWorker w (some (.close c)))
  | some (.close c) =>
      some ((s.close (.worker w) (some c) c.fd).moveWorker w (some (.cleanup c .check)))
  | some (.rearm c) =>
      some ((s.epollMod c.fd).moveWorker w none)
  | some (.cleanup c pos) =>
      (s.doCleanup (.worker w) (some c) c.fd beyond pos).map fun out =>
        out.1.moveWorker w (out.2.map (.cleanup c))
  | _ => none

/-- The server. -/
def step (s : TcpServer) : Action → Option TcpServer
  | .tick elapsed => some { s with clock := s.clock + elapsed }
  | .epollWait events =>
      match s.main with
      | .wait _ =>
          if s.Reportable events then
            some { s with
              interest := fun fd =>
                if fd ∈ (readies events).map Conn.fd then .disarmed else s.interest fd
              main := .events events }
          else none
      | _ => none
  | .accept client =>
      match s.main, client with
      | .accept rest, none => some { s with main := .events rest }
      | .accept rest, some fd =>
          if 0 ≤ fd ∧ s.opened fd = none then
            let c : Conn := ⟨s.trace.accepted.length, fd⟩
            some { s with
              opened := Function.update s.opened fd (some c)
              main := .create c rest
              trace := { s.trace with accepted := s.trace.accepted ++ [c] } }
          else none
      | _, _ => none
  | .top top =>
      match s.main with
      | .pass now => s.turn now top
      | _ => none
  | .main beyond => s.mainStep beyond
  | .take w =>
      match s.tasks with
      | [] => none
      | c :: tasks =>
          if s.workers.lookup w = none then
            some ({ s with tasks := tasks }.moveWorker w (some (.business c)))
          else none
  | .recv w result => s.recvStep w result
  | .worker w beyond => s.workerStep w beyond

/-! ## What a step can do -/

/-- The steps of the main thread that only lead on to other code. -/
inductive Look (s : TcpServer) : Action → MainPc → MainPc → Prop
  | acceptNone (rest : List Event) : Look s (.accept none) (.accept rest) (.events rest)
  | endEvents (beyond : Bool) : Look s (.main beyond) (.events []) (.passLock s.clock)
  | listen (beyond : Bool) (rest : List Event) :
      Look s (.main beyond) (.events (.listen :: rest)) (.accept rest)
  | ready (beyond : Bool) (c : Conn) (rest : List Event) :
      Look s (.main beyond) (.events (.ready c :: rest)) (.readClock c .start rest)
  | callbackReturn (beyond : Bool) (now : TimePoint) (top : TimerNode)
      (empty : s.sessionManager.hasSession beyond top.fd = false) :
      Look s (.main beyond) (.callback now top) (.finish now top)
  | callbackClean (beyond : Bool) (now : TimePoint) (top : TimerNode)
      (found : s.sessionManager.hasSession beyond top.fd = true) :
      Look s (.main beyond) (.callback now top) (.cleanup now top .check)

/-- What one step can do. -/
inductive Move (s : TcpServer) : Action → TcpServer → Prop
  | tick (elapsed : ℕ) : Move s (.tick elapsed) { s with clock := s.clock + elapsed }
  | epollWait (passed : Option TimePoint) (events : List Event) (pc : s.main = .wait passed)
      (reported : s.Reportable events) :
      Move s (.epollWait events)
        { s with
          interest := fun fd =>
            if fd ∈ (readies events).map Conn.fd then .disarmed else s.interest fd
          main := .events events }
  | look (a : Action) (here there : MainPc) (pc : s.main = here) (looks : Look s a here there) :
      Move s a { s with main := there }
  | accept (fd : Fd) (rest : List Event) (pc : s.main = .accept rest) (valid : 0 ≤ fd)
      (free : s.opened fd = none) :
      Move s (.accept (some fd))
        { s with
          opened := Function.update s.opened fd (some ⟨s.trace.accepted.length, fd⟩)
          main := .create ⟨s.trace.accepted.length, fd⟩ rest
          trace := { s.trace with
            accepted := s.trace.accepted ++ [⟨s.trace.accepted.length, fd⟩] } }
  | create (beyond : Bool) (c : Conn) (rest : List Event) (pc : s.main = .create c rest) :
      Move s (.main beyond)
        { s with
          sessionManager := s.sessionManager.createSession c
          main := .epollAdd c rest }
  | epollAdd (beyond : Bool) (c : Conn) (rest : List Event) (pc : s.main = .epollAdd c rest) :
      Move s (.main beyond)
        { s.epollAdd c.fd with main := .readClock c .acceptConnection rest }
  | readClock (beyond : Bool) (c : Conn) (site : Site) (rest : List Event)
      (pc : s.main = .readClock c site rest) :
      Move s (.main beyond)
        { s with
          main := .lock c (s.clock + seconds timeoutSec) site rest
          trace := { s.trace with active := Function.update s.trace.active c s.clock } }
  | lock (beyond : Bool) (c : Conn) (expire : TimePoint) (site : Site) (rest : List Event)
      (pc : s.main = .lock c expire site rest) (unlocked : s.mutex = none) :
      Move s (.main beyond) { s with mutex := some .main, main := .arm c expire site rest }
  | arm (beyond : Bool) (c : Conn) (expire : TimePoint) (site : Site) (rest : List Event)
      (pc : s.main = .arm c expire site rest) :
      Move s (.main beyond)
        { s with
          timerMgr := s.timerMgr.arm c.fd expire
          mutex := none
          main := afterArm c rest site
          trace := { s.trace with
            armedFor := Function.update s.trace.armedFor c.fd (some c) } }
  | enqueue (beyond : Bool) (c : Conn) (rest : List Event) (pc : s.main = .enqueue c rest) :
      Move s (.main beyond) { s with tasks := s.tasks ++ [c], main := .events rest }
  | passLock (beyond : Bool) (now : TimePoint) (pc : s.main = .passLock now)
      (unlocked : s.mutex = none) :
      Move s (.main beyond) { s with mutex := some .main, main := .pass now }
  | passEnd (top : Option TimerNode) (now : TimePoint) (pc : s.main = .pass now)
      (late : ∀ n ∈ s.timerMgr.minHeap, now < n.expire) :
      Move s (.top top) { s with mutex := none, main := .wait (some now) }
  | passStale (top : TimerNode) (now : TimePoint) (pc : s.main = .pass now)
      (isTop : s.timerMgr.IsTop top) (stale : top.expire ≠ s.timerMgr.entry top.fd) :
      Move s (.top (some top)) { s with timerMgr := (s.timerMgr.touch top.fd).pop top }
  | passFire (top : TimerNode) (now : TimePoint) (pc : s.main = .pass now)
      (isTop : s.timerMgr.IsTop top) (due : top.expire ≤ now)
      (valid : top.expire = s.timerMgr.entry top.fd) :
      Move s (.top (some top))
        { s with timerMgr := s.timerMgr.touch top.fd, main := .callback now top }
  | mainCleanup (beyond : Bool) (now : TimePoint) (top : TimerNode) (pos : Cleanup)
      (t : TcpServer) (pos' : Option Cleanup) (pc : s.main = .cleanup now top pos)
      (cleans : s.doCleanup .main (s.trace.armedFor top.fd) top.fd beyond pos
        = some (t, pos')) :
      Move s (.main beyond) { t with main := afterCleanup now top pos' }
  | finish (beyond : Bool) (now : TimePoint) (top : TimerNode) (pc : s.main = .finish now top) :
      Move s (.main beyond) { s with timerMgr := s.timerMgr.finish top, main := .pass now }
  | take (w : ℕ) (c : Conn) (tasks : List Conn) (queue : s.tasks = c :: tasks)
      (idle : s.workers.lookup w = none) :
      Move s (.take w) ({ s with tasks := tasks }.moveWorker w (some (.business c)))
  | recvMore (w : ℕ) (result : Recv) (c : Conn) (pc : s.workers.lookup w = some (.recv c)) :
      Move s (.recv w result) s
  | recvAgain (w : ℕ) (c : Conn) (pc : s.workers.lookup w = some (.recv c)) :
      Move s (.recv w .again) (s.moveWorker w (some (.rearm c)))
  | recvEnd (w : ℕ) (result : Recv) (c : Conn) (pc : s.workers.lookup w = some (.recv c))
      (ended : result = .closed ∨ result = .failed) :
      Move s (.recv w result) (s.moveWorker w (some (.remove c)))
  | businessNone (w : ℕ) (beyond : Bool) (c : Conn)
      (pc : s.workers.lookup w = some (.business c))
      (session : s.sessionManager.getSession c.fd = none) :
      Move s (.worker w beyond) (s.moveWorker w (some (.cleanup c .check)))
  | business (w : ℕ) (beyond : Bool) (c d : Conn)
      (pc : s.workers.lookup w = some (.business c))
      (session : s.sessionManager.getSession c.fd = some d) :
      Move s (.worker w beyond) (s.moveWorker w (some (.recv c)))
  | remove (w : ℕ) (beyond : Bool) (c : Conn) (pc : s.workers.lookup w = some (.remove c)) :
      Move s (.worker w beyond)
        ((s.removeSession (.worker w) (some c) c.fd).moveWorker w (some (.close c)))
  | close (w : ℕ) (beyond : Bool) (c : Conn) (pc : s.workers.lookup w = some (.close c)) :
      Move s (.worker w beyond)
        ((s.close (.worker w) (some c) c.fd).moveWorker w (some (.cleanup c .check)))
  | rearm (w : ℕ) (beyond : Bool) (c : Conn) (pc : s.workers.lookup w = some (.rearm c)) :
      Move s (.worker w beyond) ((s.epollMod c.fd).moveWorker w none)
  | workerCleanup (w : ℕ) (beyond : Bool) (c : Conn) (pos : Cleanup) (t : TcpServer)
      (pos' : Option Cleanup) (pc : s.workers.lookup w = some (.cleanup c pos))
      (cleans : s.doCleanup (.worker w) (some c) c.fd beyond pos = some (t, pos')) :
      Move s (.worker w beyond) (t.moveWorker w (pos'.map (.cleanup c)))

section Spec

variable {s s' : TcpServer}

theorem turn_spec {now : TimePoint} {top : Option TimerNode} (pc : s.main = .pass now)
    (h : s.turn now top = some s') : Move s (.top top) s' := by
  cases top with
  | none =>
      simp only [turn] at h
      split_ifs at h with hempty
      obtain rfl := Option.some.inj h
      refine .passEnd none now pc fun n hn => ?_
      rw [hempty] at hn
      cases hn
  | some top =>
      simp only [turn] at h
      split_ifs at h with htop hlate hstale
      · obtain rfl := Option.some.inj h
        exact .passEnd _ now pc fun n hn => lt_of_lt_of_le hlate (htop.2 n hn)
      · obtain rfl := Option.some.inj h
        exact .passStale top now pc htop hstale
      · obtain rfl := Option.some.inj h
        exact .passFire top now pc htop (Nat.le_of_not_lt hlate) (not_not.mp hstale)

theorem mainStep_spec {beyond : Bool} (h : s.mainStep beyond = some s') :
    Move s (.main beyond) s' := by
  unfold mainStep at h
  split at h
  case h_1 => cases h
  case h_2 => cases h
  case h_3 => cases h
  case h_4 pc =>
      obtain rfl := Option.some.inj h
      exact .look _ _ _ pc (.endEvents beyond)
  case h_5 rest pc =>
      obtain rfl := Option.some.inj h
      exact .look _ _ _ pc (.listen beyond rest)
  case h_6 c rest pc =>
      obtain rfl := Option.some.inj h
      exact .look _ _ _ pc (.ready beyond c rest)
  case h_7 c rest pc =>
      obtain rfl := Option.some.inj h
      exact .create beyond c rest pc
  case h_8 c rest pc =>
      obtain rfl := Option.some.inj h
      exact .epollAdd beyond c rest pc
  case h_9 c site rest pc =>
      obtain rfl := Option.some.inj h
      exact .readClock beyond c site rest pc
  case h_10 c expire site rest pc =>
      split_ifs at h with hfree
      obtain rfl := Option.some.inj h
      exact .lock beyond c expire site rest pc hfree
  case h_11 c expire site rest pc =>
      obtain rfl := Option.some.inj h
      exact .arm beyond c expire site rest pc
  case h_12 c rest pc =>
      obtain rfl := Option.some.inj h
      exact .enqueue beyond c rest pc
  case h_13 now pc =>
      split_ifs at h with hfree
      obtain rfl := Option.some.inj h
      exact .passLock beyond now pc hfree
  case h_14 now top pc =>
      obtain rfl := Option.some.inj h
      cases hfound : s.sessionManager.hasSession beyond top.fd with
      | true => exact .look _ _ _ pc (.callbackClean beyond now top hfound)
      | false => exact .look _ _ _ pc (.callbackReturn beyond now top hfound)
  case h_15 now top pos pc =>
      obtain ⟨⟨t, pos'⟩, hclean, rfl⟩ := Option.map_eq_some_iff.mp h
      exact .mainCleanup beyond now top pos t pos' pc hclean
  case h_16 now top pc =>
      obtain rfl := Option.some.inj h
      exact .finish beyond now top pc

theorem recvStep_spec {w : ℕ} {result : Recv} (h : s.recvStep w result = some s') :
    Move s (.recv w result) s' := by
  unfold recvStep at h
  split at h
  case h_1 c pc =>
      cases result with
      | data | interrupted =>
          obtain rfl := Option.some.inj h
          exact .recvMore w _ c pc
      | again =>
          obtain rfl := Option.some.inj h
          exact .recvAgain w c pc
      | closed | failed =>
          obtain rfl := Option.some.inj h
          exact .recvEnd w _ c pc (by simp)
  case h_2 => cases h

theorem workerStep_spec {w : ℕ} {beyond : Bool} (h : s.workerStep w beyond = some s') :
    Move s (.worker w beyond) s' := by
  unfold workerStep at h
  split at h
  case h_1 c pc =>
      obtain rfl := Option.some.inj h
      cases hsession : s.sessionManager.getSession c.fd with
      | none => exact .businessNone w beyond c pc hsession
      | some d => exact .business w beyond c d pc hsession
  case h_2 c pc =>
      obtain rfl := Option.some.inj h
      exact .remove w beyond c pc
  case h_3 c pc =>
      obtain rfl := Option.some.inj h
      exact .close w beyond c pc
  case h_4 c pc =>
      obtain rfl := Option.some.inj h
      exact .rearm w beyond c pc
  case h_5 c pos pc =>
      obtain ⟨⟨t, pos'⟩, hclean, rfl⟩ := Option.map_eq_some_iff.mp h
      exact .workerCleanup w beyond c pos t pos' pc hclean
  case h_6 => cases h

/-- **Every step is one of the moves.** -/
theorem step_spec {a : Action} (h : step s a = some s') : Move s a s' := by
  cases a with
  | tick elapsed =>
      obtain rfl := Option.some.inj h
      exact .tick elapsed
  | epollWait events =>
      simp only [step] at h
      split at h
      case h_1 passed pc =>
          split_ifs at h with hreport
          obtain rfl := Option.some.inj h
          exact .epollWait passed events pc hreport
      case h_2 => cases h
  | accept client =>
      simp only [step] at h
      split at h
      case h_1 rest pc =>
          obtain rfl := Option.some.inj h
          exact .look _ _ _ pc (.acceptNone rest)
      case h_2 rest fd pc =>
          split_ifs at h with hfree
          obtain rfl := Option.some.inj h
          exact .accept fd rest pc hfree.1 hfree.2
      case h_3 => cases h
  | top top =>
      simp only [step] at h
      split at h
      case h_1 now pc => exact turn_spec pc h
      case h_2 => cases h
  | main beyond => exact mainStep_spec h
  | take w =>
      simp only [step] at h
      split at h
      case h_1 => cases h
      case h_2 c tasks queue =>
          split_ifs at h with hidle
          obtain rfl := Option.some.inj h
          exact .take w c tasks queue hidle
  | recv w result => exact recvStep_spec h
  | worker w beyond => exact workerStep_spec h

end Spec

/-! ## Small facts -/

theorem lookup_moveWorker (s : TcpServer) (w w' : ℕ) (pc : Option WorkerPc) :
    (s.moveWorker w pc).workers.lookup w' = if w' = w then pc else s.workers.lookup w' := by
  cases pc with
  | some pc => exact UnorderedMap.lookup_insert_eq s.workers w w' pc
  | none =>
      show (s.workers.erase w).lookup w' = _
      split_ifs with h
      · subst h
        exact AList.lookup_erase w' s.workers
      · exact AList.lookup_erase_ne h

/-- The `lock` of `doCleanup` takes the mutex when it is free. -/
theorem of_doCleanup_lock {s t : TcpServer} {thread : Thread} {behalf : Option Conn} {fd : Fd}
    {beyond : Bool} {pos' : Option Cleanup}
    (h : s.doCleanup thread behalf fd beyond .lock = some (t, pos')) :
    s.mutex = none ∧ t = { s with mutex := some thread } ∧ pos' = some .cancel := by
  change (if s.mutex = none then some (_, _) else none) = some (t, pos') at h
  split_ifs at h with hfree
  obtain ⟨rfl, rfl⟩ := Prod.mk.inj (Option.some.inj h)
  exact ⟨hfree, rfl, rfl⟩

/-- `doCleanup` leaves the place of the main thread to its caller. -/
theorem doCleanup_main {s t : TcpServer} {thread : Thread} {behalf : Option Conn} {fd : Fd}
    {beyond : Bool} {pos : Cleanup} {pos' : Option Cleanup}
    (h : s.doCleanup thread behalf fd beyond pos = some (t, pos')) : t.main = s.main := by
  cases pos with
  | lock =>
      obtain ⟨-, rfl, -⟩ := of_doCleanup_lock h
      rfl
  | _ =>
      obtain ⟨rfl, -⟩ := Prod.mk.inj (Option.some.inj h)
      rfl

end TcpServer

end ExchangeServer
