import ExchangeServer.Handler
import ExchangeServer.Lib.Runs
import ExchangeServer.SettlementProcessor

/-!
# The exchange

All threads of the server together, as `main.cpp` wires them: handler threads that
take requests, the log thread, one worker for each ticker and the settlement
thread.  They share the account cache, the database and the queues between them.

A handler does two things for a trade, it freezes and then appends the order to the
log, and two for a deposit, it writes the database and then the cache; other
threads may act in between, so a request that is half done is part of the state.
Every other action is one critical section, one queue operation or one SQL
statement.  `Exchange.step` is what the threads can do, in any order.

`History` is not part of the program: it records what has happened, to state the
laws of whole runs.
-/

namespace ExchangeServer

open Lib

/-- What has happened. -/
structure History where
  /-- Orders acknowledged with status `1`. -/
  acknowledged : List Order
  /-- Orders that `MatchingEngine::processOrder` refused. -/
  dropped : List Order
  /-- Match records made. -/
  traded : List MatchRecord
  /-- Cancel records made. -/
  cancelled : List CancelRecord
  /-- Deposits that `addBalance` found an account for. -/
  credited : List (UInt64 × Int64)

/-- The server. -/
structure Exchange where
  users : UserManager
  tickers : TickerManager
  db : Database
  /-- Orders whose freeze succeeded and that their handler is still to append. -/
  trading : ProducerQueue ThreadId Order
  /-- Deposits in the database that their handler is still to add to the cache. -/
  depositing : ProducerQueue ThreadId (UInt64 × Int64)
  wal : WALManager
  engine : MatchingEngine
  settlement : SettlementProcessor
  history : History

/-- `TickerManager::getAllTickerIds`. -/
def TickerManager.getAllTickerIds (m : TickerManager) : List UInt32 :=
  m.idToSymbol.keys

/-- `DepositRequest`. -/
structure DepositRequest where
  amount : UInt64
deriving DecidableEq, Repr

/-- What a thread can do. -/
inductive Action where
  | createUserAccount (uid : UInt64) (username : String)
  /-- `TradeHandler::handle` up to the freeze, which is all of it when that fails. -/
  | trade (thread : ThreadId) (session : Session) (req : TradeRequest) (orderId now : UInt64)
  /-- The rest of it: `appendOrder`, and the reply with status `1`. -/
  | appendOrder (thread : ThreadId)
  | cancel (thread : ThreadId) (session : Session) (req : CancelRequest)
  /-- `DepositHandler::handle` up to `updateBalance`. -/
  | deposit (thread : ThreadId) (session : Session) (req : DepositRequest)
      (fault : Option Fault)
  /-- The rest of it: `addBalance`. -/
  | addBalance (thread : ThreadId)
  | logDequeue (picks : List ThreadId)
  | logWrite (now : ℕ → UInt64) (count : ℕ)
  | logForward
  | workerDequeue (tickerId : UInt32) (count : ℕ)
  | workerProcess (tickerId : UInt32) (clock : ℕ → UInt64) (now : UInt64)
  | workerPush (tickerId : UInt32)
  | settleDequeue (picks : List UInt32)
  | settleStart
  | settleCall (fault : Option Fault)
  | commitBuy
  | commitSell
  | cancelDequeue (picks : List UInt32)
  | cancelRelease

namespace Exchange

/-- The server as `main` starts it, with a book for every listed ticker. -/
def start (users : UserManager) (tickers : TickerManager) (db : Database)
    (walFile : Option (List WALRecord)) : Exchange where
  users := users
  tickers := tickers
  db := db
  trading := []
  depositing := []
  wal := WALManager.new walFile
  engine := tickers.getAllTickerIds.foldl MatchingEngine.init MatchingEngine.new
  settlement := SettlementProcessor.new
  history := ⟨[], [], [], [], []⟩

section Start

variable (users : UserManager) (tickers : TickerManager) (db : Database)
  (walFile : Option (List WALRecord))

theorem lookup_start (t : UInt32) :
    (start users tickers db walFile).engine.orderBooks.lookup t =
      if t ∈ tickers.getAllTickerIds then some (OrderBookProcessor.new t) else none :=
  MatchingEngine.lookup_init _ _ (fun t p hp => by cases hp) t

theorem listed_iff (t : UInt32) :
    t ∈ tickers.getAllTickerIds ↔ (tickers.idToSymbol.lookup t).isSome :=
  AList.lookup_isSome.symm

end Start

/-- The thread is not in the middle of a request. -/
def Free (s : Exchange) (thread : ThreadId) : Prop :=
  thread ∉ s.trading.map Prod.fst ∧ thread ∉ s.depositing.map Prod.fst

instance (s : Exchange) (thread : ThreadId) : Decidable (s.Free thread) := by
  unfold Free
  infer_instance

/-! ## Handlers -/

/-- `TradeHandler::handle` up to the freeze. -/
def trade (s : Exchange) (thread : ThreadId) (session : Session) (req : TradeRequest)
    (orderId now : UInt64) : Option Exchange :=
  if s.Free thread then
    if session.isLoggedIn then
      let out := req.freeze s.users session
      if out.2 then
        some { s with
          users := out.1
          trading := s.trading.enqueue thread [req.order session orderId now] }
      else some { s with users := out.1 }
    else some s
  else none

/-- The rest of `TradeHandler::handle`. -/
def appendOrder (s : Exchange) (thread : ThreadId) : Option Exchange :=
  (ProducerQueue.dequeue thread s.trading).map fun out =>
    { s with
      trading := out.2
      wal := s.wal.appendOrder thread out.1
      history := { s.history with acknowledged := s.history.acknowledged ++ [out.1] } }

/-- `CancelOrderHandler::handle`. -/
def cancel (s : Exchange) (thread : ThreadId) (session : Session) (req : CancelRequest) :
    Option Exchange :=
  if s.Free thread then some { s with wal := req.handle session thread s.wal } else none

/-- `DepositHandler::handle` up to `updateBalance`. -/
def deposit (s : Exchange) (thread : ThreadId) (session : Session) (req : DepositRequest)
    (fault : Option Fault) : Option Exchange :=
  if s.Free thread then
    if session.isLoggedIn then
      let amount := req.amount.toInt64
      if amount ≤ 0 then some s
      else
        let call := s.db.updateBalance fault session.username amount
        if call.returned then
          some { s with
            db := call.db
            depositing := s.depositing.enqueue thread [(session.userId, amount)] }
        else some { s with db := call.db }
    else some s
  else none

/-- The rest of `DepositHandler::handle`. -/
def addBalance (s : Exchange) (thread : ThreadId) : Option Exchange :=
  (ProducerQueue.dequeue thread s.depositing).map fun out =>
    { s with
      depositing := out.2
      users := s.users.addBalance out.1.1 out.1.2
      history := { s.history with
        credited :=
          if s.users.HasAccount out.1.1 then s.history.credited ++ [out.1]
          else s.history.credited } }

/-! ## The log thread -/

/-- The next event of the batch goes to the engine.  What `processOrder` returns is
not looked at. -/
def logForward (s : Exchange) : Option Exchange :=
  match s.wal.written, s.wal.buffer with
  | true, ev :: rest =>
      let out := WALManager.forward s.engine ev
      some { s with
        wal := { s.wal with buffer := rest }
        engine := out.1
        history := { s.history with
          dropped := if out.2 then s.history.dropped
            else s.history.dropped ++ ev.order?.toList } }
  | _, _ => none

/-! ## Workers -/

/-- A worker takes its next batch. -/
def workerDequeue (s : Exchange) (tickerId : UInt32) (count : ℕ) : Option Exchange :=
  (s.engine.orderBooks.lookup tickerId).bind fun p =>
    (p.dequeue count).map fun p' =>
      { s with engine := ⟨s.engine.orderBooks.insert tickerId p'⟩ }

/-- A worker processes the next event of its batch; a cancel record is pushed at
once. -/
def workerProcess (s : Exchange) (tickerId : UInt32) (clock : ℕ → UInt64) (now : UInt64) :
    Option Exchange :=
  (s.engine.orderBooks.lookup tickerId).bind fun p =>
    (p.processNext clock now).map fun out =>
      { s with
        engine := ⟨s.engine.orderBooks.insert tickerId out.1⟩
        settlement := out.2.elim s.settlement (s.settlement.pushCancelRecord tickerId)
        history := { s.history with
          traded := s.history.traded ++ out.1.results.drop p.results.length
          cancelled := s.history.cancelled ++ out.2.toList } }

/-- A worker pushes the match records of its batch. -/
def workerPush (s : Exchange) (tickerId : UInt32) : Option Exchange :=
  (s.engine.orderBooks.lookup tickerId).bind fun p =>
    p.pushRecords.map fun out =>
      { s with
        engine := ⟨s.engine.orderBooks.insert tickerId out.1⟩
        settlement := s.settlement.pushRecords tickerId out.2 }

/-! ## The settlement thread -/

/-- The next repository call of the record in hand. -/
def settleCall (s : Exchange) (fault : Option Fault) : Option Exchange :=
  match s.settlement.current with
  | some (job, .call k) =>
      some { s with
        db := (job.execute k fault s.db).db
        settlement := { s.settlement with current := some (job, k.next) } }
  | _ => none

/-- The buyer's account is updated. -/
def commitBuy (s : Exchange) : Option Exchange :=
  match s.settlement.current with
  | some (job, .commitBuy) =>
      some { s with
        users := job.commitBuy s.users
        settlement := { s.settlement with current := some (job, .commitSell) } }
  | _ => none

/-- The seller's account is updated and the record is done. -/
def commitSell (s : Exchange) : Option Exchange :=
  match s.settlement.current with
  | some (job, .commitSell) =>
      some { s with
        users := job.commitSell s.users
        settlement := { s.settlement with current := none } }
  | _ => none

/-- The next cancel record of the batch is released. -/
def cancelRelease (s : Exchange) : Option Exchange :=
  match s.settlement.current, s.settlement.buffer, s.settlement.cancelBuffer with
  | none, [], rec :: rest =>
      some { s with
        users := rec.release s.users
        settlement := { s.settlement with cancelBuffer := rest } }
  | _, _, _ => none

/-- **One action of some thread.** -/
def step (s : Exchange) : Action → Option Exchange
  | .createUserAccount uid username =>
      some { s with users := s.users.createUserAccount uid username }
  | .trade thread session req orderId now => s.trade thread session req orderId now
  | .appendOrder thread => s.appendOrder thread
  | .cancel thread session req => s.cancel thread session req
  | .deposit thread session req fault => s.deposit thread session req fault
  | .addBalance thread => s.addBalance thread
  | .logDequeue picks => (s.wal.dequeue picks).map fun wal => { s with wal }
  | .logWrite now count => (s.wal.write now count).map fun wal => { s with wal }
  | .logForward => s.logForward
  | .workerDequeue tickerId count => s.workerDequeue tickerId count
  | .workerProcess tickerId clock now => s.workerProcess tickerId clock now
  | .workerPush tickerId => s.workerPush tickerId
  | .settleDequeue picks =>
      (s.settlement.dequeueRecords picks).map fun settlement => { s with settlement }
  | .settleStart =>
      (s.settlement.startRecord s.users s.tickers).map fun settlement => { s with settlement }
  | .settleCall fault => s.settleCall fault
  | .commitBuy => s.commitBuy
  | .commitSell => s.commitSell
  | .cancelDequeue picks =>
      (s.settlement.dequeueCancels picks).map fun settlement => { s with settlement }
  | .cancelRelease => s.cancelRelease

/-! ## What an action does -/

/-- **The outcomes of an action**, with what its guards have found. -/
inductive Step (s : Exchange) : Action → Exchange → Prop
  | createUserAccount (uid : UInt64) (username : String) :
      Step s (.createUserAccount uid username)
        { s with users := s.users.createUserAccount uid username }
  | tradeIgnored (thread : ThreadId) (session : Session) (req : TradeRequest)
      (orderId now : UInt64) (free : s.Free thread) (login : session.isLoggedIn = false) :
      Step s (.trade thread session req orderId now) s
  | tradeRefused (thread : ThreadId) (session : Session) (req : TradeRequest)
      (orderId now : UInt64) (free : s.Free thread) (login : session.isLoggedIn = true)
      (frozen : (req.freeze s.users session).2 = false) :
      Step s (.trade thread session req orderId now)
        { s with users := (req.freeze s.users session).1 }
  | tradeFrozen (thread : ThreadId) (session : Session) (req : TradeRequest)
      (orderId now : UInt64) (free : s.Free thread) (login : session.isLoggedIn = true)
      (frozen : (req.freeze s.users session).2 = true) :
      Step s (.trade thread session req orderId now)
        { s with
          users := (req.freeze s.users session).1
          trading := s.trading.enqueue thread [req.order session orderId now] }
  | appendOrder (thread : ThreadId) (o : Order) (trading : ProducerQueue ThreadId Order)
      (h : ProducerQueue.dequeue thread s.trading = some (o, trading)) :
      Step s (.appendOrder thread)
        { s with
          trading := trading
          wal := s.wal.appendOrder thread o
          history := { s.history with acknowledged := s.history.acknowledged ++ [o] } }
  | cancel (thread : ThreadId) (session : Session) (req : CancelRequest)
      (free : s.Free thread) :
      Step s (.cancel thread session req) { s with wal := req.handle session thread s.wal }
  | depositIgnored (thread : ThreadId) (session : Session) (req : DepositRequest)
      (fault : Option Fault) (free : s.Free thread)
      (h : session.isLoggedIn = false ∨ req.amount.toInt64 ≤ 0) :
      Step s (.deposit thread session req fault) s
  | depositFailed (thread : ThreadId) (session : Session) (req : DepositRequest)
      (fault : Option Fault) (free : s.Free thread) (login : session.isLoggedIn = true)
      (pos : 0 < req.amount.toInt64)
      (returned : (s.db.updateBalance fault session.username req.amount.toInt64).returned
        = false) :
      Step s (.deposit thread session req fault)
        { s with db := (s.db.updateBalance fault session.username req.amount.toInt64).db }
  | depositWritten (thread : ThreadId) (session : Session) (req : DepositRequest)
      (fault : Option Fault) (free : s.Free thread) (login : session.isLoggedIn = true)
      (pos : 0 < req.amount.toInt64)
      (returned : (s.db.updateBalance fault session.username req.amount.toInt64).returned
        = true) :
      Step s (.deposit thread session req fault)
        { s with
          db := (s.db.updateBalance fault session.username req.amount.toInt64).db
          depositing :=
            s.depositing.enqueue thread [(session.userId, req.amount.toInt64)] }
  | addBalance (thread : ThreadId) (uid : UInt64) (amount : Int64)
      (depositing : ProducerQueue ThreadId (UInt64 × Int64))
      (h : ProducerQueue.dequeue thread s.depositing = some ((uid, amount), depositing)) :
      Step s (.addBalance thread)
        { s with
          depositing := depositing
          users := s.users.addBalance uid amount
          history := { s.history with
            credited :=
              if s.users.HasAccount uid then s.history.credited ++ [(uid, amount)]
              else s.history.credited } }
  | logDequeue (picks : List ThreadId) (wal : WALManager) (h : s.wal.dequeue picks = some wal) :
      Step s (.logDequeue picks) { s with wal := wal }
  | logWrite (now : ℕ → UInt64) (count : ℕ) (wal : WALManager)
      (h : s.wal.write now count = some wal) :
      Step s (.logWrite now count) { s with wal := wal }
  | logForward (ev : EngineEvent) (rest : List EngineEvent) (written : s.wal.written = true)
      (h : s.wal.buffer = ev :: rest) :
      Step s .logForward
        { s with
          wal := { s.wal with buffer := rest }
          engine := (WALManager.forward s.engine ev).1
          history := { s.history with
            dropped := if (WALManager.forward s.engine ev).2 then s.history.dropped
              else s.history.dropped ++ ev.order?.toList } }
  | workerDequeue (t : UInt32) (count : ℕ) (p p' : OrderBookProcessor)
      (worker : s.engine.orderBooks.lookup t = some p) (h : p.dequeue count = some p') :
      Step s (.workerDequeue t count)
        { s with engine := ⟨s.engine.orderBooks.insert t p'⟩ }
  | workerProcess (t : UInt32) (clock : ℕ → UInt64) (now : UInt64) (p : OrderBookProcessor)
      (out : OrderBookProcessor × Option CancelRecord)
      (worker : s.engine.orderBooks.lookup t = some p) (h : p.processNext clock now = some out) :
      Step s (.workerProcess t clock now)
        { s with
          engine := ⟨s.engine.orderBooks.insert t out.1⟩
          settlement := out.2.elim s.settlement (s.settlement.pushCancelRecord t)
          history := { s.history with
            traded := s.history.traded ++ out.1.results.drop p.results.length
            cancelled := s.history.cancelled ++ out.2.toList } }
  | workerPush (t : UInt32) (p : OrderBookProcessor)
      (out : OrderBookProcessor × List MatchRecord)
      (worker : s.engine.orderBooks.lookup t = some p) (h : p.pushRecords = some out) :
      Step s (.workerPush t)
        { s with
          engine := ⟨s.engine.orderBooks.insert t out.1⟩
          settlement := s.settlement.pushRecords t out.2 }
  | settleDequeue (picks : List UInt32) (settlement : SettlementProcessor)
      (h : s.settlement.dequeueRecords picks = some settlement) :
      Step s (.settleDequeue picks) { s with settlement := settlement }
  | settleStart (settlement : SettlementProcessor)
      (h : s.settlement.startRecord s.users s.tickers = some settlement) :
      Step s .settleStart { s with settlement := settlement }
  | settleCall (fault : Option Fault) (job : SettleJob) (k : SettleCall)
      (h : s.settlement.current = some (job, .call k)) :
      Step s (.settleCall fault)
        { s with
          db := (job.execute k fault s.db).db
          settlement := { s.settlement with current := some (job, k.next) } }
  | commitBuy (job : SettleJob) (h : s.settlement.current = some (job, .commitBuy)) :
      Step s .commitBuy
        { s with
          users := job.commitBuy s.users
          settlement := { s.settlement with current := some (job, .commitSell) } }
  | commitSell (job : SettleJob) (h : s.settlement.current = some (job, .commitSell)) :
      Step s .commitSell
        { s with
          users := job.commitSell s.users
          settlement := { s.settlement with current := none } }
  | cancelDequeue (picks : List UInt32) (settlement : SettlementProcessor)
      (h : s.settlement.dequeueCancels picks = some settlement) :
      Step s (.cancelDequeue picks) { s with settlement := settlement }
  | cancelRelease (rec : CancelRecord) (rest : List CancelRecord)
      (current : s.settlement.current = none) (buffer : s.settlement.buffer = [])
      (h : s.settlement.cancelBuffer = rec :: rest) :
      Step s .cancelRelease
        { s with
          users := rec.release s.users
          settlement := { s.settlement with cancelBuffer := rest } }

variable {s s' : Exchange} {a : Action}

/-- **An action has one of its outcomes.** -/
theorem step_spec (hstep : s.step a = some s') : Step s a s' := by
  cases a with
  | createUserAccount uid username =>
      obtain rfl := Option.some.inj hstep
      exact .createUserAccount uid username
  | trade thread session req orderId now =>
      simp only [step, trade] at hstep
      split_ifs at hstep with hfree hlogin hfrozen
      · obtain rfl := Option.some.inj hstep
        exact .tradeFrozen _ _ _ _ _ hfree hlogin hfrozen
      · obtain rfl := Option.some.inj hstep
        exact .tradeRefused _ _ _ _ _ hfree hlogin (Bool.eq_false_iff.mpr hfrozen)
      · obtain rfl := Option.some.inj hstep
        exact .tradeIgnored _ _ _ _ _ hfree (Bool.eq_false_iff.mpr hlogin)
  | appendOrder thread =>
      obtain ⟨out, hout, rfl⟩ := Option.map_eq_some_iff.mp hstep
      exact .appendOrder thread out.1 out.2 hout
  | cancel thread session req =>
      obtain ⟨hfree, heq⟩ := Option.ite_none_right_eq_some.mp hstep
      obtain rfl := Option.some.inj heq
      exact .cancel thread session req hfree
  | deposit thread session req fault =>
      simp only [step, deposit] at hstep
      split_ifs at hstep with hfree hlogin hpos hreturned
      · obtain rfl := Option.some.inj hstep
        exact .depositIgnored _ _ _ _ hfree (Or.inr hpos)
      · obtain rfl := Option.some.inj hstep
        exact .depositWritten _ _ _ _ hfree hlogin (Int64.not_le.mp hpos) hreturned
      · obtain rfl := Option.some.inj hstep
        exact .depositFailed _ _ _ _ hfree hlogin (Int64.not_le.mp hpos)
          (Bool.eq_false_iff.mpr hreturned)
      · obtain rfl := Option.some.inj hstep
        exact .depositIgnored _ _ _ _ hfree (Or.inl (Bool.eq_false_iff.mpr hlogin))
  | addBalance thread =>
      obtain ⟨⟨deposit, depositing⟩, hout, rfl⟩ := Option.map_eq_some_iff.mp hstep
      exact .addBalance thread deposit.1 deposit.2 depositing hout
  | logDequeue picks =>
      obtain ⟨wal, hwal, rfl⟩ := Option.map_eq_some_iff.mp hstep
      exact .logDequeue picks wal hwal
  | logWrite now count =>
      obtain ⟨wal, hwal, rfl⟩ := Option.map_eq_some_iff.mp hstep
      exact .logWrite now count wal hwal
  | logForward =>
      simp only [step, logForward] at hstep
      split at hstep
      case h_2 => cases hstep
      case h_1 ev rest hwritten hbuffer =>
        obtain rfl := Option.some.inj hstep
        exact .logForward ev rest hwritten hbuffer
  | workerDequeue t count =>
      obtain ⟨p, hp, hstep⟩ := Option.bind_eq_some_iff.mp hstep
      obtain ⟨p', hp', rfl⟩ := Option.map_eq_some_iff.mp hstep
      exact .workerDequeue t count p p' hp hp'
  | workerProcess t clock now =>
      obtain ⟨p, hp, hstep⟩ := Option.bind_eq_some_iff.mp hstep
      obtain ⟨out, hout, rfl⟩ := Option.map_eq_some_iff.mp hstep
      exact .workerProcess t clock now p out hp hout
  | workerPush t =>
      obtain ⟨p, hp, hstep⟩ := Option.bind_eq_some_iff.mp hstep
      obtain ⟨out, hout, rfl⟩ := Option.map_eq_some_iff.mp hstep
      exact .workerPush t p out hp hout
  | settleDequeue picks =>
      obtain ⟨settlement, hs, rfl⟩ := Option.map_eq_some_iff.mp hstep
      exact .settleDequeue picks settlement hs
  | settleStart =>
      obtain ⟨settlement, hs, rfl⟩ := Option.map_eq_some_iff.mp hstep
      exact .settleStart settlement hs
  | settleCall fault =>
      simp only [step, settleCall] at hstep
      split at hstep
      case h_2 => cases hstep
      case h_1 job k hcurrent =>
        obtain rfl := Option.some.inj hstep
        exact .settleCall fault job k hcurrent
  | commitBuy =>
      simp only [step, commitBuy] at hstep
      split at hstep
      case h_2 => cases hstep
      case h_1 job hcurrent =>
        obtain rfl := Option.some.inj hstep
        exact .commitBuy job hcurrent
  | commitSell =>
      simp only [step, commitSell] at hstep
      split at hstep
      case h_2 => cases hstep
      case h_1 job hcurrent =>
        obtain rfl := Option.some.inj hstep
        exact .commitSell job hcurrent
  | cancelDequeue picks =>
      obtain ⟨settlement, hs, rfl⟩ := Option.map_eq_some_iff.mp hstep
      exact .cancelDequeue picks settlement hs
  | cancelRelease =>
      simp only [step, cancelRelease] at hstep
      split at hstep
      case h_2 => cases hstep
      case h_1 rec rest hcurrent hbuffer hcancels =>
        obtain rfl := Option.some.inj hstep
        exact .cancelRelease rec rest hcurrent hbuffer hcancels

/-! ## What is where -/

/-- The orders in the log thread's queue and batch. -/
def logOrders (s : Exchange) : List Order :=
  (s.wal.buffer ++ s.wal.queue.elems).filterMap EngineEvent.order?

/-- Accepted orders that are still to be filled: with a handler, with the log
thread, in a worker's queue or batch, or resting in a book. -/
def openOrders (s : Exchange) : List Order :=
  s.trading.elems ++ s.logOrders ++ s.engine.queued ++ s.engine.resting

/-- Match records that settlement has not started on. -/
def waitingRecords (s : Exchange) : List MatchRecord :=
  s.engine.results ++ s.settlement.queue.elems ++ s.settlement.buffer

/-- Match records that `commitBuy` has not been called for. -/
def unboughtRecords (s : Exchange) : List MatchRecord :=
  match s.settlement.current with
  | none => s.waitingRecords
  | some (_, .commitSell) => s.waitingRecords
  | some (job, _) => job.record :: s.waitingRecords

/-- Match records that `commitSell` has not been called for. -/
def unsoldRecords (s : Exchange) : List MatchRecord :=
  match s.settlement.current with
  | none => s.waitingRecords
  | some (job, _) => job.record :: s.waitingRecords

/-- Cancel records that have not been released. -/
def waitingCancels (s : Exchange) : List CancelRecord :=
  s.settlement.cancelQueue.elems ++ s.settlement.cancelBuffer

/-- Orders that were accepted: acknowledged, or about to be. -/
def accepted (s : Exchange) : List Order :=
  s.history.acknowledged ++ s.trading.elems

end Exchange

end ExchangeServer
