import ExchangeServer.Exchange.Laws
import ExchangeServer.Lib.Progress
import ExchangeServer.OrderBook.TradeCount
import ExchangeServer.Replay

/-!
# Every request is worked off

The threads of the server as a `Workload`: clients bring in requests, and what an
action of a thread gets done is one stage of one order, event or record.  The weights of
`pending` count the stages still to come.  A match record takes nine, so an order that
rests, which may still become one, weighs nine as well, and by `processOrder_potential` a
worker's action never makes more of them than the event it processed was worth.

* `work_le_requests` — over any run, with any batches, any interleaving and any database
  failures, the threads take at most 30 useful actions for each request, counting those
  that empty all queues from there; so no state that is reached is a deadlock.
* `requests_worked_off` — if requests cease and no busy thread is left waiting for ever,
  then in the end every queue, every batch and every worker's result vector is empty.

A poll is `Honest` if it does not come back empty from a queue that holds something; and
the log thread does not write an empty batch.
-/

namespace ExchangeServer

open Lib Filter

/-! ## Threads -/

/-- The threads of the server. -/
inductive ServerThread where
  | handler (thread : ThreadId)
  | log
  | worker (tickerId : UInt32)
  | settlement
deriving DecidableEq, Repr

/-- The thread that takes an action.  What begins the handling of a request comes from
outside. -/
def Action.thread : Action → Option ServerThread
  | .createUserAccount .. | .trade .. | .cancel .. | .deposit .. => none
  | .appendOrder thread | .addBalance thread => some (.handler thread)
  | .logDequeue _ | .logWrite .. | .logForward => some .log
  | .workerDequeue t _ | .workerProcess t _ _ | .workerPush t => some (.worker t)
  | .settleDequeue _ | .settleStart | .settleCall _ | .commitBuy | .commitSell
  | .cancelDequeue _ | .cancelRelease => some .settlement

namespace Exchange

/-- The thread has something to do. -/
def Busy (t : ServerThread) (s : Exchange) : Prop :=
  match t with
  | .handler thread => thread ∈ s.trading.map Prod.fst ∨ thread ∈ s.depositing.map Prod.fst
  | .log => s.wal.buffer ≠ [] ∨ s.wal.queue ≠ []
  | .worker t => ∃ p, s.engine.orderBooks.lookup t = some p ∧
      (p.buffer ≠ [] ∨ p.results ≠ [] ∨ p.queue ≠ [])
  | .settlement =>
      ¬ s.settlement.Idle ∨ s.settlement.queue ≠ [] ∨ s.settlement.cancelQueue ≠ []

/-- A poll takes something if there is something to take, and only batches that are not
empty are written. -/
def Honest (s : Exchange) : Action → Prop
  | .logDequeue picks => picks = [] → s.wal.queue = []
  | .logWrite _ _ => s.wal.buffer ≠ []
  | .workerDequeue t count =>
      count = 0 → ∀ p ∈ s.engine.orderBooks.lookup t, p.queue = []
  | .settleDequeue picks => picks = [] → s.settlement.queue = []
  | .cancelDequeue picks => picks = [] → s.settlement.cancelQueue = []
  | _ => True

instance (s : Exchange) : (a : Action) → Decidable (s.Honest a)
  | .logDequeue picks => inferInstanceAs (Decidable (picks = [] → s.wal.queue = []))
  | .logWrite _ _ => inferInstanceAs (Decidable (s.wal.buffer ≠ []))
  | .workerDequeue t count =>
      inferInstanceAs (Decidable (count = 0 →
        ∀ p ∈ s.engine.orderBooks.lookup t, p.queue = []))
  | .settleDequeue picks => inferInstanceAs (Decidable (picks = [] → s.settlement.queue = []))
  | .cancelDequeue picks =>
      inferInstanceAs (Decidable (picks = [] → s.settlement.cancelQueue = []))
  | .createUserAccount .. | .trade .. | .appendOrder _ | .cancel .. | .deposit ..
  | .addBalance _ | .logForward | .workerProcess .. | .workerPush _ | .settleStart
  | .settleCall _ | .commitBuy | .commitSell | .cancelRelease => instDecidableTrue

/-- The action gets something done.  The settlement thread turns from one queue to the
other by polling, so a poll that finds nothing counts when the other queue holds
something. -/
def useful (s : Exchange) : Action → Bool
  | .createUserAccount .. | .trade .. | .cancel .. | .deposit .. => false
  | .logDequeue picks => !picks.isEmpty
  | .workerDequeue _ count => count != 0
  | .settleDequeue picks => !(picks.isEmpty && s.settlement.cancelQueue.isEmpty)
  | .cancelDequeue picks => !(picks.isEmpty && s.settlement.queue.isEmpty)
  | _ => true

end Exchange

/-! ## Stages still to come -/

/-! ### The log thread -/

namespace WALManager

/-- Events in the log thread's hands. -/
def pending (wal : WALManager) : ℕ :=
  14 * wal.queue.length + 12 * wal.buffer.length
    + if wal.written = false ∧ wal.buffer ≠ [] then 1 else 0

variable {wal wal' : WALManager}

theorem pending_appendOrder (thread : ThreadId) (o : Order) :
    (wal.appendOrder thread o).pending = wal.pending + 14 := by
  unfold pending appendOrder
  rw [ProducerQueue.length_enqueue]
  dsimp only [List.length_singleton]
  omega

theorem pending_appendCancel (thread : ThreadId) (t : UInt32) (x u : UInt64) :
    (wal.appendCancel thread t x u).pending = wal.pending + 14 := by
  unfold pending appendCancel
  rw [ProducerQueue.length_enqueue]
  dsimp only [List.length_singleton]
  omega

theorem pending_dequeue {picks : List ThreadId} (h : wal.dequeue picks = some wal') :
    wal'.pending + (!picks.isEmpty).toNat ≤ wal.pending := by
  obtain ⟨hidle, batch, queue, hdequeue, rfl⟩ := dequeue_eq_some h
  obtain ⟨hbatch, hqueue⟩ := ProducerQueue.length_dequeueBulk hdequeue
  unfold pending
  rw [hidle]
  cases picks with
  | nil =>
      obtain rfl := List.length_eq_zero_iff.mp hbatch
      simp [hqueue]
  | cons t picks =>
      rw [List.length_cons] at hbatch hqueue
      simp only [List.isEmpty_cons, Bool.not_false, Bool.toNat_true]
      split_ifs <;> omega

theorem pending_write {now : ℕ → UInt64} {count : ℕ} (h : wal.write now count = some wal')
    (hbuffer : wal.buffer ≠ []) : wal'.pending + 1 = wal.pending := by
  obtain ⟨hready, rfl⟩ := write_eq_some h
  simp [pending, hready.1, hbuffer]

theorem pending_forward {ev : EngineEvent} {rest : List EngineEvent} (hwritten : wal.written = true)
    (hbuffer : wal.buffer = ev :: rest) :
    pending { wal with buffer := rest } + 12 = wal.pending := by
  simp only [pending, hbuffer, hwritten, List.length_cons, Bool.true_eq_false, false_and, if_false]
  omega

end WALManager

/-! ### Workers -/

namespace OrderBookProcessor

/-- Events and match records in a worker's hands, and its resting orders. -/
def pending (p : OrderBookProcessor) : ℕ :=
  11 * p.queue.length + 10 * p.buffer.length
    + 9 * (p.results.length + p.book.restingPtrs.length)

variable {p p' : OrderBookProcessor}

theorem pending_enqueue (ev : EngineEvent) : (p.enqueue ev).pending = p.pending + 11 := by
  unfold pending enqueue
  rw [List.length_append]
  dsimp only [List.length_singleton]
  omega

theorem pending_dequeue {count : ℕ} (h : p.dequeue count = some p') :
    p'.pending + count = p.pending := by
  obtain ⟨⟨hbuffer, -, -, hcount⟩, rfl⟩ := dequeue_eq_some h
  unfold pending
  rw [hbuffer, List.length_take, List.length_drop, Nat.min_eq_left hcount]
  dsimp only [List.length_nil]
  omega

/-- **An event is worth what is made of it.** -/
theorem pending_processNext (hbook : p.book.Allocated) {clock : ℕ → UInt64} {now : UInt64}
    {out : OrderBookProcessor × Option CancelRecord} (h : p.processNext clock now = some out) :
    out.1.pending + 2 * out.2.toList.length + 1 ≤ p.pending ∧ out.1.book.Allocated := by
  obtain ⟨ev, rest, hbuffer, rfl⟩ := processNext_eq_some h
  unfold pending
  rw [hbuffer, List.length_cons]
  cases ev with
  | newOrder o =>
      have hmade := OrderBook.processOrder_potential hbook.allocated clock o p.results
      refine ⟨?_, (hbook.processOrder clock trivial p.results).1⟩
      simp only [processEvent, Option.toList_none, List.length_nil]
      dsimp only at hmade
      omega
  | cancelOrder t x u =>
      have hless := OrderBook.cancelOrder_restingPtrs_le p.book x.toUInt32 u
      have hrecord : ∀ o : Option CancelRecord, o.toList.length ≤ 1 := by
        intro o
        cases o <;> simp
      refine ⟨?_, hbook.cancelOrder x.toUInt32 u⟩
      have hone := hrecord ((p.book.cancelOrder x.toUInt32 u).2.map (cancelRecord now))
      simp only [processEvent]
      omega

theorem pending_pushRecords {out : OrderBookProcessor × List MatchRecord}
    (h : p.pushRecords = some out) : out.1.pending + 9 * out.2.length = p.pending ∧
      0 < out.2.length ∧ out.1.book = p.book := by
  obtain ⟨⟨-, hresults⟩, rfl⟩ := pushRecords_eq_some h
  refine ⟨?_, List.length_pos_iff.mpr hresults, rfl⟩
  unfold pending
  dsimp only [List.length_nil]
  omega

end OrderBookProcessor

namespace MatchingEngine

/-- What is in the hands of all workers. -/
def pending (engine : MatchingEngine) : ℕ :=
  engine.orderBooks.total fun _ p => p.pending

theorem pending_insert {engine : MatchingEngine} {t : UInt32} {p : OrderBookProcessor}
    (h : engine.orderBooks.lookup t = some p) (p' : OrderBookProcessor) :
    pending ⟨engine.orderBooks.insert t p'⟩ + p.pending = engine.pending + p'.pending := by
  unfold pending
  rw [UnorderedMap.total_of_lookup _ h]
  have hinsert := UnorderedMap.total_insert (fun _ p => OrderBookProcessor.pending p)
    engine.orderBooks t p'
  dsimp only
  omega

theorem pending_forward (engine : MatchingEngine) (ev : EngineEvent) :
    (WALManager.forward engine ev).1.pending ≤ engine.pending + 11 := by
  have hbooks := WALManager.forward_orderBooks engine ev
  cases hp : engine.orderBooks.lookup ev.tickerId with
  | none =>
      rw [hp] at hbooks
      unfold pending
      rw [hbooks]
      exact Nat.le_add_right _ _
  | some p =>
      rw [hp] at hbooks
      have hinsert := pending_insert hp (p.enqueue ev.delivered)
      rw [OrderBookProcessor.pending_enqueue] at hinsert
      have hsame : (WALManager.forward engine ev).1.pending
          = pending ⟨engine.orderBooks.insert ev.tickerId (p.enqueue ev.delivered)⟩ :=
        congrArg (fun m => UnorderedMap.total (fun _ p => OrderBookProcessor.pending p) m) hbooks
      omega

end MatchingEngine

/-! ### The settlement thread -/

def SettleStage.pending : SettleStage → ℕ
  | .call .deductBalance => 6
  | .call .updateStockHolding => 5
  | .call .updateBalance => 4
  | .call .deductStockHolding => 3
  | .commitBuy => 2
  | .commitSell => 1

theorem SettleCall.pending_next (k : SettleCall) :
    k.next.pending + 1 = (SettleStage.call k).pending := by
  cases k <;> rfl

namespace SettlementProcessor

/-- Records in the settlement thread's hands. -/
def pending (p : SettlementProcessor) : ℕ :=
  8 * p.queue.length + 7 * p.buffer.length + (p.current.elim 0 fun c => c.2.pending)
    + 2 * p.cancelQueue.length + p.cancelBuffer.length

/-- The thread is about to poll an empty queue while the other one is not. -/
def missed (p : SettlementProcessor) : Bool :=
  if p.cancelsNext then p.cancelQueue.isEmpty && !p.queue.isEmpty
  else p.queue.isEmpty && !p.cancelQueue.isEmpty

/-- The actions to come: two for each stage, as a poll may have to come first. -/
def rank (p : SettlementProcessor) : ℕ :=
  2 * p.pending + p.missed.toNat

variable {p p' : SettlementProcessor}

/-- What gets a stage done lowers the rank. -/
theorem rank_lt_of_pending (h : p'.pending + 1 ≤ p.pending) : p'.rank + 1 ≤ p.rank := by
  have hmissed := Bool.toNat_le p'.missed
  unfold rank
  omega

theorem rank_pushRecords_le (t : UInt32) (records : List MatchRecord) :
    (p.pushRecords t records).rank ≤ p.rank + 16 * records.length + 1 := by
  have hmissed := Bool.toNat_le (p.pushRecords t records).missed
  have hpending : (p.pushRecords t records).pending = p.pending + 8 * records.length := by
    unfold pending pushRecords
    rw [ProducerQueue.length_enqueue]
    dsimp only
    omega
  unfold rank
  omega

theorem rank_pushCancelRecord_le (t : UInt32) (rec : CancelRecord) :
    (p.pushCancelRecord t rec).rank ≤ p.rank + 5 := by
  have hmissed := Bool.toNat_le (p.pushCancelRecord t rec).missed
  have hpending : (p.pushCancelRecord t rec).pending = p.pending + 2 := by
    unfold pending pushCancelRecord
    rw [ProducerQueue.length_enqueue]
    dsimp only [List.length_singleton]
    omega
  unfold rank
  omega

theorem rank_dequeueRecords {picks : List UInt32} (h : p.dequeueRecords picks = some p')
    (hhonest : picks = [] → p.queue = []) :
    p'.rank + (!(picks.isEmpty && p.cancelQueue.isEmpty)).toNat ≤ p.rank := by
  obtain ⟨⟨hidle, hnext, -⟩, heq⟩ := Option.ite_none_right_eq_some.mp h
  obtain ⟨⟨batch, queue⟩, hdequeue, rfl⟩ := Option.map_eq_some_iff.mp heq
  obtain ⟨hbatch, hqueue⟩ := ProducerQueue.length_dequeueBulk hdequeue
  cases picks with
  | nil =>
      obtain rfl := List.length_eq_zero_iff.mp hbatch
      have hempty := hhonest rfl
      have hempty' : queue = [] := by
        rw [hempty] at hqueue
        exact List.length_eq_zero_iff.mp hqueue.symm
      simp [rank, pending, missed, hidle.1, hnext, hempty, hempty']
  | cons t picks =>
      rw [List.length_cons] at hbatch hqueue
      have hless : rank { p with queue := queue, buffer := batch, cancelsNext := true } + 1
          ≤ p.rank := by
        apply rank_lt_of_pending
        unfold pending
        rw [hidle.1]
        dsimp only [List.length_nil]
        omega
      exact (Nat.add_le_add_left (Bool.toNat_le _) _).trans hless

theorem rank_dequeueCancels {picks : List UInt32} (h : p.dequeueCancels picks = some p')
    (hhonest : picks = [] → p.cancelQueue = []) :
    p'.rank + (!(picks.isEmpty && p.queue.isEmpty)).toNat ≤ p.rank := by
  obtain ⟨⟨hidle, hnext, -⟩, heq⟩ := Option.ite_none_right_eq_some.mp h
  obtain ⟨⟨batch, queue⟩, hdequeue, rfl⟩ := Option.map_eq_some_iff.mp heq
  obtain ⟨hbatch, hqueue⟩ := ProducerQueue.length_dequeueBulk hdequeue
  cases picks with
  | nil =>
      obtain rfl := List.length_eq_zero_iff.mp hbatch
      have hempty := hhonest rfl
      have hempty' : queue = [] := by
        rw [hempty] at hqueue
        exact List.length_eq_zero_iff.mp hqueue.symm
      simp [rank, pending, missed, hidle.2.2, hnext, hempty, hempty']
  | cons t picks =>
      rw [List.length_cons] at hbatch hqueue
      have hless : rank { p with
          cancelQueue := queue, cancelBuffer := batch, cancelsNext := false } + 1 ≤ p.rank := by
        apply rank_lt_of_pending
        unfold pending
        rw [hidle.2.2]
        dsimp only [List.length_nil]
        omega
      exact (Nat.add_le_add_left (Bool.toNat_le _) _).trans hless

theorem rank_startRecord {users : UserManager} {tickers : TickerManager}
    (h : p.startRecord users tickers = some p') : p'.rank + 1 ≤ p.rank := by
  unfold startRecord at h
  split at h
  case h_2 => cases h
  case h_1 rec rest hcurrent hbuffer =>
    obtain rfl := Option.some.inj h
    apply rank_lt_of_pending
    unfold pending
    rw [hcurrent, hbuffer, List.length_cons]
    dsimp only [Option.elim, SettleStage.pending]
    omega

section Current

variable {job : SettleJob}

theorem rank_settleCall {k : SettleCall} (h : p.current = some (job, .call k)) :
    rank { p with current := some (job, k.next) } + 1 ≤ p.rank := by
  apply rank_lt_of_pending
  have hnext := k.pending_next
  simp only [pending, h, Option.elim]
  omega

theorem rank_commitBuy (h : p.current = some (job, .commitBuy)) :
    rank { p with current := some (job, .commitSell) } + 1 ≤ p.rank := by
  apply rank_lt_of_pending
  simp only [pending, h, Option.elim, SettleStage.pending]
  omega

theorem rank_commitSell (h : p.current = some (job, .commitSell)) :
    rank { p with current := none } + 1 ≤ p.rank := by
  apply rank_lt_of_pending
  simp only [pending, h, Option.elim, SettleStage.pending]
  omega

end Current

theorem rank_cancelRelease {rec : CancelRecord} {rest : List CancelRecord}
    (h : p.cancelBuffer = rec :: rest) : rank { p with cancelBuffer := rest } + 1 ≤ p.rank := by
  apply rank_lt_of_pending
  simp only [pending, h, List.length_cons]
  omega

end SettlementProcessor

/-! ### The server -/

namespace Exchange

/-- The actions still to come, at most. -/
def rank (s : Exchange) : ℕ :=
  2 * (15 * s.trading.length + s.depositing.length + s.wal.pending + s.engine.pending)
    + s.settlement.rank

end Exchange

/-- What a request brings in. -/
def Action.brings : Action → ℕ
  | .trade .. => 30
  | .cancel .. => 28
  | .deposit .. => 2
  | _ => 0

theorem Action.brings_of_thread {a : Action} {t : ServerThread} (h : a.thread = some t) :
    a.brings = 0 := by
  cases a with
  | createUserAccount => cases h
  | trade => cases h
  | cancel => cases h
  | deposit => cases h
  | _ => rfl

namespace Exchange

variable {s s' : Exchange} {a : Action}

/-- The books of the workers point to order objects. -/
def Allocated (s : Exchange) : Prop :=
  ∀ t p, s.engine.orderBooks.lookup t = some p → p.book.Allocated

theorem Allocated.step (h : s.Allocated) (hstep : s.step a = some s') : s'.Allocated := by
  have hinsert : ∀ (t : UInt32) (p : OrderBookProcessor), p.book.Allocated →
      ∀ t' p', (AList.insert t p s.engine.orderBooks).lookup t' = some p' →
        p'.book.Allocated := by
    intro t p hp t' p' hp'
    refine UnorderedMap.forall_lookup_insert (P := fun _ p => p.book.Allocated) hp ?_ t' p' hp'
    exact fun t p _ hp => h t p hp
  cases step_spec hstep with
  | logForward ev rest hwritten hbuffer =>
      intro t p hp
      change (WALManager.forward s.engine ev).1.orderBooks.lookup t = some p at hp
      rw [WALManager.forward_lookup] at hp
      obtain ⟨p₀, hp₀, rfl⟩ := Option.map_eq_some_iff.mp hp
      have hbook := h t p₀ hp₀
      split_ifs
      · exact hbook
      · exact hbook
  | workerDequeue t count p p' hp hp' =>
      obtain ⟨-, rfl⟩ := OrderBookProcessor.dequeue_eq_some hp'
      exact hinsert t _ (h t p hp)
  | workerProcess t clock now p out hp hout =>
      exact hinsert t _ (OrderBookProcessor.pending_processNext (h t p hp) hout).2
  | workerPush t p out hp hout =>
      have hbook := (OrderBookProcessor.pending_pushRecords hout).2.2
      exact hinsert t _ (hbook ▸ h t p hp)
  | _ => exact h

/-- **A useful action lowers the rank**, and only requests raise it. -/
theorem rank_step (h : s.Allocated) (hhonest : s.Honest a) (hstep : s.step a = some s') :
    s'.rank + (s.useful a).toNat ≤ s.rank + a.brings := by
  cases step_spec hstep with
  | createUserAccount uid username => exact Nat.le_refl _
  | tradeIgnored thread session req orderId now free login => exact Nat.le_add_right _ _
  | tradeRefused thread session req orderId now free login frozen => exact Nat.le_add_right _ _
  | tradeFrozen thread session req orderId now free login frozen =>
      simp only [rank, useful, Action.brings, Bool.toNat_false, ProducerQueue.length_enqueue,
        List.length_singleton]
      omega
  | appendOrder thread o trading hout =>
      have hqueue := ProducerQueue.length_dequeue hout
      simp only [rank, useful, Action.brings, Bool.toNat_true, WALManager.pending_appendOrder]
      omega
  | cancel thread session req free =>
      unfold CancelRequest.handle
      split_ifs
      · simp only [rank, useful, Action.brings, Bool.toNat_false, WALManager.pending_appendCancel]
        omega
      · exact Nat.le_add_right _ _
  | depositIgnored thread session req fault free h => exact Nat.le_add_right _ _
  | depositFailed thread session req fault free login pos returned => exact Nat.le_add_right _ _
  | depositWritten thread session req fault free login pos returned =>
      simp only [rank, useful, Action.brings, Bool.toNat_false, ProducerQueue.length_enqueue,
        List.length_singleton]
      omega
  | addBalance thread uid amount depositing hout =>
      have hqueue := ProducerQueue.length_dequeue hout
      simp only [rank, useful, Action.brings, Bool.toNat_true]
      omega
  | logDequeue picks wal hwal =>
      have hpending := WALManager.pending_dequeue hwal
      simp only [rank, useful, Action.brings]
      omega
  | logWrite now count wal hwal =>
      have hpending := WALManager.pending_write hwal hhonest
      simp only [rank, useful, Action.brings, Bool.toNat_true]
      omega
  | logForward ev rest hwritten hbuffer =>
      have hengine := MatchingEngine.pending_forward s.engine ev
      have hwal := WALManager.pending_forward hwritten hbuffer
      simp only [rank, useful, Action.brings, Bool.toNat_true]
      omega
  | workerDequeue t count p p' hp hp' =>
      have hworker := OrderBookProcessor.pending_dequeue hp'
      have hengine := MatchingEngine.pending_insert hp p'
      have hcount : (count != 0).toNat ≤ count := by
        cases count <;> simp
      simp only [rank, useful, Action.brings]
      omega
  | workerProcess t clock now p out hp hout =>
      have hworker := (OrderBookProcessor.pending_processNext (h t p hp) hout).1
      have hengine := MatchingEngine.pending_insert hp out.1
      have hrecord : (out.2.elim s.settlement (s.settlement.pushCancelRecord t)).rank
          ≤ s.settlement.rank + 5 * out.2.toList.length := by
        cases out.2 with
        | none => exact Nat.le_refl _
        | some rec => exact SettlementProcessor.rank_pushCancelRecord_le t rec
      have hone : out.2.toList.length ≤ 1 := by
        cases out.2 <;> simp
      simp only [rank, useful, Action.brings, Bool.toNat_true]
      omega
  | workerPush t p out hp hout =>
      obtain ⟨hworker, hrecords, -⟩ := OrderBookProcessor.pending_pushRecords hout
      have hengine := MatchingEngine.pending_insert hp out.1
      have hqueue := s.settlement.rank_pushRecords_le t out.2
      simp only [rank, useful, Action.brings, Bool.toNat_true]
      omega
  | settleDequeue picks settlement hout =>
      have hrank := SettlementProcessor.rank_dequeueRecords hout hhonest
      simp only [rank, useful, Action.brings]
      omega
  | settleStart settlement hout =>
      have hrank := SettlementProcessor.rank_startRecord hout
      simp only [rank, useful, Action.brings, Bool.toNat_true]
      omega
  | settleCall fault job k hcurrent =>
      have hrank := SettlementProcessor.rank_settleCall hcurrent
      simp only [rank, useful, Action.brings, Bool.toNat_true]
      omega
  | commitBuy job hcurrent =>
      have hrank := SettlementProcessor.rank_commitBuy hcurrent
      simp only [rank, useful, Action.brings, Bool.toNat_true]
      omega
  | commitSell job hcurrent =>
      have hrank := SettlementProcessor.rank_commitSell hcurrent
      simp only [rank, useful, Action.brings, Bool.toNat_true]
      omega
  | cancelDequeue picks settlement hout =>
      have hrank := SettlementProcessor.rank_dequeueCancels hout hhonest
      simp only [rank, useful, Action.brings]
      omega
  | cancelRelease rec rest hcurrent hbuffer hcancels =>
      have hrank := SettlementProcessor.rank_cancelRelease hcancels
      simp only [rank, useful, Action.brings, Bool.toNat_true]
      omega

/-- A busy thread gets something done. -/
theorem useful_of_busy {t : ServerThread} (hthread : a.thread = some t) (hbusy : s.Busy t)
    (hhonest : s.Honest a) (hstep : s.step a = some s') : s.useful a = true := by
  cases step_spec hstep with
  | createUserAccount | tradeIgnored | tradeRefused | tradeFrozen | cancel | depositIgnored
  | depositFailed | depositWritten => cases hthread
  | logDequeue picks wal hwal =>
      obtain ⟨hidle, -⟩ := WALManager.dequeue_eq_some hwal
      obtain rfl := Option.some.inj hthread
      have hqueue : s.wal.queue ≠ [] := hbusy.resolve_left fun hbuffer => hbuffer hidle
      cases picks with
      | nil => exact absurd (hhonest rfl) hqueue
      | cons => rfl
  | workerDequeue t count p p' hp hp' =>
      obtain ⟨⟨hbuffer, hresults, -, -⟩, -⟩ := OrderBookProcessor.dequeue_eq_some hp'
      obtain rfl := Option.some.inj hthread
      obtain ⟨p₀, hp₀, hwork⟩ := hbusy
      obtain rfl := Option.some.inj (hp.symm.trans hp₀)
      have hqueue : p.queue ≠ [] :=
        (hwork.resolve_left fun h => h hbuffer).resolve_left fun h => h hresults
      cases count with
      | zero => exact absurd (hhonest rfl p hp) hqueue
      | succ => rfl
  | settleDequeue picks settlement hout =>
      obtain ⟨⟨hidle, -, -⟩, -⟩ := Option.ite_none_right_eq_some.mp hout
      obtain rfl := Option.some.inj hthread
      have hqueues := hbusy.resolve_left fun h => h hidle
      cases picks with
      | nil =>
          have hcancels := hqueues.resolve_left fun h => h (hhonest rfl)
          simpa [useful] using hcancels
      | cons => rfl
  | cancelDequeue picks settlement hout =>
      obtain ⟨⟨hidle, -, -⟩, -⟩ := Option.ite_none_right_eq_some.mp hout
      obtain rfl := Option.some.inj hthread
      have hqueues := hbusy.resolve_left fun h => h hidle
      cases picks with
      | nil =>
          have hrecords := hqueues.resolve_right fun h => h (hhonest rfl)
          simpa [useful] using hrecords
      | cons => rfl
  | _ => rfl

/-! Others leave a thread what it has to do. -/

theorem ProducerQueue.mem_enqueue {P α : Type*} {q : ProducerQueue P α} {p p' : P} {as : List α}
    (h : p ∈ q.map Prod.fst) : p ∈ (q.enqueue p' as).map Prod.fst := by
  rw [ProducerQueue.enqueue, List.map_append]
  exact List.mem_append_left _ h

theorem busy_handler {thread : ThreadId} (hbusy : s.Busy (.handler thread))
    (hthread : a.thread ≠ some (.handler thread)) (hstep : s.step a = some s') :
    s'.Busy (.handler thread) := by
  cases step_spec hstep with
  | tradeFrozen thread' session req orderId now free login frozen =>
      exact hbusy.imp_left ProducerQueue.mem_enqueue
  | appendOrder thread' o trading hout =>
      have hne : thread ≠ thread' := fun h => hthread (h ▸ rfl)
      exact hbusy.imp_left (ProducerQueue.mem_dequeue hout hne)
  | depositWritten thread' session req fault free login pos returned =>
      exact hbusy.imp_right ProducerQueue.mem_enqueue
  | addBalance thread' uid amount depositing hout =>
      have hne : thread ≠ thread' := fun h => hthread (h ▸ rfl)
      exact hbusy.imp_right (ProducerQueue.mem_dequeue hout hne)
  | _ => exact hbusy

theorem busy_log (hbusy : s.Busy .log) (hthread : a.thread ≠ some .log)
    (hstep : s.step a = some s') : s'.Busy .log := by
  have henqueue : ∀ (q : ProducerQueue ThreadId EngineEvent) (thread : ThreadId)
      (ev : EngineEvent), q.enqueue thread [ev] ≠ [] := fun q thread ev =>
    List.append_ne_nil_of_right_ne_nil _ (List.cons_ne_nil _ _)
  cases step_spec hstep with
  | appendOrder thread o trading hout => exact .inr (henqueue _ _ _)
  | cancel thread session req free =>
      unfold CancelRequest.handle
      split_ifs
      · exact .inr (henqueue _ _ _)
      · exact hbusy
  | logDequeue | logWrite | logForward => exact absurd rfl hthread
  | _ => exact hbusy

theorem busy_worker {t : UInt32} (hbusy : s.Busy (.worker t))
    (hthread : a.thread ≠ some (.worker t)) (hstep : s.step a = some s') :
    s'.Busy (.worker t) := by
  obtain ⟨p, hp, hwork⟩ := hbusy
  have hothers : ∀ {t' : UInt32} (p' : OrderBookProcessor), Action.thread a = some (.worker t') →
      (AList.insert t' p' s.engine.orderBooks).lookup t = some p := by
    intro t' p' ht'
    have hne : t ≠ t' := fun h => hthread (by rw [ht', h])
    rw [UnorderedMap.lookup_insert_eq, if_neg hne]
    exact hp
  cases step_spec hstep with
  | logForward ev rest hwritten hbuffer =>
      refine ⟨_, (WALManager.forward_lookup ..).trans (congrArg _ hp), ?_⟩
      split_ifs
      · exact .inr (.inr (List.append_ne_nil_of_right_ne_nil _ (List.cons_ne_nil _ _)))
      · exact hwork
  | workerDequeue t' count p₀ p' hp₀ hp' => exact ⟨p, hothers p' rfl, hwork⟩
  | workerProcess t' clock now p₀ out hp₀ hout => exact ⟨p, hothers out.1 rfl, hwork⟩
  | workerPush t' p₀ out hp₀ hout => exact ⟨p, hothers out.1 rfl, hwork⟩
  | _ => exact ⟨p, hp, hwork⟩

theorem busy_settlement (hbusy : s.Busy .settlement) (hthread : a.thread ≠ some .settlement)
    (hstep : s.step a = some s') : s'.Busy .settlement := by
  cases step_spec hstep with
  | workerProcess t clock now p out hp hout =>
      cases out.2 with
      | none => exact hbusy
      | some rec =>
          exact .inr (.inr (List.append_ne_nil_of_right_ne_nil _ (List.cons_ne_nil _ _)))
  | workerPush t p out hp hout =>
      refine hbusy.imp_right fun hqueues => hqueues.imp_left fun hqueue => ?_
      exact List.append_ne_nil_of_left_ne_nil hqueue _
  | settleDequeue | settleStart | settleCall | commitBuy | commitSell | cancelDequeue
  | cancelRelease => exact absurd rfl hthread
  | _ => exact hbusy

theorem busy_step {t : ServerThread} (hbusy : s.Busy t) (hthread : a.thread ≠ some t)
    (hstep : s.step a = some s') : s'.Busy t := by
  cases t with
  | handler thread => exact busy_handler hbusy hthread hstep
  | log => exact busy_log hbusy hthread hstep
  | worker t => exact busy_worker hbusy hthread hstep
  | settlement => exact busy_settlement hbusy hthread hstep

/-! A busy thread is not stuck. -/

theorem exists_dequeueBulk {P α : Type*} [DecidableEq P] {q : ProducerQueue P α} (h : q ≠ []) :
    ∃ picks, picks ≠ [] ∧ picks.length ≤ batchSize ∧
      (ProducerQueue.dequeueBulk picks q).isSome = true := by
  obtain ⟨⟨p, b⟩, rest, rfl⟩ := List.exists_cons_of_ne_nil h
  refine ⟨[p], List.cons_ne_nil _ _, Nat.succ_le_succ (Nat.zero_le _), ?_⟩
  simp [ProducerQueue.dequeueBulk, ProducerQueue.dequeue]

theorem able_worker {t : UInt32} (hbusy : s.Busy (.worker t)) :
    ∃ a, Action.thread a = some (.worker t) ∧ s.Honest a ∧ (s.step a).isSome = true := by
  obtain ⟨p, hp, hwork⟩ := hbusy
  cases hbuffer : p.buffer with
  | cons ev rest =>
      refine ⟨.workerProcess t (fun _ => 0) 0, rfl, trivial, ?_⟩
      simp [step, workerProcess, hp, OrderBookProcessor.processNext, hbuffer]
  | nil =>
      by_cases hresults : p.results = []
      · have hqueue : p.queue ≠ [] :=
          (hwork.resolve_left fun h => h hbuffer).resolve_left fun h => h hresults
        have hready : p.buffer = [] ∧ p.results = [] ∧ 1 ≤ batchSize ∧ 1 ≤ p.queue.length :=
          ⟨hbuffer, hresults, Nat.succ_le_succ (Nat.zero_le _), List.length_pos_iff.mpr hqueue⟩
        refine ⟨.workerDequeue t 1, rfl, fun h => absurd h Nat.one_ne_zero, ?_⟩
        simp only [step, workerDequeue, hp, Option.bind_some, OrderBookProcessor.dequeue,
          if_pos hready]
        rfl
      · refine ⟨.workerPush t, rfl, trivial, ?_⟩
        simp [step, workerPush, hp, OrderBookProcessor.pushRecords, hbuffer, hresults]

theorem able_poll (hidle : s.settlement.Idle) :
    ∃ a, Action.thread a = some .settlement ∧ s.Honest a ∧ (s.step a).isSome = true := by
  cases hnext : s.settlement.cancelsNext with
  | false =>
      by_cases hqueue : s.settlement.queue = []
      · refine ⟨.settleDequeue [], rfl, fun _ => hqueue, ?_⟩
        simp [step, SettlementProcessor.dequeueRecords, hidle, hnext, ProducerQueue.dequeueBulk]
      · obtain ⟨picks, hne, hlength, hout⟩ := exists_dequeueBulk hqueue
        refine ⟨.settleDequeue picks, rfl, fun h => absurd h hne, ?_⟩
        simpa [step, SettlementProcessor.dequeueRecords, hidle, hnext, hlength] using hout
  | true =>
      by_cases hqueue : s.settlement.cancelQueue = []
      · refine ⟨.cancelDequeue [], rfl, fun _ => hqueue, ?_⟩
        simp [step, SettlementProcessor.dequeueCancels, hidle, hnext, ProducerQueue.dequeueBulk]
      · obtain ⟨picks, hne, hlength, hout⟩ := exists_dequeueBulk hqueue
        refine ⟨.cancelDequeue picks, rfl, fun h => absurd h hne, ?_⟩
        simpa [step, SettlementProcessor.dequeueCancels, hidle, hnext, hlength] using hout

theorem able_settlement :
    ∃ a, Action.thread a = some .settlement ∧ s.Honest a ∧ (s.step a).isSome = true := by
  cases hcurrent : s.settlement.current with
  | some c =>
      obtain ⟨job, stage⟩ := c
      cases stage with
      | call k => exact ⟨.settleCall none, rfl, trivial, by simp [step, settleCall, hcurrent]⟩
      | commitBuy => exact ⟨.commitBuy, rfl, trivial, by simp [step, commitBuy, hcurrent]⟩
      | commitSell => exact ⟨.commitSell, rfl, trivial, by simp [step, commitSell, hcurrent]⟩
  | none =>
      cases hbuffer : s.settlement.buffer with
      | cons rec rest =>
          refine ⟨.settleStart, rfl, trivial, ?_⟩
          simp [step, SettlementProcessor.startRecord, hcurrent, hbuffer]
      | nil =>
          cases hcancels : s.settlement.cancelBuffer with
          | cons rec rest =>
              refine ⟨.cancelRelease, rfl, trivial, ?_⟩
              simp [step, cancelRelease, hcurrent, hbuffer, hcancels]
          | nil => exact able_poll ⟨hbuffer, by rw [hcurrent]; rfl, hcancels⟩

/-- **A busy thread can act.** -/
theorem able {t : ServerThread} (hbusy : s.Busy t) :
    ∃ a, Action.thread a = some t ∧ s.Honest a ∧ (s.step a).isSome = true := by
  cases t with
  | handler thread =>
      rcases hbusy with htrading | hdepositing
      · obtain ⟨o, trading, hout⟩ := ProducerQueue.exists_dequeue htrading
        exact ⟨.appendOrder thread, rfl, trivial, by simp [step, appendOrder, hout]⟩
      · obtain ⟨d, depositing, hout⟩ := ProducerQueue.exists_dequeue hdepositing
        exact ⟨.addBalance thread, rfl, trivial, by simp [step, addBalance, hout]⟩
  | log =>
      cases hbuffer : s.wal.buffer with
      | cons ev rest =>
          have hne : s.wal.buffer ≠ [] := by
            rw [hbuffer]
            exact List.cons_ne_nil _ _
          cases hwritten : s.wal.written with
          | true =>
              exact ⟨.logForward, rfl, trivial, by simp [step, logForward, hwritten, hbuffer]⟩
          | false =>
              exact ⟨.logWrite (fun _ => 0) 0, rfl, hne, by
                simp [step, WALManager.write, hwritten]⟩
      | nil =>
          obtain ⟨picks, hne, hlength, hout⟩ :=
            exists_dequeueBulk (hbusy.resolve_left fun h => h hbuffer)
          refine ⟨.logDequeue picks, rfl, fun h => absurd h hne, ?_⟩
          simpa [step, WALManager.dequeue, hbuffer, hlength] using hout
  | worker t => exact able_worker hbusy
  | settlement => exact able_settlement

/-! ## Everything is worked off -/

/-- The threads of the server work off what the clients bring in. -/
def workload : Workload step ServerThread where
  Inv := Allocated
  inv_step h _ := h.step
  thread := Action.thread
  Busy := Busy
  Honest := Honest
  useful := useful
  rank := rank
  brings := Action.brings
  brings_thread := Action.brings_of_thread
  rank_step := rank_step
  useful_of_busy := useful_of_busy
  busy_step := busy_step
  able _ := able

section Start

variable (users : UserManager) (tickers : TickerManager) (db : Database)
  (walFile : Option (List WALRecord))

theorem start_allocated : (start users tickers db walFile).Allocated := by
  intro t p hp
  rw [lookup_start] at hp
  split_ifs at hp
  obtain rfl := Option.some.inj hp
  exact OrderBook.OwnedBy.new t

theorem rank_start : (start users tickers db walFile).rank = 0 := by
  have hworkers : (start users tickers db walFile).engine.pending = 0 := by
    refine List.sum_eq_zero fun n hn => ?_
    obtain ⟨⟨t, p⟩, hp, rfl⟩ := List.mem_map.mp hn
    have hlookup := (UnorderedMap.mem_entries_iff _ t p).mp hp
    rw [lookup_start] at hlookup
    split_ifs at hlookup
    obtain rfl := Option.some.inj hlookup
    rfl
  have hfront : (start users tickers db walFile).rank
      = 2 * (start users tickers db walFile).engine.pending := by
    unfold rank
    simp [start, WALManager.pending, WALManager.new, SettlementProcessor.rank,
      SettlementProcessor.pending, SettlementProcessor.missed, SettlementProcessor.new]
  rw [hfront, hworkers]

end Start

/-- Nothing is on its way: what is left are the orders that rest. -/
structure Quiet (s : Exchange) : Prop where
  trading : s.trading = []
  depositing : s.depositing = []
  log : s.wal.queue = [] ∧ s.wal.buffer = []
  workers : ∀ t p, s.engine.orderBooks.lookup t = some p →
    p.queue = [] ∧ p.buffer = [] ∧ p.results = []
  records : s.settlement.queue = []
  cancels : s.settlement.cancelQueue = []
  idle : s.settlement.Idle

theorem Quiet.of_idle (h : ∀ t, ¬ s.Busy t) : s.Quiet where
  trading := by
    by_contra hne
    obtain ⟨⟨thread, o⟩, rest, heq⟩ := List.exists_cons_of_ne_nil hne
    exact h (.handler thread) (.inl (by rw [heq]; exact List.mem_cons_self))
  depositing := by
    by_contra hne
    obtain ⟨⟨thread, d⟩, rest, heq⟩ := List.exists_cons_of_ne_nil hne
    exact h (.handler thread) (.inr (by rw [heq]; exact List.mem_cons_self))
  log := by
    have hlog := not_or.mp (h .log)
    exact ⟨not_not.mp hlog.2, not_not.mp hlog.1⟩
  workers t p hp := by
    have hworker := fun hwork => h (.worker t) ⟨p, hp, hwork⟩
    rw [imp_false, not_or, not_or, not_not, not_not, not_not] at hworker
    exact ⟨hworker.2.2, hworker.1, hworker.2.1⟩
  records := not_not.mp (not_or.mp (not_or.mp (h .settlement)).2).1
  cancels := not_not.mp (not_or.mp (not_or.mp (h .settlement)).2).2
  idle := not_not.mp (not_or.mp (h .settlement)).1

/-- With nothing to come, nobody is busy. -/
theorem not_busy_of_rank (h : s.Allocated) (hrank : s.rank = 0) (t : ServerThread) :
    ¬ s.Busy t := by
  intro hbusy
  obtain ⟨a, hthread, hhonest, hable⟩ := able hbusy
  obtain ⟨s', hstep⟩ := Option.isSome_iff_exists.mp hable
  have hlt := workload.rank_lt h hhonest hthread hbusy hstep
  exact absurd hlt (by rw [show workload.rank s = 0 from hrank]; exact Nat.not_lt_zero _)

theorem brings_le (actions : List Action) :
    total Action.brings actions ≤ 30 * actions.countP fun a => a.thread.isNone := by
  induction actions with
  | nil => exact Nat.le_refl _
  | cons a actions ih =>
      rw [total_cons, List.countP_cons]
      cases hthread : a.thread with
      | some t =>
          rw [Action.brings_of_thread hthread]
          simpa using ih
      | none =>
          have hle : a.brings ≤ 30 := by
            cases a <;> simp [Action.brings]
          simp only [Option.isNone_none, if_true]
          omega

end Exchange

/-- **Work is bounded by what was asked for, and never stuck.**  In every run the useful
actions are at most 30 for each request, including those of a continuation that leaves
nothing on its way. -/
theorem work_le_requests (users : UserManager) (tickers : TickerManager) (db : Database)
    (walFile : Option (List WALRecord)) (actions : List Action) (s : Exchange)
    (hhonest : Along Exchange.step Exchange.Honest (Exchange.start users tickers db walFile)
      actions)
    (hrun : runs Exchange.step (Exchange.start users tickers db walFile) actions = some s) :
    ∃ more s', runs Exchange.step s more = some s' ∧ s'.Quiet ∧
      (∀ a ∈ more, (Action.thread a).isSome) ∧ Along Exchange.step Exchange.Honest s more ∧
      Exchange.workload.worked (Exchange.start users tickers db walFile) actions + more.length
        ≤ 30 * actions.countP fun a => a.thread.isNone := by
  have hinv := Exchange.start_allocated users tickers db walFile
  have hwork := Exchange.workload.work_le hinv hhonest hrun
  have hzero : Exchange.workload.rank (Exchange.start users tickers db walFile) = 0 :=
    Exchange.rank_start users tickers db walFile
  obtain ⟨more, s', hmore, hlength, hthreads, halong, hidle⟩ :=
    Exchange.workload.drains (Exchange.workload.inv_runs hinv hhonest hrun)
  refine ⟨more, s', hmore, .of_idle hidle, hthreads, halong, ?_⟩
  have hbrought : Exchange.workload.brought actions
      ≤ 30 * actions.countP fun a => a.thread.isNone := Exchange.brings_le actions
  omega

/-- Bob offers three shares, alice buys them, and nothing is left of either order. -/
def fillActions : List Action :=
  [.trade 0 ⟨"bob", 2⟩ ⟨1, 1, 100, 3⟩ 11 0, .trade 1 ⟨"alice", 1⟩ ⟨1, 0, 101, 3⟩ 12 0,
    .appendOrder 0, .appendOrder 1, .logDequeue [0, 1], .logWrite (fun _ => 0) 2,
    .logForward, .logForward, .workerDequeue 1 2, .workerProcess 1 (fun _ => 0) 0,
    .workerProcess 1 (fun _ => 0) 0, .workerPush 1, .settleDequeue [1], .settleStart,
    .settleCall none, .settleCall none, .settleCall none, .settleCall none, .commitBuy,
    .commitSell, .logDequeue []]

def fillEnd : Exchange :=
  runsTo Exchange.step (Exchange.start tradeUsers sampleTickers sampleDb none) fillActions

theorem fillEnd_run :
    runs Exchange.step (Exchange.start tradeUsers sampleTickers sampleDb none) fillActions
      = some fillEnd :=
  runs_eq_runsTo _ (by decide)

theorem fillActions_honest :
    Along Exchange.step Exchange.Honest (Exchange.start tradeUsers sampleTickers sampleDb none)
      fillActions := by
  decide

theorem work_le_requests_fill :
    ∃ more s', runs Exchange.step fillEnd more = some s' ∧ s'.Quiet ∧
      (∀ a ∈ more, (Action.thread a).isSome) ∧ Along Exchange.step Exchange.Honest fillEnd more ∧
      Exchange.workload.worked (Exchange.start tradeUsers sampleTickers sampleDb none) fillActions
        + more.length ≤ 30 * fillActions.countP fun a => a.thread.isNone :=
  work_le_requests tradeUsers sampleTickers sampleDb none fillActions fillEnd fillActions_honest
    fillEnd_run

/-- **Every request is worked off.**  If requests cease and no busy thread is left waiting
for ever, then in the end nothing is on its way. -/
theorem requests_worked_off (users : UserManager) (tickers : TickerManager) (db : Database)
    (walFile : Option (List WALRecord)) (r : InfiniteRun Exchange.step)
    (hstart : r.state 0 = Exchange.start users tickers db walFile)
    (hhonest : ∀ n, (r.state n).Honest (r.action n))
    (hquiet : ∀ᶠ n in atTop, (r.action n).thread.isSome)
    (hfair : ∀ t, (∀ᶠ n in atTop, (r.state n).Busy t) →
      ∃ᶠ n in atTop, (r.action n).thread = some t) :
    ∀ᶠ n in atTop, (r.state n).Quiet := by
  have hinv : Exchange.workload.Inv (r.state 0) := by
    rw [hstart]
    exact Exchange.start_allocated users tickers db walFile
  have hidle := Workload.eventually_idle (w := Exchange.workload) r hinv hhonest hquiet hfair
  exact hidle.mono fun n hn => .of_idle hn

/-- A poll of the empty log queue. -/
theorem logDequeue_nil {s : Exchange} (hbuffer : s.wal.buffer = [])
    (hwritten : s.wal.written = false) : s.step (.logDequeue []) = some s := by
  obtain ⟨users, tickers, db, trading, depositing, ⟨queue, buffer, written, walFile⟩, engine,
    settlement, history⟩ := s
  dsimp only at hbuffer hwritten
  subst hbuffer hwritten
  rfl

/-- The log thread polls for ever. -/
def fillForever : InfiniteRun Exchange.step :=
  InfiniteRun.ending fillEnd_run (logDequeue_nil (by decide) (by decide))

theorem requests_worked_off_fill : ∀ᶠ n in atTop, (fillForever.state n).Quiet := by
  refine requests_worked_off tradeUsers sampleTickers sampleDb none fillForever rfl ?_ ?_ ?_
  · exact InfiniteRun.ending_along fillEnd_run _ fillActions_honest (by decide)
  · refine eventually_atTop.mpr ⟨fillActions.length, fun n hn => ?_⟩
    rw [fillForever, InfiniteRun.ending_action _ _ hn]
    rfl
  · intro t hbusy
    obtain ⟨n, hbusy, hn⟩ := (hbusy.and (eventually_ge_atTop fillActions.length)).exists
    rw [fillForever, InfiniteRun.ending_state _ _ hn] at hbusy
    have hallocated := Exchange.workload.inv_runs
      (Exchange.start_allocated tradeUsers sampleTickers sampleDb none) fillActions_honest
      fillEnd_run
    exact absurd hbusy (Exchange.not_busy_of_rank hallocated (by decide) t)

end ExchangeServer
