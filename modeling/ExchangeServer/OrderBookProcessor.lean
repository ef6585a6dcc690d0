import ExchangeServer.Lib.Runs
import ExchangeServer.OrderBook.Runs

/-!
# The worker of one ticker

`OrderBookProcessor.hpp`.  Its loop takes a batch of events from the queue, makes
one book call for each, pushes a cancel record at once and the match records of
the batch at its end.  `dequeue`, `processEvent` and `pushRecords` are the three
parts of one loop iteration; other threads may act between any two of them, so
each is a step of its own.

`ProcessorSim` ties a worker to the flat book and its `Ledger`, and carries the
per-order account of quantities (`quantity_ledger`).
-/

namespace ExchangeServer

open Lib PriceTime

/-- `batch_size` of the worker loops. -/
def batchSize : ℕ := 1000

/-! ## The loop -/

/-- `OrderBookProcessor`.  `buffer` holds the events of the current batch that are
still to be processed, `results` its match records that are still to be pushed:
once pushed, nothing reads the vector before `results.clear()`. -/
structure OrderBookProcessor where
  tickerId : UInt32
  book : OrderBook
  queue : List EngineEvent
  buffer : List EngineEvent
  results : List MatchRecord

namespace OrderBookProcessor

/-- `OrderBookProcessor::OrderBookProcessor`. -/
def new (tickerId : UInt32) : OrderBookProcessor where
  tickerId := tickerId
  book := OrderBook.new tickerId
  queue := []
  buffer := []
  results := []

/-- `OrderBookProcessor::enqueue`.  The queue has one producer, the log thread, so
it is first in, first out. -/
def enqueue (p : OrderBookProcessor) (ev : EngineEvent) : OrderBookProcessor :=
  { p with queue := p.queue ++ [ev] }

/-- `wait_dequeue_bulk_timed(buffer, batch_size, ..)`, which yields `count`
events, then `results.clear()`. -/
def dequeue (p : OrderBookProcessor) (count : ℕ) : Option OrderBookProcessor :=
  if p.buffer = [] ∧ p.results = [] ∧ count ≤ batchSize ∧ count ≤ p.queue.length then
    some { p with buffer := p.queue.take count, queue := p.queue.drop count }
  else none

/-- The cancel record the loop fills in from the order `cancelOrder` returned. -/
def cancelRecord (now : UInt64) (canceledOrder : Order) : CancelRecord where
  tickerId := canceledOrder.tickerId
  orderId := canceledOrder.orderId
  userId := canceledOrder.userId
  side := canceledOrder.side
  price := canceledOrder.price
  quantity := canceledOrder.quantity
  timestamp := now

/-- The body of the `for` loop.  `event.cancel_order_id` is a `uint64_t`; passing
it for `const uint32_t&` keeps its low 32 bits. -/
def processEvent (clock : ℕ → UInt64) (now : UInt64) (p : OrderBookProcessor) :
    EngineEvent → OrderBookProcessor × Option CancelRecord
  | .newOrder order =>
      let out := p.book.processOrder clock order p.results
      ({ p with book := out.1, results := out.2 }, none)
  | .cancelOrder _ cancelOrderId cancelUserId =>
      let out := p.book.cancelOrder cancelOrderId.toUInt32 cancelUserId
      ({ p with book := out.1 }, out.2.map (cancelRecord now))

/-- The next event of the batch. -/
def processNext (clock : ℕ → UInt64) (now : UInt64) (p : OrderBookProcessor) :
    Option (OrderBookProcessor × Option CancelRecord) :=
  match p.buffer with
  | [] => none
  | ev :: rest => some (processEvent clock now { p with buffer := rest } ev)

/-- The end of an iteration: `pushRecords(results)`. -/
def pushRecords (p : OrderBookProcessor) : Option (OrderBookProcessor × List MatchRecord) :=
  if p.buffer = [] ∧ p.results ≠ [] then some ({ p with results := [] }, p.results) else none

theorem dequeue_eq_some {p p' : OrderBookProcessor} {count : ℕ} (h : p.dequeue count = some p') :
    (p.buffer = [] ∧ p.results = [] ∧ count ≤ batchSize ∧ count ≤ p.queue.length) ∧
      p' = { p with buffer := p.queue.take count, queue := p.queue.drop count } := by
  obtain ⟨hidle, heq⟩ := Option.ite_none_right_eq_some.mp h
  exact ⟨hidle, (Option.some.inj heq).symm⟩

theorem processNext_eq_some {p : OrderBookProcessor} {clock : ℕ → UInt64} {now : UInt64}
    {out : OrderBookProcessor × Option CancelRecord} (h : p.processNext clock now = some out) :
    ∃ ev rest, p.buffer = ev :: rest ∧
      out = processEvent clock now { p with buffer := rest } ev := by
  unfold processNext at h
  split at h
  case h_1 => cases h
  case h_2 ev rest hbuffer => exact ⟨ev, rest, hbuffer, (Option.some.inj h).symm⟩

theorem pushRecords_eq_some {p : OrderBookProcessor} {out : OrderBookProcessor × List MatchRecord}
    (h : p.pushRecords = some out) :
    (p.buffer = [] ∧ p.results ≠ []) ∧ out = ({ p with results := [] }, p.results) := by
  obtain ⟨hready, heq⟩ := Option.ite_none_right_eq_some.mp h
  exact ⟨hready, (Option.some.inj heq).symm⟩

/-- `OrderBookProcessor::getUserOrder`. -/
def getUserOrder (p : OrderBookProcessor) (uid : UInt64) : List Order :=
  p.book.getUserActiveOrder uid

end OrderBookProcessor

/-! ## What a worker emits -/

/-- A record a worker makes, in the order the loop makes them. -/
inductive Emission where
  | trade (rec : MatchRecord)
  | cancel (rec : CancelRecord)
deriving DecidableEq, Repr

namespace Emission

/-- The record with its clock reading blanked out. -/
def untimed : Emission → Emission
  | trade rec => trade rec.untimed
  | cancel rec => cancel { rec with timestamp := 0 }

/-- The record names the order `x`. -/
def Names (x : UInt64) : Emission → Prop
  | trade rec => rec.makerOrderId = x ∨ rec.takerOrderId = x
  | cancel rec => rec.orderId = x

instance (x : UInt64) : DecidablePred (Names x) := fun e => by
  cases e <;> (unfold Names; infer_instance)

/-- The match record, if it is one. -/
def trade? : Emission → Option MatchRecord
  | trade rec => some rec
  | cancel _ => none

/-- The cancel record, if it is one. -/
def cancel? : Emission → Option CancelRecord
  | trade _ => none
  | cancel rec => some rec

end Emission

/-- The records an event adds: those `processOrder` appended to the results
vector, or the one a cancellation made. -/
def emitted (before after : List MatchRecord) (cancel : Option CancelRecord) : List Emission :=
  (after.drop before.length).map Emission.trade ++ cancel.toList.map Emission.cancel

theorem emitted_trade? (before pushed : List MatchRecord) (cancel : Option CancelRecord) :
    (emitted before (before ++ pushed) cancel).filterMap Emission.trade? = pushed := by
  have hcancel : (cancel.toList.map Emission.cancel).filterMap Emission.trade? = [] := by
    cases cancel <;> rfl
  rw [emitted, List.drop_left, List.filterMap_append, hcancel, List.append_nil,
    List.filterMap_map]
  exact List.filterMap_some

theorem emitted_cancel? (before after : List MatchRecord) (cancel : Option CancelRecord) :
    (emitted before after cancel).filterMap Emission.cancel? = cancel.toList := by
  have htrades : ((after.drop before.length).map Emission.trade).filterMap Emission.cancel?
      = [] := by
    rw [List.filterMap_map]
    exact List.filterMap_eq_nil_iff.mpr fun _ _ => rfl
  rw [emitted, List.filterMap_append, htrades, List.nil_append, List.filterMap_map]
  exact List.filterMap_some

/-- The record of an entry, its clock reading left blank. -/
def PriceTime.Entry.emission (tickerId : UInt32) : Entry → Emission
  | .trade f => .trade (f.record tickerId)
  | .cancel o => .cancel (OrderBookProcessor.cancelRecord 0 o)

/-- A worker, the orders it has processed and the records it has made, with the
flat book and the history behind them. -/
structure ProcessorSim (submitted : List Order) (log : List Emission) (p : OrderBookProcessor)
    (entries : List Entry) (resting : List Order) : Prop where
  simulates : Simulates p.book resting
  ledger : Ledger submitted entries resting
  log : log.map Emission.untimed = entries.map (Entry.emission p.tickerId)
  ticker : p.book.tickerId = p.tickerId

namespace ProcessorSim

variable {submitted : List Order} {log : List Emission} {p : OrderBookProcessor}
  {entries : List Entry} {resting : List Order}

theorem new (tickerId : UInt32) : ProcessorSim [] [] (OrderBookProcessor.new tickerId) [] [] where
  simulates := Simulates.new tickerId
  ledger := Ledger.nil
  log := rfl
  ticker := rfl

/-- The queue, the buffer and the results vector play no part. -/
theorem congr (h : ProcessorSim submitted log p entries resting) (p' : OrderBookProcessor)
    (hbook : p'.book = p.book) (hticker : p'.tickerId = p.tickerId) :
    ProcessorSim submitted log p' entries resting where
  simulates := hbook ▸ h.simulates
  ledger := h.ledger
  log := hticker ▸ h.log
  ticker := by rw [hbook, hticker, h.ticker]

/-- A match record in the log is the record of a trade. -/
theorem trade_mem (h : ProcessorSim submitted log p entries resting) {rec : MatchRecord}
    (hrec : rec ∈ log.filterMap Emission.trade?) :
    ∃ f, Entry.trade f ∈ entries ∧ rec.untimed = f.record p.tickerId := by
  obtain ⟨em, hem, htrade⟩ := List.mem_filterMap.mp hrec
  cases em with
  | cancel c => cases htrade
  | trade rec' =>
      obtain rfl := Option.some.inj htrade
      obtain ⟨e, he, heq⟩ := List.mem_map.mp (h.log ▸ List.mem_map_of_mem hem)
      cases e with
      | cancel o => cases heq
      | trade f => exact ⟨f, he, (Emission.trade.inj heq).symm⟩

/-- **One event keeps the account**, given that an order it brings has a fresh id. -/
theorem processEvent (h : ProcessorSim submitted log p entries resting) (clock : ℕ → UInt64)
    (now : UInt64) (ev : EngineEvent)
    (hids : DistinctIds (submitted ++ ev.order?.toList)) :
    let out := p.processEvent clock now ev
    (∃ pushed, out.1.results = p.results ++ pushed) ∧
      ∃ entries' resting',
        ProcessorSim (submitted ++ ev.order?.toList)
          (log ++ emitted p.results out.1.results out.2) out.1 entries' resting' := by
  cases ev with
  | newOrder o =>
      have hfresh : o.orderId ∉ submitted.map Order.orderId := by
        unfold DistinctIds at hids
        rw [List.map_append] at hids
        exact fun hx => (List.nodup_append'.mp hids).2.2 hx List.mem_cons_self
      obtain ⟨hsim, pushed, hresults, hpushed⟩ := h.simulates.processOrder clock p.results
        fun hx => hfresh (h.ledger.resting_ids hx)
      refine ⟨⟨pushed, hresults⟩, _, _, hsim, h.ledger.submit hfresh, ?_, ?_⟩
      · rw [h.ticker] at hpushed
        have hlog := congrArg (List.map Emission.trade) hpushed
        simp only [OrderBookProcessor.processEvent, emitted, hresults, List.drop_left,
          Option.toList_none, List.map_nil, List.append_nil, List.map_append, h.log]
        refine congrArg _ ?_
        simpa [List.map_map, Function.comp_def, Entry.emission, Emission.untimed] using hlog
      · exact (Simulates.tickerId_processOrder ..).trans h.ticker
  | cancelOrder t x u =>
      obtain ⟨hreturned, hsim, -⟩ := h.simulates.cancelOrder x.toUInt32 u
      rw [EngineEvent.order?_cancelOrder, Option.toList_none, List.append_nil]
      refine ⟨⟨[], (List.append_nil _).symm⟩, _, _, hsim,
        h.ledger.cancel x.toUInt32.toUInt64 u, ?_, ?_⟩
      · simp only [OrderBookProcessor.processEvent, emitted, List.drop_length, List.map_nil,
          List.nil_append, List.map_append, h.log, hreturned]
        refine congrArg _ ?_
        cases (PriceTime.cancel resting x.toUInt32.toUInt64 u).1 <;> rfl
      · exact (Simulates.tickerId_cancelOrder ..).trans h.ticker

end ProcessorSim

/-! ## Runs of a worker -/

/-- A worker with what it has taken in and handed out: the orders it has
processed, the records it has made and the two kinds it has pushed. -/
structure ProcessorRun where
  processor : OrderBookProcessor
  submitted : List Order
  log : List Emission
  records : List MatchRecord
  cancelRecords : List CancelRecord

/-- A worker that has just been started. -/
def ProcessorRun.new (tickerId : UInt32) : ProcessorRun :=
  ⟨OrderBookProcessor.new tickerId, [], [], [], []⟩

/-- What can happen to a worker: an event arrives, or its loop advances. -/
inductive ProcessorAction where
  | enqueue (ev : EngineEvent)
  | dequeue (count : ℕ)
  | processNext (clock : ℕ → UInt64) (now : UInt64)
  | pushRecords

/-- One action of a worker. -/
def ProcessorRun.step (r : ProcessorRun) : ProcessorAction → Option ProcessorRun
  | .enqueue ev => some { r with processor := r.processor.enqueue ev }
  | .dequeue count => (r.processor.dequeue count).map fun p => { r with processor := p }
  | .processNext clock now =>
      (r.processor.processNext clock now).map fun out =>
        { processor := out.1
          submitted := r.submitted ++ (r.processor.buffer.head?.bind EngineEvent.order?).toList
          log := r.log ++ emitted r.processor.results out.1.results out.2
          records := r.records
          cancelRecords := r.cancelRecords ++ out.2.toList }
  | .pushRecords =>
      (r.processor.pushRecords).map fun out =>
        { r with processor := out.1, records := r.records ++ out.2 }

/-- The match quantity that records naming `x` report. -/
def matchedQuantity (x : UInt64) (records : List MatchRecord) : ℕ :=
  ((records.filter (fun r => r.makerOrderId = x ∨ r.takerOrderId = x)).map
    (fun r => r.matchQuantity.toNat)).sum

/-- The quantity that cancel records of `x` report. -/
def cancelledQuantity (x : UInt64) (records : List CancelRecord) : ℕ :=
  ((records.filter (fun r => r.orderId = x)).map (fun r => r.quantity.toNat)).sum

@[simp] theorem matchedQuantity_cons (x : UInt64) (r : MatchRecord) (rs : List MatchRecord) :
    matchedQuantity x (r :: rs) =
      (if r.makerOrderId = x ∨ r.takerOrderId = x then r.matchQuantity.toNat else 0)
        + matchedQuantity x rs := by
  by_cases h : r.makerOrderId = x ∨ r.takerOrderId = x <;> simp [matchedQuantity, h]

@[simp] theorem cancelledQuantity_cons (x : UInt64) (r : CancelRecord)
    (rs : List CancelRecord) :
    cancelledQuantity x (r :: rs) =
      (if r.orderId = x then r.quantity.toNat else 0) + cancelledQuantity x rs := by
  by_cases h : r.orderId = x <;> simp [cancelledQuantity, h]

/-- The quantity of `x` that rests. -/
def restingQuantity (x : UInt64) (resting : List Order) : ℕ :=
  ((resting.filter (fun o => o.orderId = x)).map (fun o => o.quantity.toNat)).sum

/-! ## The account of one order -/

/-- A worker's run and the history behind it. -/
structure ProcessorRun.Sim (r : ProcessorRun) (entries : List Entry) (resting : List Order) :
    Prop extends ProcessorSim r.submitted r.log r.processor entries resting where
  /-- Every match record made has been pushed or is about to be. -/
  records : r.log.filterMap Emission.trade? = r.records ++ r.processor.results
  cancelRecords : r.log.filterMap Emission.cancel? = r.cancelRecords

/-- **One action keeps the account.** -/
theorem ProcessorRun.Sim.step {r r' : ProcessorRun} {entries : List Entry}
    {resting : List Order} (h : r.Sim entries resting) {a : ProcessorAction}
    (hstep : r.step a = some r') (hids : DistinctIds r'.submitted) :
    ∃ entries' resting', r'.Sim entries' resting' := by
  cases a with
  | enqueue ev =>
      obtain rfl := Option.some.inj hstep
      exact ⟨entries, resting, h.congr _ rfl rfl, h.records, h.cancelRecords⟩
  | dequeue count =>
      obtain ⟨p, hp, rfl⟩ := Option.map_eq_some_iff.mp hstep
      obtain ⟨-, rfl⟩ := OrderBookProcessor.dequeue_eq_some hp
      exact ⟨entries, resting, h.congr _ rfl rfl, h.records, h.cancelRecords⟩
  | processNext clock now =>
      obtain ⟨out, hout, rfl⟩ := Option.map_eq_some_iff.mp hstep
      obtain ⟨ev, rest, hbuffer, rfl⟩ := OrderBookProcessor.processNext_eq_some hout
      simp only [hbuffer, List.head?_cons, Option.bind_some] at hids
      have hsim := h.congr { r.processor with buffer := rest } rfl rfl
      obtain ⟨⟨pushed, hpushed⟩, entries', resting', hsim'⟩ :=
        hsim.processEvent clock now ev hids
      refine ⟨entries', resting', ?_, ?_, ?_⟩
      · simpa [hbuffer] using hsim'
      · simp only [List.filterMap_append, h.records, hpushed, emitted_trade?,
          List.append_assoc]
      · simp only [List.filterMap_append, h.cancelRecords, emitted_cancel?]
  | pushRecords =>
      obtain ⟨out, hout, rfl⟩ := Option.map_eq_some_iff.mp hstep
      obtain ⟨-, rfl⟩ := OrderBookProcessor.pushRecords_eq_some hout
      refine ⟨entries, resting, h.congr _ rfl rfl, ?_, h.cancelRecords⟩
      simpa using h.records

theorem ProcessorRun.submitted_mono {r r' : ProcessorRun} {a : ProcessorAction}
    (hstep : r.step a = some r') : r.submitted <+: r'.submitted := by
  cases a with
  | enqueue ev =>
      obtain rfl := Option.some.inj hstep
      exact List.prefix_refl _
  | dequeue count =>
      obtain ⟨p, -, rfl⟩ := Option.map_eq_some_iff.mp hstep
      exact List.prefix_refl _
  | processNext clock now =>
      obtain ⟨out, -, rfl⟩ := Option.map_eq_some_iff.mp hstep
      exact List.prefix_append _ _
  | pushRecords =>
      obtain ⟨out, -, rfl⟩ := Option.map_eq_some_iff.mp hstep
      exact List.prefix_refl _

/-- **Every run of a worker keeps the account**, as long as no order id comes twice. -/
theorem ProcessorRun.sim_of_runs {tickerId : UInt32} {actions : List ProcessorAction}
    {r : ProcessorRun}
    (hrun : runs ProcessorRun.step (ProcessorRun.new tickerId) actions = some r)
    (hids : DistinctIds r.submitted) : ∃ entries resting, r.Sim entries resting := by
  refine runs_induction
    (P := fun r => DistinctIds r.submitted → ∃ entries resting, r.Sim entries resting)
    (fun s a s' ih hstep hids => ?_) actions (fun _ => ?_) hrun hids
  · obtain ⟨entries, resting, h⟩ :=
      ih (hids.sublist ((ProcessorRun.submitted_mono hstep).sublist.map _))
    exact h.step hstep hids
  · exact ⟨[], [], ProcessorSim.new tickerId, rfl, rfl⟩

theorem restingQuantity_eq_worth (x : UInt64) (resting : List Order) :
    restingQuantity x resting = worth (ofOrder x) resting := by
  induction resting with
  | nil => rfl
  | cons o os ih =>
      rw [worth_cons, shareWorth_ofOrder, ← ih]
      by_cases h : o.orderId = x <;> simp [restingQuantity, h]

/-- What the records of a log report of `x` is what its entries took off `x`. -/
theorem reported_eq_logWorth {tickerId : UInt32} {submitted : List Order} (x : UInt64)
    {log : List Emission} {entries : List Entry} (hvalid : ∀ e ∈ entries, e.Valid submitted)
    (hlog : log.map Emission.untimed = entries.map (Entry.emission tickerId)) :
    matchedQuantity x (log.filterMap Emission.trade?)
        + cancelledQuantity x (log.filterMap Emission.cancel?)
      = logWorth (ofOrder x) entries := by
  -- The log and the entries run in step, and both kinds of entry match one kind of record.
  induction entries generalizing log with
  | nil =>
      rw [List.map_nil, List.map_eq_nil_iff] at hlog
      subst hlog
      rfl
  | cons e entries ih =>
      cases log with
      | nil => simp at hlog
      | cons em log =>
          obtain ⟨hhead, htail⟩ := List.cons.inj hlog
          have hrest := ih (fun e he => hvalid e (List.mem_cons_of_mem _ he)) htail
          have hcons : logWorth (ofOrder x) (e :: entries)
              = e.worth (ofOrder x) + logWorth (ofOrder x) entries := by simp [logWorth]
          rw [hcons, ← hrest]
          cases e with
          | trade f =>
              cases em with
              | cancel rec => simp [Emission.untimed, Entry.emission] at hhead
              | trade rec =>
                  have hrec : rec.untimed = f.record tickerId := Emission.trade.inj hhead
                  have hm : rec.makerOrderId = f.maker.orderId :=
                    congrArg MatchRecord.makerOrderId hrec
                  have ht : rec.takerOrderId = f.taker.orderId :=
                    congrArg MatchRecord.takerOrderId hrec
                  have hq : rec.matchQuantity = f.quantity :=
                    congrArg MatchRecord.matchQuantity hrec
                  have hworth := fillWorth_ofOrder
                    ((hvalid _ List.mem_cons_self).trade f rfl).2 x
                  have hcancels : (Emission.trade rec :: log).filterMap Emission.cancel?
                      = log.filterMap Emission.cancel? := rfl
                  have htrades : (Emission.trade rec :: log).filterMap Emission.trade?
                      = rec :: log.filterMap Emission.trade? := rfl
                  rw [Entry.worth, hworth, hcancels, htrades, matchedQuantity_cons, hm, ht, hq,
                    Nat.add_assoc]
          | cancel o =>
              cases em with
              | trade rec => simp [Emission.untimed, Entry.emission] at hhead
              | cancel rec =>
                  have hrec := Emission.cancel.inj hhead
                  have hid : rec.orderId = o.orderId := congrArg CancelRecord.orderId hrec
                  have hq : rec.quantity = o.quantity := congrArg CancelRecord.quantity hrec
                  have hcancels : (Emission.cancel rec :: log).filterMap Emission.cancel?
                      = rec :: log.filterMap Emission.cancel? := rfl
                  have htrades : (Emission.cancel rec :: log).filterMap Emission.trade?
                      = log.filterMap Emission.trade? := rfl
                  rw [Entry.worth, shareWorth_ofOrder, hcancels, htrades, cancelledQuantity_cons,
                    hid, hq]
                  omega

/-- A record names the orders its entry is about. -/
theorem names_of_emission {tickerId : UInt32} {em : Emission} {e : Entry} {x : UInt64}
    (h : em.untimed = e.emission tickerId) (hx : em.Names x) : ∃ o ∈ e.orders, o.orderId = x := by
  cases em with
  | trade rec =>
      cases e with
      | cancel o => cases h
      | trade f =>
          have hrec : rec.untimed = f.record tickerId := Emission.trade.inj h
          rcases hx with hx | hx
          · exact ⟨f.maker, by simp [Entry.orders],
              ((congrArg MatchRecord.makerOrderId hrec).symm.trans hx)⟩
          · exact ⟨f.taker, by simp [Entry.orders],
              ((congrArg MatchRecord.takerOrderId hrec).symm.trans hx)⟩
  | cancel rec =>
      cases e with
      | trade f => cases h
      | cancel o =>
          have hrec := Emission.cancel.inj h
          exact ⟨o, by simp [Entry.orders],
            ((congrArg CancelRecord.orderId hrec).symm.trans hx)⟩

/-- **The quantity ledger of a worker.**  At every point of every run, each order
the worker has processed is accounted for by the match records that name it, its
remainder in the book and its cancel record; every match record is about some
shares of a buy and a sell; and no record comes after its order was completely
filled or cancelled. -/
theorem quantity_ledger (tickerId : UInt32) (actions : List ProcessorAction)
    (r : ProcessorRun)
    (hrun : runs ProcessorRun.step (ProcessorRun.new tickerId) actions = some r)
    (hids : DistinctIds r.submitted) :
    (r.log.filterMap Emission.trade? = r.records ++ r.processor.results ∧
      r.log.filterMap Emission.cancel? = r.cancelRecords) ∧
    (∀ s ∈ r.submitted, s.quantity.toNat =
      matchedQuantity s.orderId (r.records ++ r.processor.results)
        + restingQuantity s.orderId r.processor.book.resting
        + cancelledQuantity s.orderId r.cancelRecords) ∧
    (∀ rec ∈ r.records ++ r.processor.results, 0 < rec.matchQuantity ∧
      ∃ b ∈ r.submitted, ∃ s ∈ r.submitted, b.side = .buy ∧ s.side = .sell ∧
        ((rec.makerOrderId = s.orderId ∧ rec.takerOrderId = b.orderId) ∨
          (rec.makerOrderId = b.orderId ∧ rec.takerOrderId = s.orderId))) ∧
    (∀ n em x, r.log[n]? = some em → em.Names x → ∃ s ∈ r.submitted, s.orderId = x ∧
      matchedQuantity x ((r.log.take n).filterMap Emission.trade?) < s.quantity.toNat ∧
      ∀ c ∈ (r.log.take n).filterMap Emission.cancel?, c.orderId ≠ x) := by
  obtain ⟨entries, resting, h⟩ := ProcessorRun.sim_of_runs hrun hids
  refine ⟨⟨h.records, h.cancelRecords⟩, fun s hs => ?_, fun rec hrec => ?_,
    fun n em x hem hx => ?_⟩
  · have hreported := reported_eq_logWorth s.orderId h.ledger.valid h.log
    have hquantity := h.ledger.quantity_eq hs
    have hresting : restingQuantity s.orderId r.processor.book.resting
        = worth (ofOrder s.orderId) resting :=
      (restingQuantity_eq_worth _ _).trans (worth_perm _ h.simulates.perm)
    rw [h.records, h.cancelRecords] at hreported
    omega
  · rw [← h.records] at hrec
    obtain ⟨f, hf, hrec'⟩ := h.trade_mem hrec
    have hvalid := h.ledger.valid _ hf
    obtain ⟨b, hb, s, hs, hbside, hsside, hbcore, hscore, hparties⟩ := hvalid.parties
    have hm : rec.makerOrderId = f.maker.orderId := congrArg MatchRecord.makerOrderId hrec'
    have ht : rec.takerOrderId = f.taker.orderId := congrArg MatchRecord.takerOrderId hrec'
    have hq : rec.matchQuantity = f.quantity := congrArg MatchRecord.matchQuantity hrec'
    refine ⟨hq ▸ hvalid.pos, b, hb, s, hs, hbside, hsside, ?_⟩
    rw [hm, ht, ← Order.orderId_of_core hbcore, ← Order.orderId_of_core hscore]
    refine hparties.imp (fun hp => ?_) (fun hp => ?_)
    · rw [hp.1, hp.2]
      exact ⟨rfl, rfl⟩
    · rw [hp.1, hp.2]
      exact ⟨rfl, rfl⟩
  · -- The entry of the record names a live order, and the log up to there reports what
    -- the entries up to there have taken off it.
    have hget : (entries.map (Entry.emission r.processor.tickerId))[n]? = some em.untimed := by
      rw [← h.log, List.getElem?_map, hem]
      rfl
    rw [List.getElem?_map] at hget
    obtain ⟨e, he, hemission⟩ := Option.map_eq_some_iff.mp hget
    obtain ⟨o, ho, rfl⟩ := names_of_emission hemission.symm hx
    obtain ⟨s, hs, hcore⟩ := (h.ledger.valid e (List.mem_of_getElem? he)).submitted o ho
    have hid := Order.orderId_of_core hcore
    have htake : (r.log.take n).map Emission.untimed
        = (entries.take n).map (Entry.emission r.processor.tickerId) := by
      rw [List.map_take, h.log, List.map_take]
    have hreported := reported_eq_logWorth o.orderId
      (fun e he => h.ledger.valid e (List.mem_of_mem_take he)) htake
    obtain ⟨hlive, hopen⟩ := h.ledger.live he ho
    rw [hid, worth_ofOrder h.ledger.ids hs, ← hid] at hlive
    refine ⟨s, hs, hid.symm, by omega, fun c hc heq => ?_⟩
    obtain ⟨em', hem', hcancel⟩ := List.mem_filterMap.mp hc
    have hmem := List.mem_map_of_mem (f := Emission.untimed) hem'
    rw [htake] at hmem
    obtain ⟨e', he', heq'⟩ := List.mem_map.mp hmem
    cases em' with
    | trade rec => cases hcancel
    | cancel c' =>
        obtain rfl := Option.some.inj hcancel
        cases e' with
        | trade f => cases heq'
        | cancel o' =>
            have hrec := Emission.cancel.inj heq'
            exact hopen o' he' ((congrArg CancelRecord.orderId hrec).trans heq)

/-- Two batches: a partial fill, then a cancellation of what is left. -/
def sampleActions : List ProcessorAction :=
  [.enqueue (.newOrder ⟨1, 7, 10, .sell, 100, 5, 0⟩),
    .enqueue (.newOrder ⟨2, 7, 12, .buy, 101, 3, 0⟩),
    .dequeue 2, .processNext (fun _ => 0) 0, .processNext (fun _ => 0) 0, .pushRecords,
    .enqueue (.cancelOrder 7 1 10),
    .dequeue 1, .processNext (fun _ => 0) 0]

theorem quantity_ledger_sample :
    ∃ r, runs ProcessorRun.step (ProcessorRun.new 7) sampleActions = some r ∧
      DistinctIds r.submitted ∧
      ∀ s ∈ r.submitted, s.quantity.toNat =
        matchedQuantity s.orderId (r.records ++ r.processor.results)
          + restingQuantity s.orderId r.processor.book.resting
          + cancelledQuantity s.orderId r.cancelRecords :=
  have hids : DistinctIds [⟨1, 7, 10, .sell, 100, 5, 0⟩, ⟨2, 7, 12, .buy, 101, 3, 0⟩] := by
    simp [DistinctIds]
  ⟨_, rfl, hids, (quantity_ledger 7 sampleActions _ rfl hids).2.1⟩

end ExchangeServer
