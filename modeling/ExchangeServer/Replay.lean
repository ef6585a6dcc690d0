import ExchangeServer.WALManager

/-!
# Replaying events

What a worker makes of a sequence of events does not depend on how the events were
cut into batches, and on the clock only in the timestamps of its records:
`OrderBook.processOrder_agrees` compares two calls that differ in the clock and in
what the results vector holds already.

`Replica` is a worker that is handed its events one after the other, and `recover`
feeds one sequence of events to the books of all tickers.  `recover_lookup` says
that the book of a ticker sees just the events that are routed to it.
-/

namespace ExchangeServer

open Lib

/-! ## The clock -/

/-- The record with its clock reading blanked out. -/
def CancelRecord.untimed (rec : CancelRecord) : CancelRecord :=
  { rec with timestamp := 0 }

/-- The records that were pushed after `before₁` and after `before₂` are the same,
except for their timestamps. -/
def PushesAlike (before₁ before₂ after₁ after₂ : List MatchRecord) : Prop :=
  ∃ pushed₁ pushed₂, after₁ = before₁ ++ pushed₁ ∧ after₂ = before₂ ++ pushed₂ ∧
    pushed₁.map MatchRecord.untimed = pushed₂.map MatchRecord.untimed

theorem PushesAlike.refl (before₁ before₂ : List MatchRecord) :
    PushesAlike before₁ before₂ before₁ before₂ :=
  ⟨[], [], (List.append_nil _).symm, (List.append_nil _).symm, rfl⟩

theorem PushesAlike.snoc {before₁ before₂ after₁ after₂ : List MatchRecord}
    (h : PushesAlike before₁ before₂ after₁ after₂) {rec₁ rec₂ : MatchRecord}
    (hrec : rec₁.untimed = rec₂.untimed) :
    PushesAlike before₁ before₂ (after₁ ++ [rec₁]) (after₂ ++ [rec₂]) := by
  obtain ⟨pushed₁, pushed₂, rfl, rfl, hpushed⟩ := h
  refine ⟨pushed₁ ++ [rec₁], pushed₂ ++ [rec₂], List.append_assoc .., List.append_assoc .., ?_⟩
  rw [List.map_append, List.map_append, hpushed, List.map_singleton, List.map_singleton, hrec]

/-- The two states are alike for everything the match loops read. -/
structure MatchState.Agrees (before₁ before₂ : List MatchRecord) (st₁ st₂ : MatchState) :
    Prop where
  heap : st₁.heap = st₂.heap
  index : st₁.userActiveOrders = st₂.userActiveOrders
  results : PushesAlike before₁ before₂ st₁.results st₂.results

section Loops

variable (record : Order → Order → UInt64 → UInt64 → MatchRecord) (clock₁ clock₂ : ℕ → UInt64)
  {before₁ before₂ : List MatchRecord} {st₁ st₂ : MatchState}

theorem MatchState.Agrees.trade (h : st₁.Agrees before₁ before₂ st₂) (taker maker : Ptr)
    (levelPrice tradeQty : UInt64) :
    (st₁.trade record clock₁ taker maker levelPrice tradeQty).Agrees before₁ before₂
      (st₂.trade record clock₂ taker maker levelPrice tradeQty) := by
  refine ⟨?_, h.index, h.results.snoc ?_⟩
  · simp only [MatchState.trade, h.heap]
  · rw [h.heap]
    rfl

theorem MatchState.Agrees.unindex (h : st₁.Agrees before₁ before₂ st₂) (maker : Ptr) :
    (st₁.unindex maker).Agrees before₁ before₂ (st₂.unindex maker) := by
  refine ⟨h.heap, ?_, h.results⟩
  simp only [MatchState.unindex, h.heap, h.index]

theorem matchLevel_agrees (taker : Ptr) (levelPrice : UInt64) (level : OrderList)
    (h : st₁.Agrees before₁ before₂ st₂) :
    (matchLevel record clock₁ taker levelPrice level st₁).1
        = (matchLevel record clock₂ taker levelPrice level st₂).1 ∧
      (matchLevel record clock₁ taker levelPrice level st₁).2.Agrees before₁ before₂
        (matchLevel record clock₂ taker levelPrice level st₂).2 := by
  induction level generalizing st₁ st₂ with
  | nil => exact ⟨rfl, h⟩
  | cons maker rest ih =>
      have htrade := h.trade record clock₁ clock₂ taker maker levelPrice
        (min (st₂.heap.get taker).quantity (st₂.heap.get maker).quantity)
      simp only [matchLevel, h.heap]
      by_cases hdone : (st₂.heap.get taker).quantity = 0
      · rw [if_pos hdone, if_pos hdone]
        exact ⟨rfl, h⟩
      · rw [if_neg hdone, if_neg hdone, htrade.heap]
        split_ifs with hmaker
        · exact ih (htrade.unindex maker)
        · exact ⟨congrArg (maker :: ·) (ih htrade).1, (ih htrade).2⟩

theorem matchLevels_agrees (stops : UInt64 → UInt64 → Bool) (taker : Ptr)
    (levels : List (UInt64 × OrderList)) (h : st₁.Agrees before₁ before₂ st₂) :
    (matchLevels record clock₁ stops taker levels st₁).1
        = (matchLevels record clock₂ stops taker levels st₂).1 ∧
      (matchLevels record clock₁ stops taker levels st₁).2.Agrees before₁ before₂
        (matchLevels record clock₂ stops taker levels st₂).2 := by
  induction levels generalizing st₁ st₂ with
  | nil => exact ⟨rfl, h⟩
  | cons e rest ih =>
      obtain ⟨levelPrice, level⟩ := e
      simp only [matchLevels, h.heap]
      by_cases hdone : (st₂.heap.get taker).quantity = 0
      · rw [if_pos hdone, if_pos hdone]
        exact ⟨rfl, h⟩
      · rw [if_neg hdone, if_neg hdone]
        by_cases hstop : stops levelPrice (st₂.heap.get taker).price = true
        · rw [if_pos hstop, if_pos hstop]
          exact ⟨rfl, h⟩
        · rw [if_neg hstop, if_neg hstop]
          obtain ⟨hlevel, hst⟩ :=
            matchLevel_agrees record clock₁ clock₂ taker levelPrice level h
          obtain ⟨hrest, hst'⟩ := ih hst
          rw [hlevel, hrest]
          exact ⟨rfl, hst'⟩

end Loops

namespace OrderBook

variable (clock₁ clock₂ : ℕ → UInt64) (book : OrderBook)

theorem matchBuyOrder_agrees (buyOrder : Ptr) (results₁ results₂ : List MatchRecord) :
    (book.matchBuyOrder clock₁ buyOrder results₁).1
        = (book.matchBuyOrder clock₂ buyOrder results₂).1 ∧
      PushesAlike results₁ results₂ (book.matchBuyOrder clock₁ buyOrder results₁).2
        (book.matchBuyOrder clock₂ buyOrder results₂).2 := by
  have hstart : MatchState.Agrees results₁ results₂
      ⟨book.heap, book.userActiveOrders, results₁⟩ ⟨book.heap, book.userActiveOrders, results₂⟩ :=
    ⟨rfl, rfl, PushesAlike.refl results₁ results₂⟩
  obtain ⟨hlevels, hst⟩ := matchLevels_agrees (buyRecord book.tickerId) clock₁ clock₂
    (fun askPrice limit => askPrice > limit) buyOrder
    book.asks.entries hstart
  refine ⟨?_, hst.results⟩
  simp only [matchBuyOrder, hst.heap, hst.index, hlevels]

theorem matchSellOrder_agrees (sellOrder : Ptr) (results₁ results₂ : List MatchRecord) :
    (book.matchSellOrder clock₁ sellOrder results₁).1
        = (book.matchSellOrder clock₂ sellOrder results₂).1 ∧
      PushesAlike results₁ results₂ (book.matchSellOrder clock₁ sellOrder results₁).2
        (book.matchSellOrder clock₂ sellOrder results₂).2 := by
  have hstart : MatchState.Agrees results₁ results₂
      ⟨book.heap, book.userActiveOrders, results₁⟩ ⟨book.heap, book.userActiveOrders, results₂⟩ :=
    ⟨rfl, rfl, PushesAlike.refl results₁ results₂⟩
  obtain ⟨hlevels, hst⟩ := matchLevels_agrees (sellRecord book.tickerId) clock₁ clock₂
    (fun bidsPrice limit => bidsPrice < limit) sellOrder
    book.bids.entries hstart
  refine ⟨?_, hst.results⟩
  simp only [matchSellOrder, hst.heap, hst.index, hlevels]

/-- **The clock leaves its mark on timestamps only**, and what the results vector
holds already leaves none. -/
theorem processOrder_agrees (newOrder : Order) (results₁ results₂ : List MatchRecord) :
    (book.processOrder clock₁ newOrder results₁).1
        = (book.processOrder clock₂ newOrder results₂).1 ∧
      PushesAlike results₁ results₂ (book.processOrder clock₁ newOrder results₁).2
        (book.processOrder clock₂ newOrder results₂).2 := by
  unfold processOrder
  cases newOrder.side with
  | buy =>
      obtain ⟨hbook, hresults⟩ := matchBuyOrder_agrees clock₁ clock₂
        { book with heap := book.heap.alloc newOrder } book.heap.next results₁ results₂
      simp only [hbook]
      split_ifs
      · exact ⟨rfl, hresults⟩
      · exact ⟨rfl, hresults⟩
  | sell =>
      obtain ⟨hbook, hresults⟩ := matchSellOrder_agrees clock₁ clock₂
        { book with heap := book.heap.alloc newOrder } book.heap.next results₁ results₂
      simp only [hbook]
      split_ifs
      · exact ⟨rfl, hresults⟩
      · exact ⟨rfl, hresults⟩

end OrderBook

/-! ## Routing -/

namespace EngineEvent

/-- The ticker an event is routed by. -/
def tickerId : EngineEvent → UInt32
  | newOrder order => order.tickerId
  | cancelOrder tickerId .. => tickerId

/-- The event as `MatchingEngine` enqueues it for the worker: `CancelOrder` leaves
the ticker id of the event it makes as it was constructed. -/
def delivered : EngineEvent → EngineEvent
  | newOrder order => newOrder order
  | cancelOrder _ cancelOrderId cancelUserId => cancelOrder 0 cancelOrderId cancelUserId

@[simp] theorem order?_delivered (ev : EngineEvent) : ev.delivered.order? = ev.order? := by
  cases ev <;> rfl

end EngineEvent

/-- The events of `events` that the worker of `t` is given. -/
def routed (t : UInt32) (events : List EngineEvent) : List EngineEvent :=
  (events.filter fun ev => ev.tickerId = t).map EngineEvent.delivered

@[simp] theorem routed_nil (t : UInt32) : routed t [] = [] := rfl

theorem routed_append (t : UInt32) (events events' : List EngineEvent) :
    routed t (events ++ events') = routed t events ++ routed t events' := by
  rw [routed, List.filter_append, List.map_append]
  rfl

theorem routed_singleton (t : UInt32) (ev : EngineEvent) :
    routed t [ev] = if ev.tickerId = t then [ev.delivered] else [] := by
  by_cases h : ev.tickerId = t <;> simp [routed, h]

theorem WALManager.forward_orderBooks (engine : MatchingEngine) (ev : EngineEvent) :
    (WALManager.forward engine ev).1.orderBooks
      = match engine.orderBooks.lookup ev.tickerId with
        | none => engine.orderBooks
        | some p => engine.orderBooks.insert ev.tickerId (p.enqueue ev.delivered) := by
  cases ev with
  | newOrder o =>
      simp only [forward, MatchingEngine.processOrder, EngineEvent.tickerId,
        EngineEvent.delivered]
      cases engine.orderBooks.lookup o.tickerId <;> rfl
  | cancelOrder t x u =>
      simp only [forward, MatchingEngine.cancelOrder, EngineEvent.tickerId,
        EngineEvent.delivered]
      cases engine.orderBooks.lookup t <;> rfl

/-- **Forwarding an event hands it to the worker of its ticker**, if there is one,
and to nobody else. -/
theorem WALManager.forward_lookup (engine : MatchingEngine) (ev : EngineEvent) (t : UInt32) :
    (WALManager.forward engine ev).1.orderBooks.lookup t
      = (engine.orderBooks.lookup t).map fun p =>
          if ev.tickerId = t then p.enqueue ev.delivered else p := by
  rw [forward_orderBooks]
  cases hp : engine.orderBooks.lookup ev.tickerId with
  | none =>
      by_cases ht : ev.tickerId = t
      · subst ht
        simp [hp]
      · simp [ht]
  | some p =>
      refine (UnorderedMap.lookup_insert_eq ..).trans ?_
      by_cases ht : t = ev.tickerId
      · subst ht
        simp [hp]
      · simp [ht, Ne.symm ht]

/-- The value `forward` returns says whether the event was handed to a worker, for a
new order; for a cancellation the engine does not say. -/
theorem WALManager.forward_returned (engine : MatchingEngine) (ev : EngineEvent) :
    (WALManager.forward engine ev).2 = true ↔
      ev.order? = none ∨ (engine.orderBooks.lookup ev.tickerId).isSome := by
  cases ev with
  | newOrder o =>
      unfold forward MatchingEngine.processOrder EngineEvent.tickerId
      cases hp : engine.orderBooks.lookup o.tickerId <;> simp [hp]
  | cancelOrder t x u => simp [forward]

/-! ## Replicas -/

/-- A worker that has been handed events one after the other, with the cancel
records it made; its match records are in `processor.results`. -/
structure Replica where
  processor : OrderBookProcessor
  cancelled : List CancelRecord

namespace Replica

/-- No events yet. -/
def new (tickerId : UInt32) : Replica := ⟨OrderBookProcessor.new tickerId, []⟩

section Replay

variable (clock : ℕ → UInt64) (now : UInt64)

/-- The next event. -/
def process (r : Replica) (ev : EngineEvent) : Replica :=
  let out := r.processor.processEvent clock now ev
  ⟨out.1, r.cancelled ++ out.2.toList⟩

/-- All events, one after the other. -/
def replay (tickerId : UInt32) (events : List EngineEvent) : Replica :=
  events.foldl (process clock now) (new tickerId)

theorem replay_append (tickerId : UInt32) (events : List EngineEvent) (ev : EngineEvent) :
    replay clock now tickerId (events ++ [ev])
      = (replay clock now tickerId events).process clock now ev := by
  rw [replay, List.foldl_append]
  rfl

end Replay

/-- The worker has the book of the replica, and it has made the replica's records,
except for their timestamps. -/
structure Follows (r : Replica) (p : OrderBookProcessor) (traded : List MatchRecord)
    (cancelled : List CancelRecord) : Prop where
  book : p.book = r.processor.book
  traded : traded.map MatchRecord.untimed = r.processor.results.map MatchRecord.untimed
  cancelled : cancelled.map CancelRecord.untimed = r.cancelled.map CancelRecord.untimed

variable {r : Replica} {p : OrderBookProcessor} {traded : List MatchRecord}
  {cancelled : List CancelRecord}

theorem Follows.congr (h : r.Follows p traded cancelled) {p' : OrderBookProcessor}
    (hbook : p'.book = p.book) : r.Follows p' traded cancelled :=
  ⟨hbook.trans h.book, h.traded, h.cancelled⟩

/-- **One event.**  Neither the clocks nor what is left of the worker's batch make a
difference. -/
theorem Follows.process (h : r.Follows p traded cancelled) (clock clock' : ℕ → UInt64)
    (now now' : UInt64) (ev : EngineEvent) :
    (r.process clock' now' ev).Follows (p.processEvent clock now ev).1
      (traded ++ (p.processEvent clock now ev).1.results.drop p.results.length)
      (cancelled ++ (p.processEvent clock now ev).2.toList) := by
  cases ev with
  | newOrder o =>
      obtain ⟨hbook, pushed, pushed', hpushed, hpushed', halike⟩ :=
        p.book.processOrder_agrees clock clock' o p.results r.processor.results
      rw [h.book] at hbook hpushed'
      refine ⟨?_, ?_, ?_⟩
      · simp only [OrderBookProcessor.processEvent, Replica.process, h.book, hbook]
      · simp only [OrderBookProcessor.processEvent, Replica.process, hpushed, hpushed',
          List.drop_left, List.map_append, h.traded, halike]
      · simp only [OrderBookProcessor.processEvent, Replica.process, Option.toList_none,
          List.append_nil, h.cancelled]
  | cancelOrder t x u =>
      refine ⟨?_, ?_, ?_⟩
      · simp only [OrderBookProcessor.processEvent, Replica.process, h.book]
      · simp only [OrderBookProcessor.processEvent, Replica.process, List.drop_length,
          List.append_nil, h.traded]
      · simp only [OrderBookProcessor.processEvent, Replica.process, List.map_append, h.cancelled,
          h.book]
        cases (r.processor.book.cancelOrder x.toUInt32 u).2 <;> rfl

/-- The ticker id of a cancellation is not read. -/
theorem process_delivered (r : Replica) (clock : ℕ → UInt64) (now : UInt64)
    (ev : EngineEvent) : r.process clock now ev.delivered = r.process clock now ev := by
  cases ev <;> rfl

end Replica

/-! ## Recovery -/

section Recovery

variable (clock : ℕ → UInt64) (now : UInt64) (ids : List UInt32)

/-- An event goes to the book of its ticker, if there is one. -/
def recoverEvent (books : UnorderedMap UInt32 Replica) (ev : EngineEvent) :
    UnorderedMap UInt32 Replica :=
  match books.lookup ev.tickerId with
  | none => books
  | some r => books.insert ev.tickerId (r.process clock now ev)

/-- Fresh books for the tickers `ids`, and then the events, one after the other. -/
def recover (events : List EngineEvent) : UnorderedMap UInt32 Replica :=
  events.foldl (recoverEvent clock now)
    (ids.foldl (fun books t => books.insert t (Replica.new t)) ∅)

theorem lookup_fresh (books : UnorderedMap UInt32 Replica) (t : UInt32) :
    (ids.foldl (fun books t => AList.insert t (Replica.new t) books) books).lookup t
      = if t ∈ ids then some (Replica.new t) else books.lookup t := by
  induction ids generalizing books with
  | nil => simp
  | cons id ids ih =>
      rw [List.foldl_cons, ih, UnorderedMap.lookup_insert_eq]
      by_cases ht : t = id
      · subst ht
        simp
      · simp [ht]

/-- **The book of a ticker sees the events that are routed to it** and no others. -/
theorem recover_lookup (events : List EngineEvent) (t : UInt32) :
    (recover clock now ids events).lookup t
      = if t ∈ ids then some (Replica.replay clock now t (routed t events)) else none := by
  induction events using List.reverseRecOn with
  | nil => exact lookup_fresh ids ∅ t
  | append_singleton events ev ih =>
      have hlast : recover clock now ids (events ++ [ev])
          = recoverEvent clock now (recover clock now ids events) ev := by
        rw [recover, List.foldl_append]
        rfl
      rw [hlast, recoverEvent, routed_append, routed_singleton]
      by_cases ht : ev.tickerId = t
      · subst ht
        rw [ih, if_pos rfl]
        split_ifs with hlisted
        · rw [Replica.replay_append, Replica.process_delivered]
          exact AList.lookup_insert _
        · exact ih.trans (if_neg hlisted)
      · rw [if_neg ht, List.append_nil, ← ih]
        cases (recover clock now ids events).lookup ev.tickerId with
        | none => rfl
        | some r => exact AList.lookup_insert_ne (Ne.symm ht)

end Recovery

end ExchangeServer
