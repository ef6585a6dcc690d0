import ExchangeServer.OrderBookProcessor

/-!
# The matching engine

`MatchingEngine.hpp`: one worker for each ticker that was initialised.  Orders and
cancellations are routed by ticker id; an order for a ticker without a worker is
refused with the return value `false`.
-/

namespace ExchangeServer

open Lib PriceTime

/-- `MatchingEngine`. -/
structure MatchingEngine where
  orderBooks : UnorderedMap UInt32 OrderBookProcessor

namespace MatchingEngine

/-- `MatchingEngine::MatchingEngine`. -/
def new : MatchingEngine := ⟨∅⟩

/-- `MatchingEngine::init`. -/
def init (engine : MatchingEngine) (tickerId : UInt32) : MatchingEngine :=
  match engine.orderBooks.lookup tickerId with
  | none => ⟨engine.orderBooks.insert tickerId (OrderBookProcessor.new tickerId)⟩
  | some _ => engine

/-- The engine after `init` was called for some tickers. -/
theorem lookup_init (ids : List UInt32) (engine : MatchingEngine)
    (hnew : ∀ t p, engine.orderBooks.lookup t = some p → p = OrderBookProcessor.new t)
    (t : UInt32) :
    (ids.foldl MatchingEngine.init engine).orderBooks.lookup t =
      if t ∈ ids then some (OrderBookProcessor.new t) else engine.orderBooks.lookup t := by
  induction ids generalizing engine with
  | nil => simp
  | cons id ids ih =>
      have hinit : ∀ t, (engine.init id).orderBooks.lookup t =
          if t = id then some (OrderBookProcessor.new id) else engine.orderBooks.lookup t := by
        intro t
        unfold MatchingEngine.init
        cases hid : engine.orderBooks.lookup id with
        | none => exact UnorderedMap.lookup_insert_eq _ _ _ _
        | some p =>
            split_ifs with ht
            · rw [ht, ← hnew id p hid]
              exact hid
            · rfl
      rw [List.foldl_cons, ih _ fun t p hp => ?_]
      · rw [hinit]
        by_cases ht : t = id
        · subst ht
          simp
        · simp [ht]
      · rw [hinit] at hp
        split_ifs at hp with ht
        · rw [ht]
          exact (Option.some.inj hp).symm
        · exact hnew t p hp

/-- `MatchingEngine::processOrder`, with the value it returns. -/
def processOrder (engine : MatchingEngine) (order : Order) : MatchingEngine × Bool :=
  match engine.orderBooks.lookup order.tickerId with
  | none => (engine, false)
  | some p => (⟨engine.orderBooks.insert order.tickerId (p.enqueue (.newOrder order))⟩, true)

/-- `MatchingEngine::CancelOrder`.  The event's own ticker id is left as it was
constructed; the book never reads it. -/
def cancelOrder (engine : MatchingEngine) (tickerId : UInt32) (orderId userId : UInt64) :
    MatchingEngine :=
  match engine.orderBooks.lookup tickerId with
  | none => engine
  | some p =>
      ⟨engine.orderBooks.insert tickerId (p.enqueue (.cancelOrder 0 orderId userId))⟩

/-- `MatchingEngine::getBestBidOffer`; the two outputs keep what they held when
the ticker has no book. -/
def getBestBidOffer (engine : MatchingEngine) (tickerId : UInt64) (best : Int64 × Int64) :
    Int64 × Int64 :=
  match engine.orderBooks.lookup tickerId.toUInt32 with
  | none => best
  | some p => p.book.getBestBidOffer

/-- `MatchingEngine::getUserActiveOrder`. -/
def getUserActiveOrder (engine : MatchingEngine) (userId : UInt64) : List Order :=
  engine.orderBooks.collect fun p => p.getUserOrder userId

/-- The orders that rest in some book. -/
def resting (engine : MatchingEngine) : List Order :=
  engine.orderBooks.collect fun p => p.book.resting

/-- The orders in the workers' queues and batches. -/
def queued (engine : MatchingEngine) : List Order :=
  engine.orderBooks.collect fun p => (p.buffer ++ p.queue).filterMap EngineEvent.order?

/-- The match records in the workers' result vectors. -/
def results (engine : MatchingEngine) : List MatchRecord :=
  engine.orderBooks.collect OrderBookProcessor.results

end MatchingEngine

/-- **The representation invariant of order books**: it holds in every reachable
book, and so, in an engine whose books are reachable, the active orders of a user
are all of the user's resting orders, over all tickers, each listed once. -/
theorem orderBook_invariant :
    (∀ submitted book, OrderBook.Reachable submitted book → book.Invariant) ∧
      ∀ engine : MatchingEngine,
        (∀ t p, engine.orderBooks.lookup t = some p →
          ∃ submitted, OrderBook.Reachable submitted p.book) →
        ∀ u, (engine.getUserActiveOrder u).Perm
          (engine.resting.filter (fun o => o.userId = u)) := by
  refine ⟨fun submitted book h => ?_, fun engine hbooks u => ?_⟩
  · obtain ⟨-, resting, -, hsim⟩ := h.simulates
    exact hsim.invariant
  · unfold MatchingEngine.getUserActiveOrder MatchingEngine.resting UnorderedMap.collect
    rw [List.filter_flatMap]
    refine List.Perm.flatMap_left _ fun e he => ?_
    obtain ⟨submitted, h⟩ :=
      hbooks e.1 e.2 ((UnorderedMap.mem_entries_iff engine.orderBooks e.1 e.2).mp he)
    obtain ⟨-, resting, -, hsim⟩ := h.simulates
    exact hsim.getUserActiveOrder u

end ExchangeServer
