import Mathlib.Data.UInt
import ExchangeServer.Common
import ExchangeServer.Lib.Containers

/-!
# The order book of one ticker

`OrderBook.hpp`, function by function.  The book holds pointers: a resting order
sits in a price level of `bids` or `asks` and in `userActiveOrders`, and a fill
writes its quantity through one of them.  The objects live in `heap`, so both
containers see that write, as they do through `std::shared_ptr<Order>`.

The two match functions of the source are mirror images.  `matchLevel` and
`matchLevels` are their common inner and outer `while` loops, with the parts that
differ as parameters: the record pushed for a trade and the test that ends the
walk.  `matchBuyOrder` and `matchSellOrder` are the two instances.

`system_clock::now()` is read once for every record that is pushed; `clock n` is
the reading taken for the `n`-th entry of the results vector.
-/

namespace ExchangeServer

open Lib

/-! ## The state -/

/-- `std::less<uint64_t>`, the order of `asks_`. -/
abbrev askBefore (p q : UInt64) : Prop := p < q

/-- `std::greater<uint64_t>`, the order of `bids_`. -/
abbrev bidBefore (p q : UInt64) : Prop := q < p

instance : IsStrictTotalOrder UInt64 askBefore where
  irrefl := UInt64.lt_irrefl
  trans _ _ _ := UInt64.lt_trans
  trichotomous _ _ hab hba :=
    UInt64.le_antisymm (UInt64.not_lt.mp hba) (UInt64.not_lt.mp hab)

instance : IsStrictTotalOrder UInt64 bidBefore where
  irrefl := UInt64.lt_irrefl
  trans _ _ _ h₁ h₂ := UInt64.lt_trans h₂ h₁
  trichotomous _ _ hab hba :=
    UInt64.le_antisymm (UInt64.not_lt.mp hab) (UInt64.not_lt.mp hba)

/-- `OrderList`: the orders of one price level, oldest first. -/
abbrev OrderList := List Ptr

/-- `OrderBook`. -/
structure OrderBook where
  tickerId : UInt32
  /-- The order objects behind the pointers below. -/
  heap : Heap Order
  bids : OrderedMap UInt64 OrderList bidBefore
  asks : OrderedMap UInt64 OrderList askBefore
  /-- User id, order id, order. -/
  userActiveOrders : NestedMap UInt64 UInt64 Ptr

/-- `OrderBook::OrderBook`. -/
def OrderBook.new (tickerId : UInt32) : OrderBook where
  tickerId := tickerId
  heap := Heap.empty
  bids := ∅
  asks := ∅
  userActiveOrders := ∅

/-! ## Matching -/

/-- What the match loops write to, besides the levels they walk. -/
structure MatchState where
  heap : Heap Order
  userActiveOrders : NestedMap UInt64 UInt64 Ptr
  results : List MatchRecord

namespace MatchState

/-- `results.push_back(record)`, then the trade is taken off both quantities. -/
def trade (record : Order → Order → UInt64 → UInt64 → MatchRecord) (clock : ℕ → UInt64)
    (taker maker : Ptr) (levelPrice tradeQty : UInt64) (st : MatchState) : MatchState :=
  { st with
    results := st.results ++
      [{ record (st.heap.get maker) (st.heap.get taker) levelPrice tradeQty with
          timestamp := clock st.results.length }]
    heap := (st.heap.modify taker (·.less tradeQty)).modify maker (·.less tradeQty) }

/-- `user_active_orders_[maker->user_id].erase(maker->order_id)`. -/
def unindex (maker : Ptr) (st : MatchState) : MatchState :=
  { st with
    userActiveOrders := NestedMap.erase st.userActiveOrders
      (st.heap.get maker).userId (st.heap.get maker).orderId }

end MatchState

section Loops

variable (record : Order → Order → UInt64 → UInt64 → MatchRecord) (clock : ℕ → UInt64)

/-- The inner loop: trade with the orders of one level, front first, until the
level or the taker is exhausted. -/
def matchLevel (taker : Ptr) (levelPrice : UInt64) :
    OrderList → MatchState → OrderList × MatchState
  | [], st => ([], st)
  | maker :: rest, st =>
      if (st.heap.get taker).quantity = 0 then (maker :: rest, st)
      else
        let tradeQty := min (st.heap.get taker).quantity (st.heap.get maker).quantity
        let st := st.trade record clock taker maker levelPrice tradeQty
        if (st.heap.get maker).quantity = 0 then
          matchLevel taker levelPrice rest (st.unindex maker)
        else
          let (kept, st) := matchLevel taker levelPrice rest st
          (maker :: kept, st)

/-- The outer loop: walk the levels from the best one until the taker is
exhausted or `stops` says that a level is beyond its limit.  A level that has
become empty is erased. -/
def matchLevels (stops : UInt64 → UInt64 → Bool) (taker : Ptr) :
    List (UInt64 × OrderList) → MatchState → List (UInt64 × OrderList) × MatchState
  | [], st => ([], st)
  | (levelPrice, level) :: rest, st =>
      if (st.heap.get taker).quantity = 0 then ((levelPrice, level) :: rest, st)
      else if stops levelPrice (st.heap.get taker).price then
        ((levelPrice, level) :: rest, st)
      else
        let (level, st) := matchLevel record clock taker levelPrice level st
        let (rest, st) := matchLevels stops taker rest st
        (if level.isEmpty then rest else (levelPrice, level) :: rest, st)

/-- The walk only erases levels. -/
theorem matchLevels_keys (stops : UInt64 → UInt64 → Bool) (taker : Ptr)
    (levels : List (UInt64 × OrderList)) (st : MatchState) :
    ((matchLevels record clock stops taker levels st).1.map Prod.fst).Sublist
      (levels.map Prod.fst) := by
  induction levels generalizing st with
  | nil => simp [matchLevels]
  | cons e rest ih =>
      obtain ⟨levelPrice, level⟩ := e
      simp only [matchLevels]
      split_ifs with hq hs hempty
      · exact List.Sublist.refl _
      · exact List.Sublist.refl _
      · exact (ih _).cons _
      · exact (ih _).cons_cons _

end Loops

namespace OrderBook

/-- The record `matchBuyOrder` pushes: the resting ask is the seller. -/
def buyRecord (tickerId : UInt32) (askOrder buyOrder : Order) (askPrice tradeQty : UInt64) :
    MatchRecord where
  tickerId := tickerId
  makerOrderId := askOrder.orderId
  takerOrderId := buyOrder.orderId
  buyerUserId := buyOrder.userId
  sellUserId := askOrder.userId
  buyerExpectedPrice := buyOrder.price
  matchPrice := askPrice
  matchQuantity := tradeQty
  timestamp := 0

/-- The record `matchSellOrder` pushes: the resting bid is the buyer. -/
def sellRecord (tickerId : UInt32) (bidOrder sellOrder : Order) (bidsPrice tradeQty : UInt64) :
    MatchRecord where
  tickerId := tickerId
  makerOrderId := bidOrder.orderId
  takerOrderId := sellOrder.orderId
  buyerUserId := bidOrder.userId
  sellUserId := sellOrder.userId
  buyerExpectedPrice := bidOrder.price
  matchPrice := bidsPrice
  matchQuantity := tradeQty
  timestamp := 0

/-- `list.push_back(order)` on the level `operator[]` yields. -/
def pushBack (order : Ptr) (level : Option OrderList) : OrderList :=
  level.getD [] ++ [order]

/-- `OrderBook::matchBuyOrder`. -/
def matchBuyOrder (clock : ℕ → UInt64) (book : OrderBook) (buyOrder : Ptr)
    (results : List MatchRecord) : OrderBook × List MatchRecord :=
  let walk := matchLevels (buyRecord book.tickerId) clock
    (fun askPrice limit => askPrice > limit) buyOrder book.asks.entries
    ⟨book.heap, book.userActiveOrders, results⟩
  let order := walk.2.heap.get buyOrder
  ({ book with
      heap := walk.2.heap
      userActiveOrders := walk.2.userActiveOrders
      asks := book.asks.shrink walk.1 (matchLevels_keys ..)
      bids := if order.quantity > 0 then book.bids.upsert order.price (pushBack buyOrder)
        else book.bids },
    walk.2.results)

/-- `OrderBook::matchSellOrder`. -/
def matchSellOrder (clock : ℕ → UInt64) (book : OrderBook) (sellOrder : Ptr)
    (results : List MatchRecord) : OrderBook × List MatchRecord :=
  let walk := matchLevels (sellRecord book.tickerId) clock
    (fun bidsPrice limit => bidsPrice < limit) sellOrder book.bids.entries
    ⟨book.heap, book.userActiveOrders, results⟩
  let order := walk.2.heap.get sellOrder
  ({ book with
      heap := walk.2.heap
      userActiveOrders := walk.2.userActiveOrders
      bids := book.bids.shrink walk.1 (matchLevels_keys ..)
      asks := if order.quantity > 0 then book.asks.upsert order.price (pushBack sellOrder)
        else book.asks },
    walk.2.results)

/-- `OrderBook::processOrder`.  The order object is new to the book: nothing in
it points to `newOrder` yet. -/
def processOrder (clock : ℕ → UInt64) (book : OrderBook) (newOrder : Order)
    (results : List MatchRecord) : OrderBook × List MatchRecord :=
  let ptr := book.heap.next
  let book := { book with heap := book.heap.alloc newOrder }
  let (book, results) :=
    match newOrder.side with
    | .buy => book.matchBuyOrder clock ptr results
    | .sell => book.matchSellOrder clock ptr results
  let order := book.heap.get ptr
  if order.quantity > 0 then
    ({ book with
        userActiveOrders := NestedMap.set book.userActiveOrders order.userId order.orderId ptr },
      results)
  else (book, results)

/-! ## Cancellation and queries -/

/-- `list.remove_if(o->order_id == order_id)` on the level `operator[]` yields.
The id being removed is the 32-bit one the function received. -/
def removeOrder (heap : Heap Order) (orderId : UInt32) (level : Option OrderList) : OrderList :=
  (level.getD []).filter (fun o => (heap.get o).orderId ≠ orderId.toUInt64)

/-- `if (list.empty()) levels.erase(price)`, on the level just rewritten. -/
def eraseIfEmpty {lt : UInt64 → UInt64 → Prop} (levels : OrderedMap UInt64 OrderList lt)
    (price : UInt64) : OrderedMap UInt64 OrderList lt :=
  if (price, []) ∈ levels.entries then levels.erase price else levels

/-- `OrderBook::cancelOrder`.  Its parameter is `const uint32_t& order_id`. -/
def cancelOrder (book : OrderBook) (orderId : UInt32) (userId : UInt64) :
    OrderBook × Option Order :=
  match book.userActiveOrders.lookup userId with
  | none => (book, none)
  | some orders =>
      match orders.lookup orderId.toUInt64 with
      | none => (book, none)
      | some ptr =>
          let orderToCancel := book.heap.get ptr
          let remove := removeOrder book.heap orderId
          let book :=
            match orderToCancel.side with
            | .buy => { book with
                bids := eraseIfEmpty (book.bids.upsert orderToCancel.price remove)
                  orderToCancel.price }
            | .sell => { book with
                asks := eraseIfEmpty (book.asks.upsert orderToCancel.price remove)
                  orderToCancel.price }
          ({ book with
              userActiveOrders :=
                AList.insert userId (orders.erase orderId.toUInt64) book.userActiveOrders },
            some orderToCancel)

/-- `OrderBook::getBestBidOffer`; an empty side reads `0`. -/
def getBestBidOffer (book : OrderBook) : Int64 × Int64 :=
  ((book.bids.entries.head?.elim 0 Prod.fst).toInt64,
    (book.asks.entries.head?.elim 0 Prod.fst).toInt64)

/-- `OrderBook::getUserActiveOrder`. -/
def getUserActiveOrder (book : OrderBook) (userId : UInt64) : List Order :=
  match book.userActiveOrders.lookup userId with
  | none => []
  | some orders => orders.entries.map (fun e => book.heap.get e.2)

/-! ## Reading the book -/

/-- The levels of a side with the orders themselves in place of the pointers. -/
def derefLevels (heap : Heap Order) (levels : List (UInt64 × OrderList)) :
    List (UInt64 × List Order) :=
  levels.map (fun e => (e.1, e.2.map heap.get))

/-- The bid levels, best first. -/
def bidLevels (book : OrderBook) : List (UInt64 × List Order) :=
  derefLevels book.heap book.bids.entries

/-- The ask levels, best first. -/
def askLevels (book : OrderBook) : List (UInt64 × List Order) :=
  derefLevels book.heap book.asks.entries

/-- The pointers resting in a price level. -/
def restingPtrs (book : OrderBook) : List Ptr :=
  book.bids.entries.flatMap Prod.snd ++ book.asks.entries.flatMap Prod.snd

/-- The resting orders: bids best price first, then asks best price first. -/
def resting (book : OrderBook) : List Order :=
  book.restingPtrs.map book.heap.get

end OrderBook

end ExchangeServer
