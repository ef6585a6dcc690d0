import Mathlib.Init

/-!
# Orders, records and engine events

The data types of `Common.hpp` and `EngineEvent.hpp`.  Integer fields keep the
width the source gives them, so every narrowing and every wrap-around of the
source is a function on these types.
-/

namespace ExchangeServer

/-- `OrderSide`. -/
inductive OrderSide where
  | buy
  | sell
deriving DecidableEq, Repr, Inhabited

namespace OrderSide

/-- The side an order of this side trades against. -/
def opposite : OrderSide → OrderSide
  | buy => sell
  | sell => buy

@[simp] theorem opposite_buy : buy.opposite = sell := rfl

@[simp] theorem opposite_sell : sell.opposite = buy := rfl

theorem opposite_ne (s : OrderSide) : s.opposite ≠ s := by
  cases s <;> decide

end OrderSide

/-- `Order`: a limit order; `quantity` is what is left to trade. -/
structure Order where
  orderId : UInt64
  tickerId : UInt32
  userId : UInt64
  side : OrderSide
  price : UInt64
  quantity : UInt64
  timestamp : UInt64
deriving DecidableEq, Repr, Inhabited

namespace Order

/-- `order->quantity -= q`. -/
def less (o : Order) (q : UInt64) : Order :=
  { o with quantity := o.quantity - q }

/-- The order without its quantity: what never changes while it is live. -/
def core (o : Order) : Order :=
  { o with quantity := 0 }

@[simp] theorem core_less (o : Order) (q : UInt64) : (o.less q).core = o.core := rfl

@[simp] theorem quantity_less (o : Order) (q : UInt64) :
    (o.less q).quantity = o.quantity - q := rfl

theorem toNat_quantity_less {o : Order} {q : UInt64} (h : q ≤ o.quantity) :
    (o.less q).quantity.toNat = o.quantity.toNat - q.toNat :=
  UInt64.toNat_sub_of_le _ _ h

section Core

variable {o o' : Order} (h : o.core = o'.core)
include h

theorem orderId_of_core : o.orderId = o'.orderId :=
  (congrArg Order.orderId h :)

theorem tickerId_of_core : o.tickerId = o'.tickerId :=
  (congrArg Order.tickerId h :)

theorem userId_of_core : o.userId = o'.userId :=
  (congrArg Order.userId h :)

theorem side_of_core : o.side = o'.side :=
  (congrArg Order.side h :)

theorem price_of_core : o.price = o'.price :=
  (congrArg Order.price h :)

end Core

end Order

/-- `MatchRecord`: one trade between a resting maker and an incoming taker. -/
structure MatchRecord where
  tickerId : UInt32
  makerOrderId : UInt64
  takerOrderId : UInt64
  buyerUserId : UInt64
  sellUserId : UInt64
  buyerExpectedPrice : UInt64
  matchPrice : UInt64
  matchQuantity : UInt64
  timestamp : UInt64
deriving DecidableEq, Repr

namespace MatchRecord

/-- The record with its clock reading blanked out. -/
def untimed (r : MatchRecord) : MatchRecord :=
  { r with timestamp := 0 }

end MatchRecord

/-- `CancelRecord`: an order taken off the book with what it had left. -/
structure CancelRecord where
  tickerId : UInt32
  orderId : UInt64
  userId : UInt64
  side : OrderSide
  price : UInt64
  quantity : UInt64
  timestamp : UInt64
deriving DecidableEq, Repr

/-- `EngineEvent`: the `type` tag of the source selects which of its fields are
meaningful, so the two kinds are two constructors.  `tickerId` of a cancellation
is read by the log and by the routing, never by the book. -/
inductive EngineEvent where
  | newOrder (order : Order)
  | cancelOrder (tickerId : UInt32) (cancelOrderId cancelUserId : UInt64)
deriving DecidableEq, Repr

namespace EngineEvent

/-- The order an event carries. -/
def order? : EngineEvent → Option Order
  | newOrder order => some order
  | cancelOrder .. => none

@[simp] theorem order?_newOrder (o : Order) : (newOrder o).order? = some o := rfl

@[simp] theorem order?_cancelOrder (t : UInt32) (x u : UInt64) :
    (cancelOrder t x u).order? = none := rfl

end EngineEvent

end ExchangeServer
