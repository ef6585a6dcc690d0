import ExchangeServer.Common
import ExchangeServer.Protocol

/-!
# Replies that list things

The replies of the query handlers of `Handler.hpp` that are as long as what they
list: active orders, holdings, trades and stocks.  Each is a header with a status
and a count, and then the items, as the packed structures of `Protocol.hpp`.
-/

namespace ExchangeServer

open Lib

/-- `OrdersResponseHeader` and its three siblings: a status and a count. -/
def listHeader (status : UInt8) (count : ℕ) : List Byte :=
  littleEndian 1 status.toNat ++ littleEndian 4 (UInt32.ofNat count).toNat

/-- A header with status `1` and the items. -/
def listReply {α : Type*} (item : α → List Byte) (items : List α) : List Byte :=
  listHeader 1 items.length ++ items.flatMap item

theorem length_listReply {α : Type*} {item : α → List Byte} {size : ℕ}
    (hitem : ∀ a, (item a).length = size) (items : List α) :
    (listReply item items).length = 5 + size * items.length := by
  have hitems : (items.flatMap item).length = size * items.length := by
    induction items with
    | nil => rfl
    | cons a items ih =>
        rw [List.flatMap_cons, List.length_append, ih, hitem, List.length_cons, Nat.mul_succ,
          Nat.add_comm]
  rw [listReply, listHeader, List.length_append, List.length_append, hitems,
    length_littleEndian, length_littleEndian]

/-- `OrderItem`. -/
def orderItem (o : Order) : List Byte :=
  littleEndian 8 o.orderId.toNat ++ littleEndian 4 o.tickerId.toNat
    ++ littleEndian 1 (match o.side with | .buy => 0 | .sell => 1)
    ++ littleEndian 8 o.price.toNat ++ littleEndian 8 o.quantity.toNat

/-- The reply of `GetOrdersHandler` to a user with these active orders. -/
def ordersReply (activeOrders : List Order) : List Byte :=
  listReply orderItem activeOrders

/-- `HoldingItem`. -/
def holdingItem (holding : UInt32 × Int32) : List Byte :=
  littleEndian 4 holding.1.toNat ++ littleEndian 4 holding.2.toUInt32.toNat

/-- The reply of `GetHoldingsHandler` to a user with these holdings. -/
def holdingsReply (holdings : List (UInt32 × Int32)) : List Byte :=
  listReply holdingItem (holdings.filter fun holding => 0 < holding.2)

/-- The reply of `GetTrendHandler` with these prices. -/
def trendReply (prices : List UInt64) : List Byte :=
  listReply (fun price => littleEndian 8 price.toNat) prices

/-- `StockItem`: the symbol is cut to 15 characters and padded with zeros. -/
def stockItem (stock : UInt32 × List Byte) : List Byte :=
  littleEndian 4 stock.1.toNat ++ stock.2.take 15
    ++ List.replicate (16 - (stock.2.take 15).length) 0

/-- The reply of `GetAllStocksHandler` when these stocks are listed. -/
def stocksReply (stocks : List (UInt32 × List Byte)) : List Byte :=
  listReply stockItem stocks

theorem length_ordersReply (activeOrders : List Order) :
    (ordersReply activeOrders).length = 5 + 29 * activeOrders.length :=
  length_listReply (fun o => by simp [orderItem]) activeOrders

theorem length_holdingsReply (holdings : List (UInt32 × Int32)) :
    (holdingsReply holdings).length
      = 5 + 8 * (holdings.filter fun holding => 0 < holding.2).length :=
  length_listReply (fun holding => by simp [holdingItem]) _

theorem length_trendReply (prices : List UInt64) :
    (trendReply prices).length = 5 + 8 * prices.length :=
  length_listReply (fun _ => length_littleEndian 8 _) prices

theorem length_stocksReply (stocks : List (UInt32 × List Byte)) :
    (stocksReply stocks).length = 5 + 20 * stocks.length := by
  refine length_listReply (fun stock => ?_) stocks
  have hcut : (stock.2.take 15).length ≤ 15 := List.length_take_le 15 stock.2
  rw [stockItem, List.length_append, List.length_append, length_littleEndian,
    List.length_replicate]
  omega

end ExchangeServer
