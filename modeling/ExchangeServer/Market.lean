import Mathlib.Algebra.BigOperators.Group.Multiset.Basic
import ExchangeServer.OrderBookProcessor

/-!
# The market

The orders that are still to be filled, wherever they are, as one multiset.  A
worker that processes an event does four kinds of things to it, `Trades`: it fills
two orders against each other, forgets an order that has nothing left, takes an
order out for a cancellation, or leaves everything alone.

What the exchange has to account for — the cash behind the buys of a user, the
shares behind the sells, the quantity of one order — is a `Valuation`: a price for
a share of an order, with what a record of each kind reports at that price.
`Trades.balance` is then one equation for all of them.
-/

namespace ExchangeServer

open PriceTime

/-! ## Trades -/

/-- The trade is one that two orders can make, and `rec` reports it. -/
structure Fill.Reports (f : Fill) (rec : MatchRecord) : Prop where
  crosses : Crosses f.taker f.maker
  distinct : f.maker.orderId ≠ f.taker.orderId
  ticker : f.taker.tickerId = f.maker.tickerId
  pos : 0 < f.quantity
  le_maker : f.quantity ≤ f.maker.quantity
  le_taker : f.quantity ≤ f.taker.quantity
  record : rec.untimed = f.record f.maker.tickerId

namespace Fill.Reports

variable {f : Fill} {rec : MatchRecord}

theorem tickerId (h : f.Reports rec) : rec.tickerId = f.maker.tickerId :=
  congrArg MatchRecord.tickerId h.record

theorem makerOrderId (h : f.Reports rec) : rec.makerOrderId = f.maker.orderId :=
  congrArg MatchRecord.makerOrderId h.record

theorem takerOrderId (h : f.Reports rec) : rec.takerOrderId = f.taker.orderId :=
  congrArg MatchRecord.takerOrderId h.record

theorem buyerUserId (h : f.Reports rec) : rec.buyerUserId = f.buy.userId :=
  congrArg MatchRecord.buyerUserId h.record

theorem sellUserId (h : f.Reports rec) : rec.sellUserId = f.sell.userId :=
  congrArg MatchRecord.sellUserId h.record

theorem buyerExpectedPrice (h : f.Reports rec) : rec.buyerExpectedPrice = f.buy.price :=
  congrArg MatchRecord.buyerExpectedPrice h.record

theorem matchPrice (h : f.Reports rec) : rec.matchPrice = f.maker.price :=
  congrArg MatchRecord.matchPrice h.record

theorem matchQuantity (h : f.Reports rec) : rec.matchQuantity = f.quantity :=
  congrArg MatchRecord.matchQuantity h.record

/-- The two parties are a buy and a sell. -/
theorem sides (h : f.Reports rec) :
    (f.buy = f.taker ∧ f.sell = f.maker ∧ f.taker.side = .buy ∧ f.maker.side = .sell) ∨
      (f.buy = f.maker ∧ f.sell = f.taker ∧ f.taker.side = .sell ∧ f.maker.side = .buy) := by
  have hmaker := h.crosses.1
  unfold Fill.buy Fill.sell
  cases hside : f.taker.side with
  | buy => exact Or.inl ⟨rfl, rfl, rfl, by rw [hmaker, hside]; rfl⟩
  | sell => exact Or.inr ⟨rfl, rfl, rfl, by rw [hmaker, hside]; rfl⟩

/-- The buyer does not pay more than it expected to. -/
theorem matchPrice_le (h : f.Reports rec) : rec.matchPrice ≤ rec.buyerExpectedPrice := by
  have hcross := h.crosses.2
  rw [h.matchPrice, h.buyerExpectedPrice]
  unfold Fill.buy
  cases hside : f.taker.side with
  | buy =>
      rw [hside] at hcross
      exact hcross
  | sell => exact UInt64.le_refl _

end Fill.Reports

/-- What the workers do to the orders still to be filled, with the records they
make of it. -/
inductive Trades :
    Multiset Order → Multiset MatchRecord → Multiset CancelRecord → Multiset Order → Prop
  | done (orders : Multiset Order) : Trades orders 0 0 orders
  | fill {rest orders' : Multiset Order} {records : Multiset MatchRecord}
      {cancels : Multiset CancelRecord} (f : Fill) (rec : MatchRecord) (h : f.Reports rec)
      (later : Trades (f.maker.less f.quantity ::ₘ f.taker.less f.quantity ::ₘ rest)
        records cancels orders') :
      Trades (f.maker ::ₘ f.taker ::ₘ rest) (rec ::ₘ records) cancels orders'
  | forget {rest orders' : Multiset Order} {records : Multiset MatchRecord}
      {cancels : Multiset CancelRecord} (o : Order) (h : o.quantity = 0)
      (later : Trades rest records cancels orders') :
      Trades (o ::ₘ rest) records cancels orders'
  | cancel {rest orders' : Multiset Order} {records : Multiset MatchRecord}
      {cancels : Multiset CancelRecord} (o : Order) (now : UInt64)
      (later : Trades rest records cancels orders') :
      Trades (o ::ₘ rest) records (OrderBookProcessor.cancelRecord now o ::ₘ cancels) orders'

namespace Trades

variable {orders orders' orders'' : Multiset Order} {records records' : Multiset MatchRecord}
  {cancels cancels' : Multiset CancelRecord}

theorem trans (h : Trades orders records cancels orders')
    (h' : Trades orders' records' cancels' orders'') :
    Trades orders (records + records') (cancels + cancels') orders'' := by
  induction h with
  | done orders => simpa using h'
  | fill f rec hf later ih =>
      rw [Multiset.cons_add]
      exact fill f rec hf (ih h')
  | forget o ho later ih => exact forget o ho (ih h')
  | cancel o now later ih =>
      rw [Multiset.cons_add]
      exact cancel o now (ih h')

/-- No order comes into being. -/
theorem ids_le (h : Trades orders records cancels orders') :
    orders'.map Order.orderId ≤ orders.map Order.orderId := by
  induction h with
  | done orders => exact le_refl _
  | fill f rec hf later ih => simpa [Order.less] using ih
  | forget o ho later ih =>
      rw [Multiset.map_cons]
      exact ih.trans (Multiset.le_cons_self _ _)
  | cancel o now later ih =>
      rw [Multiset.map_cons]
      exact ih.trans (Multiset.le_cons_self _ _)

/-- What holds of all orders whatever their quantity still does, and the cancel
records are about such orders. -/
theorem cores {P : Order → Prop} (h : Trades orders records cancels orders')
    (hP : ∀ o ∈ orders, P o.core) :
    (∀ o ∈ orders', P o.core) ∧
      ∀ rec ∈ cancels, ∃ o now, rec = OrderBookProcessor.cancelRecord now o ∧ P o.core := by
  induction h with
  | done orders => exact ⟨hP, by simp⟩
  | fill f rec hf later ih =>
      refine ih fun o ho => ?_
      simp only [Multiset.mem_cons] at ho hP
      rcases ho with rfl | rfl | ho
      · exact hP f.maker (Or.inl rfl)
      · exact hP f.taker (Or.inr (Or.inl rfl))
      · exact hP o (Or.inr (Or.inr ho))
  | forget o ho later ih => exact ih fun o' ho' => hP o' (Multiset.mem_cons_of_mem ho')
  | cancel o now later ih =>
      obtain ⟨horders, hcancels⟩ := ih fun o' ho' => hP o' (Multiset.mem_cons_of_mem ho')
      refine ⟨horders, fun rec hrec => ?_⟩
      rcases Multiset.mem_cons.mp hrec with rfl | hrec
      · exact ⟨o, now, rfl, hP o (Multiset.mem_cons_self _ _)⟩
      · exact hcancels rec hrec

/-- Every match record reports some shares, at a price the buyer accepts. -/
theorem sound (h : Trades orders records cancels orders') :
    ∀ rec ∈ records, rec.matchPrice ≤ rec.buyerExpectedPrice ∧ 0 < rec.matchQuantity := by
  induction h with
  | done orders => simp
  | fill f rec hf later ih =>
      intro rec' hrec'
      rcases Multiset.mem_cons.mp hrec' with rfl | hmem
      · exact ⟨hf.matchPrice_le, hf.matchQuantity ▸ hf.pos⟩
      · exact ih rec' hmem
  | forget o ho later ih => exact ih
  | cancel o now later ih => exact ih

end Trades

/-! ## Valuations -/

/-- A price for a share of an order, and what records report at that price. -/
structure Valuation where
  share : Order → ℕ
  trade : MatchRecord → ℕ
  cancel : CancelRecord → ℕ
  trade_eq : ∀ f rec, f.Reports rec → trade rec = fillWorth share f
  cancel_eq : ∀ now o, cancel (OrderBookProcessor.cancelRecord now o) = shareWorth share o

namespace Valuation

variable (V : Valuation)

/-- The worth of orders. -/
def orders (m : Multiset Order) : ℕ :=
  (m.map (shareWorth V.share)).sum

/-- The worth that match records report. -/
def trades (m : Multiset MatchRecord) : ℕ :=
  (m.map V.trade).sum

/-- The worth that cancel records report. -/
def cancels (m : Multiset CancelRecord) : ℕ :=
  (m.map V.cancel).sum

@[simp] theorem orders_zero : V.orders 0 = 0 := rfl

@[simp] theorem orders_cons (o : Order) (m : Multiset Order) :
    V.orders (o ::ₘ m) = shareWorth V.share o + V.orders m := by
  simp [orders]

@[simp] theorem orders_coe (l : List Order) : V.orders l = worth V.share l := by
  simp [orders, worth]

@[simp] theorem trades_zero : V.trades 0 = 0 := rfl

@[simp] theorem trades_cons (rec : MatchRecord) (m : Multiset MatchRecord) :
    V.trades (rec ::ₘ m) = V.trade rec + V.trades m := by
  simp [trades]

@[simp] theorem trades_add (m m' : Multiset MatchRecord) :
    V.trades (m + m') = V.trades m + V.trades m' := by
  simp [trades]

@[simp] theorem cancels_zero : V.cancels 0 = 0 := rfl

@[simp] theorem cancels_cons (rec : CancelRecord) (m : Multiset CancelRecord) :
    V.cancels (rec ::ₘ m) = V.cancel rec + V.cancels m := by
  simp [cancels]

@[simp] theorem cancels_add (m m' : Multiset CancelRecord) :
    V.cancels (m + m') = V.cancels m + V.cancels m' := by
  simp [cancels]

theorem trade_le {rec : MatchRecord} {m : Multiset MatchRecord} (h : rec ∈ m) :
    V.trade rec ≤ V.trades m := by
  obtain ⟨rest, rfl⟩ := Multiset.exists_cons_of_mem h
  rw [trades_cons]
  omega

end Valuation

/-- **What the orders lose, the records report**, whatever a share is worth. -/
theorem Trades.balance (V : Valuation) {orders orders' : Multiset Order}
    {records : Multiset MatchRecord} {cancels : Multiset CancelRecord}
    (h : Trades orders records cancels orders') :
    V.orders orders = V.orders orders' + V.trades records + V.cancels cancels := by
  induction h with
  | done orders => simp
  | fill f rec hf later ih =>
      have hmaker := shareWorth_less V.share hf.le_maker
      have htaker := shareWorth_less V.share hf.le_taker
      simp only [Valuation.orders_cons, Valuation.trades_cons, V.trade_eq f rec hf, fillWorth,
        Nat.add_mul] at ih ⊢
      omega
  | forget o ho later ih =>
      rw [Valuation.orders_cons, shareWorth_of_quantity_eq_zero _ ho]
      omega
  | cancel o now later ih =>
      rw [Valuation.orders_cons, Valuation.cancels_cons, V.cancel_eq]
      omega

/-! ### The three valuations -/

/-- The cash behind the buys of a user: a share is worth its limit price, and a
trade uses up the price the buyer expected. -/
def cash (u : UInt64) : Valuation where
  share o := if o.side = .buy ∧ o.userId = u then o.price.toNat else 0
  trade rec :=
    if rec.buyerUserId = u then rec.buyerExpectedPrice.toNat * rec.matchQuantity.toNat else 0
  cancel rec :=
    if rec.side = .buy ∧ rec.userId = u then rec.price.toNat * rec.quantity.toNat else 0
  trade_eq f rec h := by
    rw [h.buyerUserId, h.buyerExpectedPrice, h.matchQuantity]
    rcases h.sides with ⟨hb, -, ht, hm⟩ | ⟨hb, -, ht, hm⟩ <;>
      simp [fillWorth, Order.core, hb, ht, hm]
  cancel_eq now o := by
    by_cases h : o.side = .buy ∧ o.userId = u <;>
      simp [shareWorth, Order.core, OrderBookProcessor.cancelRecord, h]

/-- The shares of a ticker behind the sells of a user. -/
def shares (u : UInt64) (t : UInt32) : Valuation where
  share o := if o.side = .sell ∧ o.userId = u ∧ o.tickerId = t then 1 else 0
  trade rec := if rec.sellUserId = u ∧ rec.tickerId = t then rec.matchQuantity.toNat else 0
  cancel rec :=
    if rec.side = .sell ∧ rec.userId = u ∧ rec.tickerId = t then rec.quantity.toNat else 0
  trade_eq f rec h := by
    rw [h.sellUserId, h.tickerId, h.matchQuantity]
    rcases h.sides with ⟨-, hs, ht, hm⟩ | ⟨-, hs, ht, hm⟩ <;>
      simp [fillWorth, Order.core, hs, ht, hm, h.ticker]
  cancel_eq now o := by
    by_cases h : o.side = .sell ∧ o.userId = u ∧ o.tickerId = t <;>
      simp [shareWorth, Order.core, OrderBookProcessor.cancelRecord, h]

/-- The quantity of one order. -/
def quantityOf (x : UInt64) : Valuation where
  share := ofOrder x
  trade rec :=
    if rec.makerOrderId = x ∨ rec.takerOrderId = x then rec.matchQuantity.toNat else 0
  cancel rec := if rec.orderId = x then rec.quantity.toNat else 0
  trade_eq f rec h := by
    rw [h.makerOrderId, h.takerOrderId, h.matchQuantity, fillWorth_ofOrder h.distinct]
  cancel_eq now o := (shareWorth_ofOrder x o).symm

/-! ## The flat book trades -/

/-- Filling an order is a sequence of trades. -/
theorem fillAll_trades (taker : Order) (resting : List Order) (rest : Multiset Order)
    (records : List MatchRecord) (hids : DistinctIds resting)
    (hfresh : taker.orderId ∉ resting.map Order.orderId)
    (hpos : ∀ o ∈ resting, 0 < o.quantity)
    (hticker : ∀ o ∈ resting, o.tickerId = taker.tickerId)
    (hrecords : records.map MatchRecord.untimed
      = (fillAll taker resting).fills.map (Fill.record taker.tickerId)) :
    Trades (taker ::ₘ (resting + rest)) records 0
      ((fillAll taker resting).taker ::ₘ ((fillAll taker resting).resting + rest)) := by
  fun_induction fillAll taker resting generalizing records with
  | case1 taker resting hq =>
      obtain rfl := List.map_eq_nil_iff.mp hrecords
      exact Trades.done _
  | case2 taker resting hq hbest =>
      obtain rfl := List.map_eq_nil_iff.mp hrecords
      exact Trades.done _
  | case3 taker resting hq maker hbest q later ih =>
      obtain ⟨rec, records, rfl⟩ : ∃ rec records', records = rec :: records' := by
        cases records with
        | nil => simp at hrecords
        | cons rec records' => exact ⟨rec, records', rfl⟩
      obtain ⟨hrec, hlater⟩ := List.cons.inj hrecords
      obtain ⟨hmem, hcross⟩ := mem_of_best hbest
      obtain ⟨pre, post, rfl⟩ := List.append_of_mem hmem
      have hsub := takeFrom_ids (pre ++ maker :: post) maker q
      have hqpos : 0 < q := by
        have htaker : 0 < taker.quantity := UInt64.pos_iff_ne_zero.mpr hq
        rcases Std.min_eq_or (a := taker.quantity) (b := maker.quantity) with h | h
        · exact lt_of_lt_of_eq htaker h.symm
        · exact lt_of_lt_of_eq (hpos maker hmem) h.symm
      have hreports : Fill.Reports ⟨maker, taker, q⟩ rec :=
        { crosses := hcross
          distinct := fun heq => hfresh (heq ▸ List.mem_map_of_mem hmem)
          ticker := (hticker maker hmem).symm
          pos := hqpos
          le_maker := Std.min_le_right
          le_taker := Std.min_le_left
          record := by rw [hrec, hticker maker hmem] }
      have hkept : ∀ o ∈ takeFrom (pre ++ maker :: post) maker q,
          0 < o.quantity ∧ o.tickerId = taker.tickerId := by
        intro o ho
        obtain ⟨o₀, ho₀, hcore, -, hpos₀⟩ := mem_takeFrom hmem Std.min_le_right ho
        exact ⟨hpos₀ (hpos o₀ ho₀), (Order.tickerId_of_core hcore).trans (hticker o₀ ho₀)⟩
      have hnext : Trades (taker.less q ::ₘ (takeFrom (pre ++ maker :: post) maker q + rest))
          records 0 (later.taker ::ₘ (later.resting + rest)) :=
        ih records (hids.sublist hsub) (fun hx => hfresh (hsub.subset hx))
          (fun o ho => (hkept o ho).1) (fun o ho => (hkept o ho).2) hlater
      have hstart : (taker ::ₘ ((pre ++ maker :: post : List Order) + rest) : Multiset Order)
          = maker ::ₘ taker ::ₘ (pre + post + rest) := by
        simp only [← Multiset.coe_add, ← Multiset.cons_coe, ← Multiset.singleton_add]
        abel
      rw [hstart, ← Multiset.cons_coe]
      refine Trades.fill ⟨maker, taker, q⟩ rec hreports ?_
      -- The maker that has nothing left is forgotten, any other stays where it was.
      have hsplit := takeFrom_split hids q
      split_ifs at hsplit with hdone
      · rw [hsplit] at hnext
        refine Trades.forget _ hdone ?_
        simpa only [← Multiset.coe_add] using hnext
      · have hmiddle : (taker.less q ::ₘ ((pre ++ maker.less q :: post : List Order) + rest) :
            Multiset Order) = maker.less q ::ₘ taker.less q ::ₘ (pre + post + rest) := by
          simp only [← Multiset.coe_add, ← Multiset.cons_coe, ← Multiset.singleton_add]
          abel
        rw [hsplit, hmiddle] at hnext
        exact hnext

/-- **Submitting an order to a flat book is a sequence of trades.** -/
theorem submit_trades {resting : List Order} (hsound : Sound resting) {o : Order}
    (hfresh : o.orderId ∉ resting.map Order.orderId)
    (hticker : ∀ r ∈ resting, r.tickerId = o.tickerId) (rest : Multiset Order)
    {records : List MatchRecord}
    (hrecords : records.map MatchRecord.untimed
      = (submit resting o).1.map (Fill.record o.tickerId)) :
    Trades (o ::ₘ (resting + rest)) records 0 ((submit resting o).2 + rest) := by
  have hfill := fillAll_trades o resting rest records hsound.distinct hfresh hsound.pos hticker
    hrecords
  rw [submit_snd]
  split_ifs with hleft
  · have hend : ((fillAll o resting).taker ::ₘ ((fillAll o resting).resting + rest) :
          Multiset Order)
        = ((fillAll o resting).resting ++ [(fillAll o resting).taker] : List Order) + rest := by
      simp only [← Multiset.coe_add, Multiset.coe_singleton, ← Multiset.singleton_add]
      abel
    rw [hend] at hfill
    exact hfill
  · have hzero : (fillAll o resting).taker.quantity = 0 := by
      by_contra hne
      exact hleft (UInt64.pos_iff_ne_zero.mpr hne)
    simpa using hfill.trans (Trades.forget _ hzero (Trades.done _))

/-- **Cancelling in a flat book takes out one order or none.** -/
theorem cancel_trades {resting : List Order} (hids : DistinctIds resting) (x u now : UInt64)
    (rest : Multiset Order) :
    Trades (resting + rest) 0
      (((PriceTime.cancel resting x u).1.map (OrderBookProcessor.cancelRecord now)).toList :
        Multiset CancelRecord)
      ((PriceTime.cancel resting x u).2 + rest) := by
  cases hc : (PriceTime.cancel resting x u).1 with
  | none =>
      rw [cancel_snd_of_none hc]
      exact Trades.done _
  | some o =>
      rw [Multiset.coe_eq_coe.mpr (cancel_perm hids hc), ← Multiset.cons_coe, Multiset.cons_add]
      exact Trades.cancel o now (Trades.done _)

end ExchangeServer
