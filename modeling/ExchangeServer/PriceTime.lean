import Mathlib.Data.List.MinMax
import Mathlib.Data.UInt
import Mathlib.Algebra.BigOperators.Group.List.Basic
import ExchangeServer.Common

/-!
# Price-time priority on a flat book

What an order book is for, with no levels, no index and no pointers: the resting
orders are one list in arrival order, and an incoming order is filled by asking,
again and again, for the best-priced resting order it crosses, the earliest one
among equals.

* `best` — the resting order next in line.
* `fillAll` — fill against `best` until nothing crosses or the taker is done.
* `submit`, `cancel` — the two operations.

Every trade is a `Fill`, which keeps both orders as they stood when they met, so
that what a trade does to any quantity-weighted total of the book is one equation
(`fillAll_worth`).  The level-map implementation is compared with this book in
`ExchangeServer.OrderBook.Simulation`.
-/

namespace ExchangeServer

/-! ## Trades -/

/-- One trade: the two orders as they stood before it, and what changed hands. -/
structure Fill where
  maker : Order
  taker : Order
  quantity : UInt64
deriving DecidableEq, Repr

namespace Fill

/-- The party that buys. -/
def buy (f : Fill) : Order :=
  match f.taker.side with
  | .buy => f.taker
  | .sell => f.maker

/-- The party that sells. -/
def sell (f : Fill) : Order :=
  match f.taker.side with
  | .buy => f.maker
  | .sell => f.taker

/-- The trade as it is reported, its clock reading left blank: the resting order
sets the price. -/
def record (tickerId : UInt32) (f : Fill) : MatchRecord where
  tickerId := tickerId
  makerOrderId := f.maker.orderId
  takerOrderId := f.taker.orderId
  buyerUserId := f.buy.userId
  sellUserId := f.sell.userId
  buyerExpectedPrice := f.buy.price
  matchPrice := f.maker.price
  matchQuantity := f.quantity
  timestamp := 0

end Fill

namespace PriceTime

/-! ## The book -/

/-- `maker` is on the other side and at a price `taker` accepts. -/
def Crosses (taker maker : Order) : Prop :=
  maker.side = taker.side.opposite ∧
    match taker.side with
    | .buy => maker.price ≤ taker.price
    | .sell => taker.price ≤ maker.price

instance (taker maker : Order) : Decidable (Crosses taker maker) := by
  unfold Crosses
  cases taker.side <;> infer_instance

/-- The resting order a taker trades with next: best price first, then earliest
arrival (`List.argmin` and `List.argmax` return the first optimum). -/
def best (taker : Order) (resting : List Order) : Option Order :=
  let crossing := resting.filter (fun o => Crosses taker o)
  match taker.side with
  | .buy => crossing.argmin (fun o => o.price.toNat)
  | .sell => crossing.argmax (fun o => o.price.toNat)

/-- Take `q` off a resting order where it stands; it leaves when nothing is left. -/
def takeFrom (resting : List Order) (maker : Order) (q : UInt64) : List Order :=
  if (maker.less q).quantity = 0 then
    resting.filter (fun o => o.orderId ≠ maker.orderId)
  else
    resting.map (fun o => if o.orderId = maker.orderId then maker.less q else o)

/-- What filling an order comes to. -/
structure Outcome where
  fills : List Fill
  taker : Order
  resting : List Order

theorem mem_of_best {taker maker : Order} {resting : List Order}
    (h : best taker resting = some maker) : maker ∈ resting ∧ Crosses taker maker := by
  have hmem : maker ∈ resting.filter (fun o => Crosses taker o) := by
    unfold best at h
    cases hside : taker.side with
    | buy =>
        rw [hside] at h
        exact List.argmin_mem h
    | sell =>
        rw [hside] at h
        exact List.argmax_mem h
  simpa using hmem

theorem length_takeFrom_lt {resting : List Order} {maker : Order} (q : UInt64)
    (hmem : maker ∈ resting) (hdone : (maker.less q).quantity = 0) :
    (takeFrom resting maker q).length < resting.length := by
  rw [takeFrom, if_pos hdone]
  exact List.length_filter_lt_length_iff_exists.mpr ⟨maker, hmem, by simp⟩

theorem length_takeFrom_le (resting : List Order) (maker : Order) (q : UInt64) :
    (takeFrom resting maker q).length ≤ resting.length := by
  unfold takeFrom
  split_ifs
  · exact List.length_filter_le _ _
  · simp

/-- A trade uses up the taker or the maker. -/
theorem less_min_eq_zero {taker maker : Order}
    (hmaker : (maker.less (min taker.quantity maker.quantity)).quantity ≠ 0) :
    (taker.less (min taker.quantity maker.quantity)).quantity = 0 := by
  rcases Std.min_eq_or (a := taker.quantity) (b := maker.quantity) with h | h
  · simp [h]
  · simp [h] at hmaker

theorem toNat_less_min_le (taker maker : Order) :
    (taker.less (min taker.quantity maker.quantity)).quantity.toNat
      ≤ taker.quantity.toNat := by
  rw [Order.toNat_quantity_less Std.min_le_left]
  omega

/-- Fill `taker` against the book, best order first. -/
def fillAll (taker : Order) (resting : List Order) : Outcome :=
  if taker.quantity = 0 then ⟨[], taker, resting⟩
  else
    match _hbest : best taker resting with
    | none => ⟨[], taker, resting⟩
    | some maker =>
        let q := min taker.quantity maker.quantity
        let later := fillAll (taker.less q) (takeFrom resting maker q)
        { later with fills := ⟨maker, taker, q⟩ :: later.fills }
termination_by resting.length + taker.quantity.toNat
decreasing_by
  rename_i hq
  have hpos : taker.quantity.toNat ≠ 0 := fun h0 => hq (UInt64.toNat_inj.mp h0)
  by_cases hdone : (maker.less (min taker.quantity maker.quantity)).quantity = 0
  · have h₁ := length_takeFrom_lt _ (mem_of_best _hbest).1 hdone
    have h₂ := toNat_less_min_le taker maker
    omega
  · have h₁ := length_takeFrom_le resting maker (min taker.quantity maker.quantity)
    have h₂ := congrArg UInt64.toNat (less_min_eq_zero hdone)
    simp only [UInt64.toNat_zero] at h₂
    omega

/-- An incoming order is filled and what it has left rests behind everything else. -/
def submit (resting : List Order) (order : Order) : List Fill × List Order :=
  let out := fillAll order resting
  (out.fills,
    if 0 < out.taker.quantity then out.resting ++ [out.taker] else out.resting)

/-- The resting order with this id and this owner, and the book without it. -/
def cancel (resting : List Order) (orderId userId : UInt64) : Option Order × List Order :=
  (resting.find? (fun o => o.orderId = orderId ∧ o.userId = userId),
    resting.filter (fun o => ¬ (o.orderId = orderId ∧ o.userId = userId)))

/-! ## What filling does to the book -/

/-- The orders of a book are told apart by their ids. -/
def DistinctIds (resting : List Order) : Prop :=
  (resting.map Order.orderId).Nodup

theorem DistinctIds.eq_of_mem {resting : List Order} (h : DistinctIds resting)
    {a b : Order} (ha : a ∈ resting) (hb : b ∈ resting) (hid : a.orderId = b.orderId) :
    a = b :=
  List.inj_on_of_nodup_map h ha hb hid

theorem takeFrom_ids (resting : List Order) (maker : Order) (q : UInt64) :
    ((takeFrom resting maker q).map Order.orderId).Sublist
      (resting.map Order.orderId) := by
  unfold takeFrom
  split_ifs
  · exact List.filter_sublist.map _
  · have hids : ∀ o ∈ resting,
        (if o.orderId = maker.orderId then maker.less q else o).orderId = o.orderId := by
      intro o _
      by_cases ho : o.orderId = maker.orderId <;> simp [ho, Order.less]
    rw [List.map_map]
    exact (List.map_congr_left hids) ▸ List.Sublist.refl _

/-- Every order of the book after a trade is an order from before it, with no
more quantity than it had. -/
theorem mem_takeFrom {resting : List Order} {maker o : Order} {q : UInt64}
    (hmaker : maker ∈ resting) (hq : q ≤ maker.quantity)
    (ho : o ∈ takeFrom resting maker q) :
    ∃ o₀ ∈ resting, o.core = o₀.core ∧ o.quantity ≤ o₀.quantity ∧
      (0 < o₀.quantity → 0 < o.quantity) := by
  unfold takeFrom at ho
  split_ifs at ho with hdone
  · exact ⟨o, List.mem_of_mem_filter ho, rfl, UInt64.le_refl _, id⟩
  · obtain ⟨o₀, ho₀, rfl⟩ := List.mem_map.mp ho
    split_ifs with hid
    · refine ⟨maker, hmaker, rfl, ?_, fun _ => ?_⟩
      · rw [UInt64.le_iff_toNat_le, Order.toNat_quantity_less hq]
        omega
      · exact UInt64.pos_iff_ne_zero.mpr hdone
    · exact ⟨o₀, ho₀, rfl, UInt64.le_refl _, id⟩

theorem fillAll_ids (taker : Order) (resting : List Order) :
    ((fillAll taker resting).resting.map Order.orderId).Sublist
      (resting.map Order.orderId) := by
  fun_induction fillAll taker resting with
  | case1 => exact List.Sublist.refl _
  | case2 => exact List.Sublist.refl _
  | case3 taker resting hq maker hbest q later ih =>
      exact ih.trans (takeFrom_ids resting maker q)

theorem DistinctIds.fillAll {resting : List Order} (h : DistinctIds resting)
    (taker : Order) : DistinctIds (fillAll taker resting).resting :=
  h.sublist (fillAll_ids taker resting)

/-- The taker comes out with the quantity it has left and nothing else changed. -/
theorem core_fillAll_taker (taker : Order) (resting : List Order) :
    (fillAll taker resting).taker.core = taker.core := by
  fun_induction fillAll taker resting with
  | case1 => rfl
  | case2 => rfl
  | case3 taker resting hq maker hbest q later ih => exact ih

/-- Every order left in the book was in it before, with no more quantity. -/
theorem mem_fillAll_resting (taker : Order) (resting : List Order) {o : Order}
    (ho : o ∈ (fillAll taker resting).resting) :
    ∃ o₀ ∈ resting, o.core = o₀.core ∧ o.quantity ≤ o₀.quantity ∧
      (0 < o₀.quantity → 0 < o.quantity) := by
  fun_induction fillAll taker resting with
  | case1 => exact ⟨o, ho, rfl, UInt64.le_refl _, id⟩
  | case2 => exact ⟨o, ho, rfl, UInt64.le_refl _, id⟩
  | case3 taker resting hq maker hbest q later ih =>
      obtain ⟨o₁, ho₁, hcore₁, hle₁, hpos₁⟩ := ih ho
      obtain ⟨o₀, ho₀, hcore₀, hle₀, hpos₀⟩ :=
        mem_takeFrom (mem_of_best hbest).1 Std.min_le_right ho₁
      exact ⟨o₀, ho₀, hcore₁.trans hcore₀, UInt64.le_trans hle₁ hle₀,
        fun h => hpos₁ (hpos₀ h)⟩

/-- What is known of a trade between `taker` and an order of `resting`. -/
structure ValidFill (taker : Order) (resting : List Order) (f : Fill) : Prop where
  /-- The maker was resting. -/
  maker_mem : ∃ o ∈ resting, f.maker.core = o.core
  /-- The taker is the incoming order. -/
  taker_core : f.taker.core = taker.core
  /-- They accept each other's price. -/
  crosses : Crosses f.taker f.maker
  /-- Neither trades more than it has. -/
  le_maker : f.quantity ≤ f.maker.quantity
  le_taker : f.quantity ≤ f.taker.quantity

theorem fillAll_valid (taker : Order) (resting : List Order) :
    ∀ f ∈ (fillAll taker resting).fills, ValidFill taker resting f := by
  fun_induction fillAll taker resting with
  | case1 => simp
  | case2 => simp
  | case3 taker resting hq maker hbest q later ih =>
      obtain ⟨hmem, hcross⟩ := mem_of_best hbest
      intro f hf
      rcases List.mem_cons.mp hf with rfl | hf
      · exact ⟨⟨maker, hmem, rfl⟩, rfl, hcross, Std.min_le_right, Std.min_le_left⟩
      · have hv := ih f hf
        obtain ⟨o₁, ho₁, hcore₁⟩ := hv.maker_mem
        obtain ⟨o₀, ho₀, hcore₀, -⟩ := mem_takeFrom hmem Std.min_le_right ho₁
        exact ⟨⟨o₀, ho₀, hcore₁.trans hcore₀⟩, hv.taker_core, hv.crosses, hv.le_maker,
          hv.le_taker⟩

/-- Trades are never empty in a book without empty orders. -/
theorem fillAll_pos (taker : Order) (resting : List Order)
    (hpos : ∀ o ∈ resting, 0 < o.quantity) :
    ∀ f ∈ (fillAll taker resting).fills, 0 < f.quantity := by
  fun_induction fillAll taker resting with
  | case1 => simp
  | case2 => simp
  | case3 taker resting hq maker hbest q later ih =>
      have hmem := (mem_of_best hbest).1
      intro f hf
      rcases List.mem_cons.mp hf with rfl | hf
      · have htaker := UInt64.lt_iff_toNat_lt.mp (UInt64.pos_iff_ne_zero.mpr hq)
        have hmaker := UInt64.lt_iff_toNat_lt.mp (hpos maker hmem)
        rw [UInt64.lt_iff_toNat_lt, UInt64.toNat_min]
        omega
      · refine ih (fun o ho => ?_) f hf
        obtain ⟨o₀, ho₀, -, -, h⟩ := mem_takeFrom hmem Std.min_le_right ho
        exact h (hpos o₀ ho₀)

/-- Filling stops only when the taker is done or nothing it crosses is left. -/
theorem fillAll_exhausts (taker : Order) (resting : List Order) :
    (fillAll taker resting).taker.quantity = 0 ∨
      ∀ o ∈ (fillAll taker resting).resting,
        ¬ Crosses (fillAll taker resting).taker o := by
  fun_induction fillAll taker resting with
  | case1 taker resting hq => exact Or.inl hq
  | case2 taker resting hq hbest =>
      refine Or.inr fun o ho hcross => ?_
      have hnil : resting.filter (fun o => Crosses taker o) = [] := by
        unfold best at hbest
        cases hside : taker.side with
        | buy =>
            rw [hside] at hbest
            exact List.argmin_eq_none.mp hbest
        | sell =>
            rw [hside] at hbest
            exact List.argmax_eq_none.mp hbest
      have hmem : o ∈ resting.filter (fun o => Crosses taker o) := by simp [ho, hcross]
      rw [hnil] at hmem
      cases hmem
  | case3 taker resting hq maker hbest q later ih => exact ih

/-! ## Quantity-weighted totals

`v` prices one share of an order and may depend on everything but its quantity.
Filling moves worth from the orders to the trades and loses none of it. -/

/-- What an order is worth when a share of it is worth `v`. -/
def shareWorth (v : Order → ℕ) (o : Order) : ℕ :=
  v o.core * o.quantity.toNat

/-- What a list of orders is worth. -/
def worth (v : Order → ℕ) (orders : List Order) : ℕ :=
  (orders.map (shareWorth v)).sum

/-- What a trade takes off the worth of its two orders. -/
def fillWorth (v : Order → ℕ) (f : Fill) : ℕ :=
  (v f.maker.core + v f.taker.core) * f.quantity.toNat

@[simp] theorem worth_nil (v : Order → ℕ) : worth v [] = 0 := rfl

@[simp] theorem worth_cons (v : Order → ℕ) (o : Order) (os : List Order) :
    worth v (o :: os) = shareWorth v o + worth v os := by
  simp [worth]

@[simp] theorem worth_append (v : Order → ℕ) (os os' : List Order) :
    worth v (os ++ os') = worth v os + worth v os' := by
  simp [worth]

theorem worth_perm (v : Order → ℕ) {os os' : List Order} (h : os.Perm os') :
    worth v os = worth v os' :=
  (h.map _).sum_eq

theorem shareWorth_of_quantity_eq_zero (v : Order → ℕ) {o : Order} (h : o.quantity = 0) :
    shareWorth v o = 0 := by
  simp [shareWorth, h]

theorem shareWorth_less (v : Order → ℕ) {o : Order} {q : UInt64} (h : q ≤ o.quantity) :
    shareWorth v (o.less q) + v o.core * q.toNat = shareWorth v o := by
  have hle := UInt64.le_iff_toNat_le.mp h
  rw [shareWorth, shareWorth, Order.core_less, Order.toNat_quantity_less h, ← Nat.mul_add,
    Nat.sub_add_cancel hle]

/-- Taking from a resting order touches that order alone, where it stands. -/
theorem takeFrom_split {pre post : List Order} {maker : Order}
    (hids : DistinctIds (pre ++ maker :: post)) (q : UInt64) :
    takeFrom (pre ++ maker :: post) maker q =
      pre ++ (if (maker.less q).quantity = 0 then post else maker.less q :: post) := by
  have hother : ∀ o, o ∈ pre ∨ o ∈ post → o.orderId ≠ maker.orderId := by
    unfold DistinctIds at hids
    rw [List.map_append, List.map_cons, List.nodup_append, List.nodup_cons] at hids
    obtain ⟨-, ⟨hpost, -⟩, hpre⟩ := hids
    rintro o (ho | ho) heq
    · exact hpre _ (List.mem_map_of_mem ho) _ List.mem_cons_self heq
    · exact hpost (heq ▸ List.mem_map_of_mem ho)
  have hfilter : ∀ l : List Order, (∀ o ∈ l, o.orderId ≠ maker.orderId) →
      l.filter (fun o => o.orderId ≠ maker.orderId) = l := by
    intro l hl
    exact List.filter_eq_self.mpr fun o ho => by simp [hl o ho]
  have hmap : ∀ l : List Order, (∀ o ∈ l, o.orderId ≠ maker.orderId) →
      l.map (fun o => if o.orderId = maker.orderId then maker.less q else o) = l := by
    intro l hl
    exact (List.map_congr_left fun o ho => if_neg (hl o ho)).trans (List.map_id _)
  have hpre := fun o ho => hother o (Or.inl ho)
  have hpost := fun o ho => hother o (Or.inr ho)
  unfold takeFrom
  split_ifs with hdone
  · rw [List.filter_append, List.filter_cons_of_neg (by simp), hfilter pre hpre,
      hfilter post hpost]
  · rw [List.map_append, List.map_cons, hmap pre hpre, hmap post hpost, if_pos rfl]

theorem takeFrom_worth (v : Order → ℕ) {resting : List Order} {maker : Order} {q : UInt64}
    (hids : DistinctIds resting) (hmem : maker ∈ resting) (hq : q ≤ maker.quantity) :
    worth v (takeFrom resting maker q) + v maker.core * q.toNat = worth v resting := by
  obtain ⟨pre, post, rfl⟩ := List.append_of_mem hmem
  have hshare := shareWorth_less v hq
  rw [takeFrom_split hids]
  split_ifs with hdone
  · rw [shareWorth_of_quantity_eq_zero v hdone] at hshare
    simp only [worth_append, worth_cons]
    omega
  · simp only [worth_append, worth_cons]
    omega

/-- **Filling conserves worth.**  What the book and the taker lose, the trades
carry. -/
theorem fillAll_worth (v : Order → ℕ) (taker : Order) (resting : List Order)
    (hids : DistinctIds resting) :
    worth v (fillAll taker resting).resting + shareWorth v (fillAll taker resting).taker
        + ((fillAll taker resting).fills.map (fillWorth v)).sum
      = worth v resting + shareWorth v taker := by
  fun_induction fillAll taker resting with
  | case1 => simp
  | case2 => simp
  | case3 taker resting hq maker hbest q later ih =>
      have hmem := (mem_of_best hbest).1
      have hmaker : worth v (takeFrom resting maker q) + v maker.core * q.toNat
          = worth v resting := takeFrom_worth v hids hmem Std.min_le_right
      have htaker : shareWorth v (taker.less q) + v taker.core * q.toNat
          = shareWorth v taker := shareWorth_less v Std.min_le_left
      have hlater : worth v later.resting + shareWorth v later.taker
            + (later.fills.map (fillWorth v)).sum
          = worth v (takeFrom resting maker q) + shareWorth v (taker.less q) :=
        ih (hids.sublist (takeFrom_ids resting maker q))
      simp only [List.map_cons, List.sum_cons, fillWorth, Nat.add_mul]
      omega

/-! ## The two operations -/

theorem submit_fst (resting : List Order) (o : Order) :
    (submit resting o).1 = (fillAll o resting).fills := rfl

theorem submit_snd (resting : List Order) (o : Order) :
    (submit resting o).2 =
      if 0 < (fillAll o resting).taker.quantity then
        (fillAll o resting).resting ++ [(fillAll o resting).taker]
      else (fillAll o resting).resting := rfl

/-- A book that the two operations maintain: ids tell its orders apart, none is
empty, and no bid reaches an ask. -/
structure Sound (resting : List Order) : Prop where
  distinct : DistinctIds resting
  pos : ∀ o ∈ resting, 0 < o.quantity
  uncrossed : ∀ b ∈ resting, ∀ a ∈ resting, b.side = .buy → a.side = .sell →
    b.price < a.price

theorem Sound.nil : Sound [] :=
  ⟨List.nodup_nil, by simp, by simp⟩

theorem Sound.fillAll {resting : List Order} (h : Sound resting) (taker : Order) :
    Sound (fillAll taker resting).resting where
  distinct := h.distinct.fillAll taker
  pos o ho := by
    obtain ⟨o₀, ho₀, -, -, hpos⟩ := mem_fillAll_resting taker resting ho
    exact hpos (h.pos o₀ ho₀)
  uncrossed b hb a ha hbs has := by
    obtain ⟨b₀, hb₀, hbcore, -⟩ := mem_fillAll_resting taker resting hb
    obtain ⟨a₀, ha₀, hacore, -⟩ := mem_fillAll_resting taker resting ha
    rw [Order.price_of_core hbcore, Order.price_of_core hacore]
    exact h.uncrossed b₀ hb₀ a₀ ha₀ (Order.side_of_core hbcore ▸ hbs)
      (Order.side_of_core hacore ▸ has)

/-- A remainder that crosses nothing may rest. -/
theorem Sound.rest {resting : List Order} (h : Sound resting) {o : Order}
    (hid : o.orderId ∉ resting.map Order.orderId) (hpos : 0 < o.quantity)
    (hcross : ∀ m ∈ resting, ¬ Crosses o m) : Sound (resting ++ [o]) where
  distinct := by
    unfold DistinctIds
    rw [List.map_append, List.map_singleton]
    exact List.nodup_append.mpr ⟨h.distinct, List.nodup_singleton _, by
      intro x hx y hy hxy
      rw [List.mem_singleton.mp hy] at hxy
      exact hid (hxy ▸ hx)⟩
  pos m hm := by
    rcases List.mem_append.mp hm with hm | hm
    · exact h.pos m hm
    · exact List.mem_singleton.mp hm ▸ hpos
  uncrossed b hb a ha hbs has := by
    rcases List.mem_append.mp hb with hb' | hb' <;>
      rcases List.mem_append.mp ha with ha' | ha'
    · exact h.uncrossed b hb' a ha' hbs has
    · obtain rfl := List.mem_singleton.mp ha'
      have hnot := hcross b hb'
      simp only [Crosses, has, hbs, OrderSide.opposite_sell, true_and] at hnot
      exact UInt64.not_le.mp hnot
    · obtain rfl := List.mem_singleton.mp hb'
      have hnot := hcross a ha'
      simp only [Crosses, has, hbs, OrderSide.opposite_buy, true_and] at hnot
      exact UInt64.not_le.mp hnot
    · rw [List.mem_singleton.mp hb'] at hbs
      rw [List.mem_singleton.mp ha', hbs] at has
      cases has

/-- **`submit` keeps a sound book sound**, given a fresh id. -/
theorem Sound.submit {resting : List Order} (h : Sound resting) {o : Order}
    (hid : o.orderId ∉ resting.map Order.orderId) : Sound (submit resting o).2 := by
  rw [submit_snd]
  split_ifs with hpos
  · refine (h.fillAll o).rest ?_ hpos ?_
    · rw [Order.orderId_of_core (core_fillAll_taker o resting)]
      exact fun hmem => hid ((fillAll_ids o resting).subset hmem)
    · rcases fillAll_exhausts o resting with hzero | hnone
      · rw [hzero] at hpos
        exact absurd hpos (by decide)
      · exact hnone
  · exact h.fillAll o

/-- **`submit` conserves worth.** -/
theorem submit_worth (v : Order → ℕ) {resting : List Order} (h : DistinctIds resting)
    (o : Order) :
    worth v (submit resting o).2 + ((submit resting o).1.map (fillWorth v)).sum
      = worth v resting + shareWorth v o := by
  have hfill := fillAll_worth v o resting h
  rw [submit_fst, submit_snd]
  split_ifs with hpos
  · simp only [worth_append, worth_cons, worth_nil]
    omega
  · have hzero : (fillAll o resting).taker.quantity = 0 := by
      by_contra hne
      exact hpos (UInt64.pos_iff_ne_zero.mpr hne)
    rw [shareWorth_of_quantity_eq_zero v hzero] at hfill
    omega

/-- Every order of the book after `submit` was resting or is the incoming one. -/
theorem mem_submit {resting : List Order} {o x : Order} (hx : x ∈ (submit resting o).2) :
    (∃ x₀ ∈ resting, x.core = x₀.core ∧ x.quantity ≤ x₀.quantity) ∨ x.core = o.core := by
  have hold : x ∈ (fillAll o resting).resting →
      ∃ x₀ ∈ resting, x.core = x₀.core ∧ x.quantity ≤ x₀.quantity := by
    intro hx
    obtain ⟨x₀, hx₀, hcore, hle, -⟩ := mem_fillAll_resting o resting hx
    exact ⟨x₀, hx₀, hcore, hle⟩
  rw [submit_snd] at hx
  split_ifs at hx with hpos
  · rcases List.mem_append.mp hx with hx | hx
    · exact Or.inl (hold hx)
    · rw [List.mem_singleton.mp hx]
      exact Or.inr (core_fillAll_taker o resting)
  · exact Or.inl (hold hx)

/-- In a book with distinct ids, cancelling finds the order it is asked for. -/
theorem cancel_eq_some {resting : List Order} (h : DistinctIds resting) {o : Order}
    (ho : o ∈ resting) : (cancel resting o.orderId o.userId).1 = some o := by
  have hsome : ((cancel resting o.orderId o.userId).1).isSome := by
    simp only [cancel, List.find?_isSome]
    exact ⟨o, ho, by simp⟩
  obtain ⟨o', ho'⟩ := Option.isSome_iff_exists.mp hsome
  have hp := List.find?_some ho'
  have hmem : o' ∈ resting := List.mem_of_find?_eq_some ho'
  simp only [decide_eq_true_eq] at hp
  rw [ho', h.eq_of_mem hmem ho hp.1]

theorem mem_of_cancel {resting : List Order} {x u : UInt64} {o : Order}
    (h : (cancel resting x u).1 = some o) : o ∈ resting ∧ o.orderId = x ∧ o.userId = u := by
  have hp := List.find?_some h
  simp only [decide_eq_true_eq] at hp
  exact ⟨List.mem_of_find?_eq_some h, hp⟩

/-- In a book with distinct ids, cancelling takes out the one order it finds. -/
theorem cancel_perm {resting : List Order} (hids : DistinctIds resting) {x u : UInt64}
    {o : Order} (hc : (cancel resting x u).1 = some o) :
    resting.Perm (o :: (cancel resting x u).2) := by
  obtain ⟨ho, rfl, rfl⟩ := mem_of_cancel hc
  have hdeleted : resting.filter
      (fun o' => o'.orderId = o.orderId ∧ o'.userId = o.userId) = [o] := by
    obtain ⟨pre, post, rfl⟩ := List.append_of_mem ho
    have hother : ∀ l : List Order, l.Sublist (pre ++ o :: post) → o ∉ l →
        l.filter (fun o' => o'.orderId = o.orderId ∧ o'.userId = o.userId) = [] := by
      intro l hl hnot
      refine List.filter_eq_nil_iff.mpr fun o' ho' hkey => hnot ?_
      rw [decide_eq_true_eq] at hkey
      exact hids.eq_of_mem (hl.subset ho') ho hkey.1 ▸ ho'
    obtain ⟨-, hcons, hdisj⟩ := List.nodup_append'.mp (List.Nodup.of_map _ hids)
    rw [List.filter_append, List.filter_cons_of_pos (by simp),
      hother pre (List.sublist_append_left _ _) fun h => hdisj h List.mem_cons_self,
      hother post ((List.sublist_cons_self _ _).trans (List.sublist_append_right _ _))
        (List.nodup_cons.mp hcons).1]
    rfl
  have hperm := List.filter_append_perm
    (fun o' : Order => decide (o'.orderId = o.orderId ∧ o'.userId = o.userId)) resting
  rw [hdeleted] at hperm
  refine hperm.symm.trans (List.Perm.cons o (List.Perm.of_eq (List.filter_congr fun o' _ => ?_)))
  rw [decide_not]

theorem cancel_snd_of_none {resting : List Order} {x u : UInt64}
    (h : (cancel resting x u).1 = none) : (cancel resting x u).2 = resting := by
  refine List.filter_eq_self.mpr fun o ho => ?_
  have hnot := List.find?_eq_none.mp h o ho
  simp only [decide_eq_true_eq] at hnot ⊢
  exact hnot

theorem Sound.cancel {resting : List Order} (h : Sound resting) (x u : UInt64) :
    Sound (cancel resting x u).2 where
  distinct := h.distinct.sublist (List.filter_sublist.map _)
  pos o ho := h.pos o (List.mem_of_mem_filter ho)
  uncrossed b hb a ha := h.uncrossed b (List.mem_of_mem_filter hb) a (List.mem_of_mem_filter ha)

end PriceTime

end ExchangeServer
