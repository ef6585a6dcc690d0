import ExchangeServer.Lib.Threshold
import ExchangeServer.OrderBook.Runs

/-!
# Best execution

What an incoming order gets out of a book.  It trades as much as it can: the smaller of
its quantity and of all that rests on the other side at prices within its limit.  And
it trades at the best total price: whoever fills the same quantity from the same
resting orders in any other way pays no less, or, selling, gets no more
(`processOrder_best_execution`).

The reason is a threshold price: nothing beyond it was traded, and nothing before it is
left (`fillAll_threshold`).
-/

namespace ExchangeServer

open Lib

namespace PriceTime

/-! ## What can be traded -/

/-- The resting orders that `taker` accepts. -/
def crossing (taker : Order) (resting : List Order) : List Order :=
  resting.filter fun o => Crosses taker o

theorem mem_crossing {taker o : Order} {resting : List Order} :
    o ∈ crossing taker resting ↔ o ∈ resting ∧ Crosses taker o := by
  simp [crossing]

theorem not_crosses_of_side {taker o : Order} (h : o.side = taker.side) : ¬ Crosses taker o :=
  fun hcross => OrderSide.opposite_ne taker.side (hcross.1.symm.trans h)

section Value

variable (taker : Order) (w : UInt64 → ℕ)

/-- A share of an order that `taker` accepts counts for what its price says. -/
def valueOf (o : Order) : ℕ :=
  if Crosses taker o then w o.price else 0

theorem worth_valueOf (resting : List Order) :
    worth (valueOf taker w) resting
      = total (fun o => w o.price * o.quantity.toNat) (crossing taker resting) := by
  induction resting with
  | nil => rfl
  | cons o resting ih =>
      have hshare : shareWorth (valueOf taker w) o
          = if Crosses taker o then w o.price * o.quantity.toNat else 0 := by
        unfold shareWorth valueOf
        by_cases hcross : Crosses taker o
        · have hcore : Crosses taker o.core := hcross
          rw [if_pos hcore, if_pos hcross]
          rfl
        · have hcore : ¬ Crosses taker o.core := hcross
          rw [if_neg hcore, if_neg hcross, Nat.zero_mul]
      rw [worth_cons, ih, hshare, crossing, crossing]
      by_cases hcross : Crosses taker o
      · rw [if_pos hcross, List.filter_cons_of_pos (by simpa using hcross), total_cons]
      · rw [if_neg hcross, List.filter_cons_of_neg (by simpa using hcross), Nat.zero_add]

variable {taker}

theorem fillWorth_valueOf {resting : List Order} {f : Fill} (h : ValidFill taker resting f) :
    fillWorth (valueOf taker w) f = w f.maker.price * f.quantity.toNat := by
  have hside : f.taker.side = taker.side := Order.side_of_core h.taker_core
  have hprice : f.taker.price = taker.price := Order.price_of_core h.taker_core
  have hmaker : Crosses taker f.maker.core := by
    have hcross := h.crosses
    unfold Crosses at hcross ⊢
    rwa [hside, hprice] at hcross
  have htaker : ¬ Crosses taker f.taker.core := not_crosses_of_side hside
  rw [fillWorth, valueOf, valueOf, if_pos hmaker, if_neg htaker, Nat.add_zero]
  rfl

variable (taker)

/-- What the book loses, the trades carry. -/
theorem fillAll_value {resting : List Order} (hids : DistinctIds resting) :
    total (fun o => w o.price * o.quantity.toNat)
        (crossing taker (fillAll taker resting).resting)
      + total (fun f => w f.maker.price * f.quantity.toNat) (fillAll taker resting).fills
      = total (fun o => w o.price * o.quantity.toNat) (crossing taker resting) := by
  have hworth := fillAll_worth (valueOf taker w) taker resting hids
  have hself : ∀ o : Order, o.side = taker.side → shareWorth (valueOf taker w) o = 0 := by
    intro o hside
    have hnot : ¬ Crosses taker o.core := not_crosses_of_side hside
    rw [shareWorth, valueOf, if_neg hnot, Nat.zero_mul]
  have hfills : ((fillAll taker resting).fills.map (fillWorth (valueOf taker w))).sum
      = total (fun f => w f.maker.price * f.quantity.toNat) (fillAll taker resting).fills :=
    congrArg List.sum (List.map_congr_left fun f hf =>
      fillWorth_valueOf w (fillAll_valid taker resting f hf))
  rw [worth_valueOf, worth_valueOf, hfills, hself taker rfl,
    hself _ (Order.side_of_core (core_fillAll_taker taker resting))] at hworth
  exact hworth

end Value

/-! ## How much is traded -/

theorem fillAll_taker_quantity (taker : Order) (resting : List Order) :
    (fillAll taker resting).taker.quantity.toNat
        + total (fun f => f.quantity.toNat) (fillAll taker resting).fills
      = taker.quantity.toNat := by
  fun_induction fillAll taker resting with
  | case1 => rfl
  | case2 => rfl
  | case3 taker resting hq maker hbest q later ih =>
      have hle : q ≤ taker.quantity := Std.min_le_left
      have hless := Order.toNat_quantity_less hle
      have hle' := UInt64.le_iff_toNat_le.mp hle
      have hlater : later.taker.quantity.toNat + total (fun f => f.quantity.toNat) later.fills
          = (taker.less q).quantity.toNat := ih
      rw [total_cons]
      dsimp only
      omega

/-- **The taker gets all there is, up to its quantity.** -/
theorem fillAll_quantity {taker : Order} {resting : List Order} (hids : DistinctIds resting) :
    total (fun f => f.quantity.toNat) (fillAll taker resting).fills
      = min taker.quantity.toNat
          (total (fun o => o.quantity.toNat) (crossing taker resting)) := by
  have htaker := fillAll_taker_quantity taker resting
  have hvalue := fillAll_value taker (fun _ => 1) hids
  simp only [Nat.one_mul] at hvalue
  rcases fillAll_exhausts taker resting with hdone | hnone
  · rw [hdone] at htaker
    simp only [UInt64.toNat_zero] at htaker
    omega
  · have hcore := core_fillAll_taker taker resting
    have hleft : crossing taker (fillAll taker resting).resting = [] := by
      refine List.filter_eq_nil_iff.mpr fun o ho hcross => hnone o ho ?_
      have hcross : Crosses taker o := by simpa using hcross
      unfold Crosses at hcross ⊢
      rwa [Order.side_of_core hcore, Order.price_of_core hcore]
    rw [hleft, total_nil] at hvalue
    omega

/-! ## At what price -/

/-- For an order of this side `p` is as good a price as `p'`. -/
def AsGood : OrderSide → UInt64 → UInt64 → Prop
  | .buy, p, p' => p ≤ p'
  | .sell, p, p' => p' ≤ p

theorem AsGood.refl (side : OrderSide) (p : UInt64) : AsGood side p p := by
  cases side <;> exact UInt64.le_refl p

theorem AsGood.trans {side : OrderSide} {p₁ p₂ p₃ : UInt64} (h : AsGood side p₁ p₂)
    (h' : AsGood side p₂ p₃) : AsGood side p₁ p₃ := by
  cases side with
  | buy => exact UInt64.le_trans h h'
  | sell => exact UInt64.le_trans h' h

theorem best_asGood {taker maker o : Order} {resting : List Order}
    (hbest : best taker resting = some maker) (ho : o ∈ resting) (hcross : Crosses taker o) :
    AsGood taker.side maker.price o.price := by
  have hmem : o ∈ resting.filter (fun o => Crosses taker o) := by simp [ho, hcross]
  unfold best at hbest
  cases hside : taker.side with
  | buy =>
      rw [hside] at hbest
      exact UInt64.le_iff_toNat_le.mpr
        (List.le_of_mem_argmin (f := fun o : Order => o.price.toNat) hmem hbest)
  | sell =>
      rw [hside] at hbest
      exact UInt64.le_iff_toNat_le.mpr
        (List.le_of_mem_argmax (f := fun o : Order => o.price.toNat) hmem hbest)

/-- **The threshold.**  If nothing resting is better than `p`, some price that is no
better than `p` has all trades on one side and all that is left on the other. -/
theorem fillAll_threshold (taker : Order) (resting : List Order) :
    ∀ p, (∀ o ∈ resting, Crosses taker o → AsGood taker.side p o.price) →
      ∃ θ, AsGood taker.side p θ ∧
      (∀ f ∈ (fillAll taker resting).fills, AsGood taker.side f.maker.price θ) ∧
        ∀ o ∈ (fillAll taker resting).resting, Crosses taker o → AsGood taker.side θ o.price := by
  fun_induction fillAll taker resting with
  | case1 => exact fun p hp => ⟨p, .refl _ p, by simp, hp⟩
  | case2 => exact fun p hp => ⟨p, .refl _ p, by simp, hp⟩
  | case3 taker resting hq maker hbest q later ih =>
      intro p hp
      obtain ⟨hmaker, hcross⟩ := mem_of_best hbest
      have hrested : ∀ o₁ ∈ takeFrom resting maker q, Crosses taker o₁ →
          AsGood taker.side maker.price o₁.price := by
        intro o₁ ho₁ hcross₁
        obtain ⟨o₀, ho₀, hcore, -⟩ := mem_takeFrom hmaker Std.min_le_right ho₁
        have hcross₀ : Crosses taker o₀ := by
          unfold Crosses at hcross₁ ⊢
          rwa [← Order.side_of_core hcore, ← Order.price_of_core hcore]
        rw [Order.price_of_core hcore]
        exact best_asGood hbest ho₀ hcross₀
      obtain ⟨θ, hθ, hbelow, habove⟩ := ih maker.price hrested
      refine ⟨θ, (hp maker hmaker hcross).trans hθ, fun f hf => ?_, habove⟩
      rcases List.mem_cons.mp hf with rfl | hf
      · exact hθ
      · exact hbelow f hf

theorem exists_asGood (side : OrderSide) : ∃ p, ∀ p', AsGood side p p' := by
  cases side with
  | buy => exact ⟨0, fun p' => UInt64.le_iff_toNat_le.mpr (Nat.zero_le _)⟩
  | sell =>
      refine ⟨UInt64.ofNat (2 ^ 64 - 1), fun p' => UInt64.le_iff_toNat_le.mpr ?_⟩
      have hlt := p'.toNat_lt
      rw [UInt64.toNat_ofNat']
      omega

/-- Another way for `taker` to trade `n` shares with what rests: how much it takes of
each order, within the order's quantity. -/
structure Filling (taker : Order) (resting : List Order) (n : ℕ) where
  amount : Order → ℕ
  within : ∀ o ∈ crossing taker resting, amount o ≤ o.quantity.toNat
  shares : total amount (crossing taker resting) = n

namespace Filling

variable {taker : Order} {resting : List Order} {n : ℕ}

/-- What changes hands for it. -/
def worth (way : Filling taker resting n) : ℕ :=
  total (fun o => o.price.toNat * way.amount o) (crossing taker resting)

/-- What trading gets `taker` is no worse: a buyer pays no more, a seller gets no less. -/
def NoBetterThan (way : Filling taker resting n) (worth : ℕ) : Prop :=
  match taker.side with
  | .buy => worth ≤ way.worth
  | .sell => way.worth ≤ worth

/-- The order in which the orders are listed does not matter. -/
def perm {resting' : List Order} (way : Filling taker resting n) (h : resting.Perm resting') :
    Filling taker resting' n where
  amount := way.amount
  within o ho := way.within o ((h.filter _).mem_iff.mpr ho)
  shares := (total_perm _ (h.filter _)).symm.trans way.shares

theorem worth_perm {resting' : List Order} (way : Filling taker resting n)
    (h : resting.Perm resting') : (way.perm h).worth = way.worth :=
  (total_perm _ (h.filter _)).symm

theorem noBetterThan_perm {resting' : List Order} (way : Filling taker resting n)
    (h : resting.Perm resting') {worth : ℕ} (hway : (way.perm h).NoBetterThan worth) :
    way.NoBetterThan worth := by
  unfold NoBetterThan at hway ⊢
  rwa [worth_perm] at hway

end Filling

/-- **Nothing beats filling in line.** -/
theorem fillAll_noBetter {taker : Order} {resting : List Order} (hids : DistinctIds resting)
    {n : ℕ} (hn : n = total (fun f => f.quantity.toNat) (fillAll taker resting).fills)
    (way : Filling taker resting n) :
    way.NoBetterThan
      (total (fun f => f.maker.price.toNat * f.quantity.toNat) (fillAll taker resting).fills) := by
  obtain ⟨p, hp⟩ := exists_asGood taker.side
  obtain ⟨θ, -, hdone, hleft⟩ := fillAll_threshold taker resting p fun o _ _ => hp o.price
  unfold Filling.NoBetterThan
  cases hside : taker.side with
  | buy =>
      rw [hside] at hdone hleft
      -- what a share saves against the threshold price
      have hall := fillAll_value taker (fun p => θ.toNat - p.toNat) hids
      rw [total_eq_zero fun o ho => ?_, Nat.zero_add] at hall
      · exact cost_le_of_threshold θ.toNat way.within
          (fun f hf => UInt64.le_iff_toNat_le.mp (hdone f hf)) hall.symm (way.shares.trans hn)
      · obtain ⟨hmem, hcross⟩ := mem_crossing.mp ho
        have hle := UInt64.le_iff_toNat_le.mp (hleft o hmem hcross)
        rw [Nat.sub_eq_zero_of_le hle, Nat.zero_mul]
  | sell =>
      rw [hside] at hdone hleft
      -- what a share earns beyond the threshold price
      have hall := fillAll_value taker (fun p => p.toNat - θ.toNat) hids
      rw [total_eq_zero fun o ho => ?_, Nat.zero_add] at hall
      · exact gain_le_of_threshold θ.toNat way.within
          (fun f hf => UInt64.le_iff_toNat_le.mp (hdone f hf)) hall.symm (way.shares.trans hn)
      · obtain ⟨hmem, hcross⟩ := mem_crossing.mp ho
        have hle := UInt64.le_iff_toNat_le.mp (hleft o hmem hcross)
        rw [Nat.sub_eq_zero_of_le hle, Nat.zero_mul]

end PriceTime

/-! ## The book -/

open PriceTime

/-- The shares that change hands in these trades. -/
def volume (records : List MatchRecord) : ℕ :=
  total (fun r => r.matchQuantity.toNat) records

/-- What is paid for them. -/
def turnover (records : List MatchRecord) : ℕ :=
  total (fun r => r.matchPrice.toNat * r.matchQuantity.toNat) records

/-- Volume and turnover do not depend on the clock. -/
theorem total_of_untimed {pushed : List MatchRecord} {fills : List Fill} {tickerId : UInt32}
    (h : pushed.map MatchRecord.untimed = fills.map (Fill.record tickerId)) :
    volume pushed = total (fun f => f.quantity.toNat) fills ∧
      turnover pushed = total (fun f => f.maker.price.toNat * f.quantity.toNat) fills := by
  constructor
  · have hmap := congrArg (total fun r => r.matchQuantity.toNat) h
    rw [total_map, total_map] at hmap
    exact hmap
  · have hmap := congrArg (total fun r => r.matchPrice.toNat * r.matchQuantity.toNat) h
    rw [total_map, total_map] at hmap
    exact hmap

/-- **Best execution.**  On every reachable book an incoming order trades all it can, the
smaller of its quantity and of what rests within its limit, and no other way to trade
as many shares with the same resting orders gives it a better total price. -/
theorem processOrder_best_execution {submitted : List Order} {book : OrderBook}
    (h : OrderBook.Reachable submitted book) (clock : ℕ → UInt64) {order : Order}
    (results : List MatchRecord) (hfresh : order.orderId ∉ submitted.map Order.orderId) :
    ∃ pushed, (book.processOrder clock order results).2 = results ++ pushed ∧
      volume pushed = min order.quantity.toNat
        (total (fun o => o.quantity.toNat) (crossing order book.resting)) ∧
      ∀ way : Filling order book.resting (volume pushed), way.NoBetterThan (turnover pushed) := by
  obtain ⟨log, resting, hledger, hsim⟩ := h.simulates
  have hperm : book.resting.Perm resting := hsim.perm
  obtain ⟨-, pushed, hresults, hpushed⟩ :=
    hsim.processOrder clock results fun hx => hfresh (hledger.resting_ids hx)
  rw [submit_fst] at hpushed
  obtain ⟨hvolume, hturnover⟩ := total_of_untimed hpushed
  refine ⟨pushed, hresults, ?_, fun way => ?_⟩
  · rw [hvolume, fillAll_quantity hsim.sound.distinct]
    exact congrArg _ (total_perm _ (hperm.filter _)).symm
  · rw [hturnover]
    exact way.noBetterThan_perm hperm (fillAll_noBetter hsim.sound.distinct hvolume _)

/-- A book with two asks, the dearer one first in time. -/
def twoAsks : OrderBook :=
  ((OrderBook.new 7).processOrder (fun _ => 0) ⟨1, 7, 10, .sell, 101, 5, 0⟩ []).1.processOrder
    (fun _ => 0) ⟨2, 7, 11, .sell, 100, 5, 0⟩ [] |>.1

/-- A buyer of seven of their ten shares pays no more than need be. -/
theorem processOrder_best_execution_twoAsks :
    ∃ pushed, (twoAsks.processOrder (fun _ => 0) ⟨3, 7, 12, .buy, 102, 7, 0⟩ []).2 = [] ++ pushed ∧
      volume pushed = min (7 : UInt64).toNat
        (total (fun o => o.quantity.toNat)
          (crossing ⟨3, 7, 12, .buy, 102, 7, 0⟩ twoAsks.resting)) ∧
      ∀ way : Filling ⟨3, 7, 12, .buy, 102, 7, 0⟩ twoAsks.resting (volume pushed),
        way.NoBetterThan (turnover pushed) :=
  processOrder_best_execution
    (.processOrder (.processOrder (.new 7) _ ⟨1, 7, 10, .sell, 101, 5, 0⟩ [] (by decide)) _
      ⟨2, 7, 11, .sell, 100, 5, 0⟩ [] (by decide)) _ [] (by decide)

end ExchangeServer
