import Mathlib.Algebra.BigOperators.Ring.List
import Mathlib.Algebra.Order.BigOperators.Group.List
import Mathlib.Algebra.Order.Ring.Nat
import ExchangeServer.Lib.Totals

/-!
# Buying below a threshold

Shares are to be had from several sources, each with a price and a supply.  Whoever
buys all shares that are cheaper than some threshold, and none that are dearer, pays
no more for them than anybody else pays for as many (`cost_le_of_threshold`).  Seen
from the other side, whoever sells first at the prices above a threshold gets no less
(`gain_le_of_threshold`).

The sources (`items`) and the purchases (`fills`) are lists of any types, so that the
purchases may be anything that knows its price and quantity.
-/

namespace ExchangeServer.Lib

variable {α β : Type*} {items : List α} {fills : List β} {price supply amount : α → ℕ}
  {paid taken : β → ℕ}

theorem total_add (f g : α → ℕ) (l : List α) :
    total (fun a => f a + g a) l = total f l + total g l := by
  induction l with
  | nil => rfl
  | cons a l ih =>
      rw [total_cons, total_cons, total_cons, ih]
      omega

theorem total_mul_left (c : ℕ) (f : α → ℕ) (l : List α) :
    total (fun a => c * f a) l = c * total f l := by
  induction l with
  | nil => rfl
  | cons a l ih => rw [total_cons, total_cons, ih, Nat.mul_add]

theorem total_perm (f : α → ℕ) {l l' : List α} (h : l.Perm l') : total f l = total f l' :=
  (h.map f).sum_eq

theorem total_map {γ : Type*} (f : β → ℕ) (g : γ → β) (l : List γ) :
    total f (l.map g) = total (fun c => f (g c)) l := by
  rw [total, total, List.map_map]
  rfl

theorem total_le_total {f g : α → ℕ} {l : List α} (h : ∀ a ∈ l, f a ≤ g a) :
    total f l ≤ total g l :=
  List.sum_le_sum h

theorem total_congr {f g : α → ℕ} {l : List α} (h : ∀ a ∈ l, f a = g a) :
    total f l = total g l :=
  congrArg List.sum (List.map_congr_left h)

/-- **Buying below a threshold first is cheapest.**  `fills` bought at prices up to `θ`
and, as `hall` says, everything that was cheaper; `amount` is another way to buy as
many shares. -/
theorem cost_le_of_threshold (θ : ℕ) (hsupply : ∀ a ∈ items, amount a ≤ supply a)
    (hbelow : ∀ f ∈ fills, paid f ≤ θ)
    (hall : total (fun a => (θ - price a) * supply a) items
      = total (fun f => (θ - paid f) * taken f) fills)
    (htotal : total amount items = total taken fills) :
    total (fun f => paid f * taken f) fills ≤ total (fun a => price a * amount a) items := by
  -- what buying below `θ` saves against paying `θ` for every share
  have hitems : total (fun a => θ * amount a) items
      ≤ total (fun a => price a * amount a) items
        + total (fun a => (θ - price a) * supply a) items := by
    rw [← total_add]
    refine total_le_total fun a ha => ?_
    calc θ * amount a ≤ (price a + (θ - price a)) * amount a :=
          Nat.mul_le_mul_right _ (by omega)
      _ = price a * amount a + (θ - price a) * amount a := Nat.add_mul _ _ _
      _ ≤ price a * amount a + (θ - price a) * supply a :=
          Nat.add_le_add_left (Nat.mul_le_mul_left _ (hsupply a ha)) _
  have hfills : total (fun f => θ * taken f) fills
      = total (fun f => paid f * taken f) fills
        + total (fun f => (θ - paid f) * taken f) fills := by
    rw [← total_add]
    refine total_congr fun f hf => ?_
    rw [← Nat.add_mul, Nat.add_sub_cancel' (hbelow f hf)]
  rw [total_mul_left, htotal, ← total_mul_left, hfills, hall] at hitems
  omega

/-- **Selling above a threshold first earns most.**  `fills` sold at prices from `θ` on
and, as `hall` says, to everybody who paid more; `amount` is another way to sell as many
shares. -/
theorem gain_le_of_threshold (θ : ℕ) (hsupply : ∀ a ∈ items, amount a ≤ supply a)
    (habove : ∀ f ∈ fills, θ ≤ paid f)
    (hall : total (fun a => (price a - θ) * supply a) items
      = total (fun f => (paid f - θ) * taken f) fills)
    (htotal : total amount items = total taken fills) :
    total (fun a => price a * amount a) items ≤ total (fun f => paid f * taken f) fills := by
  -- what selling above `θ` earns beyond `θ` for every share
  have hitems : total (fun a => price a * amount a) items
      ≤ total (fun a => θ * amount a) items
        + total (fun a => (price a - θ) * supply a) items := by
    rw [← total_add]
    refine total_le_total fun a ha => ?_
    calc price a * amount a ≤ (θ + (price a - θ)) * amount a :=
          Nat.mul_le_mul_right _ (by omega)
      _ = θ * amount a + (price a - θ) * amount a := Nat.add_mul _ _ _
      _ ≤ θ * amount a + (price a - θ) * supply a :=
          Nat.add_le_add_left (Nat.mul_le_mul_left _ (hsupply a ha)) _
  have hfills : total (fun f => paid f * taken f) fills
      = total (fun f => θ * taken f) fills
        + total (fun f => (paid f - θ) * taken f) fills := by
    rw [← total_add]
    refine total_congr fun f hf => ?_
    rw [← Nat.add_mul, Nat.add_sub_cancel' (habove f hf)]
  rw [total_mul_left, htotal, ← total_mul_left, hall, ← hfills] at hitems
  exact hitems

end ExchangeServer.Lib
