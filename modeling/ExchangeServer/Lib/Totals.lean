import Mathlib.Algebra.BigOperators.Group.List.Basic
import Mathlib.Algebra.Order.BigOperators.Group.List
import Mathlib.Algebra.Order.Group.Nat
import Mathlib.Tactic.Abel

/-!
# Totals over a list of parties

A system of several parties is often accounted for by a gauge: a number, or a
multiset, that each party has by itself, and whose total over all parties an
invariant speaks of.  When one party moves and the others stand still, the total
changes by what its own gauge changes (`total_set`), so an invariant that adds up
totals is kept by a step as soon as the one party accounts for it.
-/

namespace ExchangeServer.Lib

variable {α M : Type*}

section Monoid

variable [AddCommMonoid M] (gauge : α → M)

/-- What the parties have together. -/
def total (l : List α) : M :=
  (l.map gauge).sum

@[simp] theorem total_nil : total gauge [] = 0 := rfl

@[simp] theorem total_cons (a : α) (l : List α) :
    total gauge (a :: l) = gauge a + total gauge l :=
  List.sum_cons

@[simp] theorem total_append (l r : List α) :
    total gauge (l ++ r) = total gauge l + total gauge r := by
  rw [total, List.map_append, List.sum_append]
  rfl

/-- **One party moves.** -/
theorem total_set {l : List α} {i : ℕ} {a : α} (h : l[i]? = some a) (b : α) :
    total gauge (l.set i b) + gauge a = total gauge l + gauge b := by
  induction l generalizing i with
  | nil => cases h
  | cons c l ih =>
      cases i with
      | zero =>
          obtain rfl := Option.some.inj h
          show total gauge (b :: l) + gauge c = _
          rw [total_cons, total_cons]
          abel
      | succ i =>
          show total gauge (c :: l.set i b) + gauge a = _
          rw [total_cons, total_cons, add_assoc, add_assoc, ih h]

variable {gauge} in
theorem total_eq_zero {l : List α} (h : ∀ a ∈ l, gauge a = 0) : total gauge l = 0 := by
  induction l with
  | nil => rfl
  | cons a l ih =>
      rw [total_cons, h a List.mem_cons_self, zero_add]
      exact ih fun b hb => h b (List.mem_cons_of_mem a hb)

end Monoid

/-- The parties with a property, counted. -/
theorem total_boole (p : α → Bool) (l : List α) :
    total (fun a => if p a then 1 else 0) l = l.countP p := by
  induction l with
  | nil => rfl
  | cons a l ih => rw [total_cons, List.countP_cons, ih, Nat.add_comm]

theorem le_total (gauge : α → ℕ) {l : List α} {a : α} (h : a ∈ l) : gauge a ≤ total gauge l :=
  List.le_sum_of_mem (List.mem_map_of_mem h)

end ExchangeServer.Lib
