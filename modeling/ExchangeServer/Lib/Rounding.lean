import Mathlib.Data.Int.Order.Basic
import Mathlib.Data.Nat.Log
import Mathlib.Tactic.Ring

/-!
# Rounding integers to significant bits

What a conversion to a binary floating-point format with `p` bits of precision does to
an integer within its range of exponents: the integer goes to a nearest one with at
most `p` significant bits, and from the middle to the one whose last bit is even.

`roundBits_eq_iff` says which numbers come through unchanged: those that are `p` bits
followed by zeros.
-/

namespace ExchangeServer.Lib

/-- At most `p` bits, followed by zeros. -/
def Significant (p n : ℕ) : Prop :=
  ∃ m e, m < 2 ^ p ∧ n = m * 2 ^ e

/-- The bits that are cut off. -/
def excessBits (p n : ℕ) : ℕ :=
  n.log2 + 1 - p

/-- Round to a multiple of `unit`, a tie to the even one. -/
def roundTo (unit n : ℕ) : ℕ :=
  if 2 * (n % unit) < unit ∨ 2 * (n % unit) = unit ∧ n / unit % 2 = 0 then n / unit * unit
  else (n / unit + 1) * unit

/-- Round to `p` significant bits. -/
def roundBits (p n : ℕ) : ℕ :=
  roundTo (2 ^ excessBits p n) n

variable {p n : ℕ}

theorem lt_two_pow_excessBits (p n : ℕ) : n < 2 ^ (p + excessBits p n) := by
  have hlog : n < 2 ^ (n.log2 + 1) := Nat.lt_log2_self
  refine Nat.lt_of_lt_of_le hlog (Nat.pow_le_pow_right Nat.two_pos ?_)
  unfold excessBits
  omega

/-- What is left after the cut has `p` bits. -/
theorem div_lt_of_excessBits (p n : ℕ) : n / 2 ^ excessBits p n < 2 ^ p := by
  rw [Nat.div_lt_iff_lt_mul (Nat.two_pow_pos _), ← Nat.pow_add]
  exact lt_two_pow_excessBits p n

theorem significant_roundBits (hp : 0 < p) (n : ℕ) : Significant p (roundBits p n) := by
  have hdown := div_lt_of_excessBits p n
  unfold roundBits roundTo
  split_ifs with hnear
  · exact ⟨_, _, hdown, rfl⟩
  · -- Rounding up may carry into one more bit.
    rcases Nat.lt_or_eq_of_le (Nat.succ_le_of_lt hdown) with hlt | hcarry
    · exact ⟨_, _, hlt, rfl⟩
    · refine ⟨1, p + excessBits p n, Nat.one_lt_two_pow (Nat.ne_of_gt hp), ?_⟩
      rw [Nat.one_mul, Nat.pow_add, ← hcarry]

theorem roundTo_le (unit n : ℕ) : roundTo unit n ≤ n + unit := by
  have hdown : n / unit * unit ≤ n := Nat.div_mul_le_self n unit
  unfold roundTo
  split_ifs
  · omega
  · rw [Nat.add_mul, Nat.one_mul]
    omega

/-- Rounding at most doubles. -/
theorem roundBits_le (hp : 0 < p) (hn : 0 < n) : roundBits p n ≤ n + n := by
  have hunit : 2 ^ excessBits p n ≤ 2 ^ n.log2 :=
    Nat.pow_le_pow_right Nat.two_pos (by unfold excessBits; omega)
  have hlog : 2 ^ n.log2 ≤ n := Nat.log2_self_le (Nat.ne_of_gt hn)
  have hround := roundTo_le (2 ^ excessBits p n) n
  unfold roundBits
  omega

/-- The bits that are cut off a number with `p` significant bits are zeros. -/
theorem dvd_of_significant (h : Significant p n) : 2 ^ excessBits p n ∣ n := by
  obtain ⟨m, e, hm, rfl⟩ := h
  rcases Nat.eq_zero_or_pos (m * 2 ^ e) with hzero | hpos
  · rw [hzero]
    exact dvd_zero _
  · have hlog : (m * 2 ^ e).log2 < p + e := by
      rw [Nat.log2_lt (Nat.ne_of_gt hpos), Nat.pow_add]
      exact Nat.mul_lt_mul_of_pos_right hm (Nat.two_pow_pos e)
    have hle : excessBits p (m * 2 ^ e) ≤ e := by
      unfold excessBits
      omega
    exact Dvd.dvd.mul_left (Nat.pow_dvd_pow 2 hle) m

/-- **What rounding leaves as it is.** -/
theorem roundBits_eq_iff (hp : 0 < p) : roundBits p n = n ↔ Significant p n := by
  constructor
  · intro h
    rw [← h]
    exact significant_roundBits hp n
  · intro h
    have hdvd := dvd_of_significant h
    have hmod : n % 2 ^ excessBits p n = 0 := Nat.mod_eq_zero_of_dvd hdvd
    rw [roundBits, roundTo, hmod, if_pos (.inl (Nat.two_pow_pos _)), Nat.div_mul_cancel hdvd]

/-- An integer is rounded by its absolute value. -/
def roundInt (p : ℕ) (z : ℤ) : ℤ :=
  z.sign * roundBits p z.natAbs

theorem roundInt_of_pos (p : ℕ) {z : ℤ} (h : 0 < z) : roundInt p z = roundBits p z.natAbs := by
  rw [roundInt, Int.sign_eq_one_of_pos h, one_mul]

theorem roundInt_eq_iff (hp : 0 < p) {z : ℤ} : roundInt p z = z ↔ Significant p z.natAbs := by
  rw [← roundBits_eq_iff hp]
  rcases eq_or_ne z 0 with rfl | hz
  · exact iff_of_true (zero_mul _) ((roundBits_eq_iff hp).mpr ⟨0, 0, Nat.two_pow_pos p, rfl⟩)
  · have hsign : z.sign ≠ 0 := fun h => hz (Int.sign_eq_zero_iff_zero.mp h)
    have habs : z.sign * (z.natAbs : ℤ) = z := Int.sign_mul_natAbs z
    constructor
    · intro h
      exact Int.ofNat.inj (mul_left_cancel₀ hsign (h.trans habs.symm))
    · intro h
      rw [roundInt, h, habs]

/-- Every number below `2 ^ p` comes through. -/
theorem significant_of_lt (h : n < 2 ^ p) : Significant p n :=
  ⟨n, 0, h, (Nat.mul_one n).symm⟩

end ExchangeServer.Lib
