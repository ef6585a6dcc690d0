import Mathlib.Data.Int.ModEq
import Mathlib.Data.UInt

/-!
# Machine integers as integers

The integer behind a fixed-width value.  Arithmetic wraps, so in general an
operation agrees with the one on `ℤ` only modulo a power of two (the `_modEq`
lemmas); it agrees exactly when the result is in range (the `_of_range` ones).
-/

namespace ExchangeServer.Lib

/-! ## 64 bits -/

theorem int64_add_modEq (a b : Int64) : (a + b).toInt ≡ a.toInt + b.toInt [ZMOD 2 ^ 64] := by
  rw [Int64.toInt_add]
  exact Int.bmod_emod

/-- An `int64_t` is determined by its value up to wrap-around. -/
theorem int64_eq_of_modEq {a b : Int64} (h : a.toInt ≡ b.toInt [ZMOD 2 ^ 64]) : a = b := by
  rw [← Int64.toInt_inj]
  have ha := a.le_toInt
  have ha' := a.toInt_lt
  have hb := b.le_toInt
  have hb' := b.toInt_lt
  unfold Int.ModEq at h
  omega

/-- A value that is known up to wrap-around and in range is known. -/
theorem int64_toInt_of_modEq {a : Int64} {n : ℤ} (h : a.toInt ≡ n [ZMOD 2 ^ 64])
    (hlow : -2 ^ 63 ≤ n) (hhigh : n < 2 ^ 63) : a.toInt = n := by
  have ha := a.le_toInt
  have ha' := a.toInt_lt
  unfold Int.ModEq at h
  omega

theorem int64_neg_modEq (a : Int64) : (-a).toInt ≡ -a.toInt [ZMOD 2 ^ 64] := by
  rw [Int64.toInt_neg]
  exact Int.bmod_emod

theorem int64_add_of_range {a b : Int64} (hlow : -2 ^ 63 ≤ a.toInt + b.toInt)
    (hhigh : a.toInt + b.toInt < 2 ^ 63) : (a + b).toInt = a.toInt + b.toInt := by
  rw [Int64.toInt_add]
  exact Int.bmod_eq_of_le (by omega) (by omega)

theorem int64_sub_of_range {a b : Int64} (hlow : -2 ^ 63 ≤ a.toInt - b.toInt)
    (hhigh : a.toInt - b.toInt < 2 ^ 63) : (a - b).toInt = a.toInt - b.toInt := by
  rw [Int64.toInt_sub]
  exact Int.bmod_eq_of_le (by omega) (by omega)

/-- Reading a `uint64_t` as an `int64_t`. -/
theorem toInt_toInt64 (a : UInt64) : a.toInt64.toInt = (a.toNat : ℤ).bmod (2 ^ 64) :=
  BitVec.toInt_eq_toNat_bmod a.toBitVec

theorem toInt64_modEq (a : UInt64) : a.toInt64.toInt ≡ a.toNat [ZMOD 2 ^ 64] := by
  rw [toInt_toInt64]
  exact Int.bmod_emod

theorem toInt64_of_range {a : UInt64} (h : a.toNat < 2 ^ 63) : a.toInt64.toInt = a.toNat := by
  rw [toInt_toInt64]
  exact Int.bmod_eq_of_le (by omega) (by omega)

theorem uint64_mul_modEq (a b : UInt64) :
    ((a * b).toNat : ℤ) ≡ a.toNat * b.toNat [ZMOD 2 ^ 64] := by
  rw [UInt64.toNat_mul, Int.natCast_mod, Int.natCast_mul]
  exact Int.mod_modEq _ _

theorem uint64_mul_of_range {a b : UInt64} (h : a.toNat * b.toNat < 2 ^ 64) :
    (a * b).toNat = a.toNat * b.toNat := by
  rw [UInt64.toNat_mul, Nat.mod_eq_of_lt h]

/-! ## 32 bits -/

theorem int32_add_modEq (a b : Int32) : (a + b).toInt ≡ a.toInt + b.toInt [ZMOD 2 ^ 32] := by
  rw [Int32.toInt_add]
  exact Int.bmod_emod

/-- An `int32_t` is determined by its value up to wrap-around. -/
theorem int32_eq_of_modEq {a b : Int32} (h : a.toInt ≡ b.toInt [ZMOD 2 ^ 32]) : a = b := by
  rw [← Int32.toInt_inj]
  have ha := a.le_toInt
  have ha' := a.toInt_lt
  have hb := b.le_toInt
  have hb' := b.toInt_lt
  unfold Int.ModEq at h
  omega

/-- A value that is known up to wrap-around and in range is known. -/
theorem int32_toInt_of_modEq {a : Int32} {n : ℤ} (h : a.toInt ≡ n [ZMOD 2 ^ 32])
    (hlow : -2 ^ 31 ≤ n) (hhigh : n < 2 ^ 31) : a.toInt = n := by
  have ha := a.le_toInt
  have ha' := a.toInt_lt
  unfold Int.ModEq at h
  omega

theorem int32_neg_modEq (a : Int32) : (-a).toInt ≡ -a.toInt [ZMOD 2 ^ 32] := by
  rw [Int32.toInt_neg]
  exact Int.bmod_emod

theorem int32_add_of_range {a b : Int32} (hlow : -2 ^ 31 ≤ a.toInt + b.toInt)
    (hhigh : a.toInt + b.toInt < 2 ^ 31) : (a + b).toInt = a.toInt + b.toInt := by
  rw [Int32.toInt_add]
  exact Int.bmod_eq_of_le (by omega) (by omega)

theorem int32_sub_of_range {a b : Int32} (hlow : -2 ^ 31 ≤ a.toInt - b.toInt)
    (hhigh : a.toInt - b.toInt < 2 ^ 31) : (a - b).toInt = a.toInt - b.toInt := by
  rw [Int32.toInt_sub]
  exact Int.bmod_eq_of_le (by omega) (by omega)

/-- Reading a `uint32_t` as an `int`. -/
theorem toInt_toInt32 (a : UInt32) : a.toInt32.toInt = (a.toNat : ℤ).bmod (2 ^ 32) :=
  BitVec.toInt_eq_toNat_bmod a.toBitVec

theorem toInt32_modEq (a : UInt32) : a.toInt32.toInt ≡ a.toNat [ZMOD 2 ^ 32] := by
  rw [toInt_toInt32]
  exact Int.bmod_emod

theorem toInt32_of_range {a : UInt32} (h : a.toNat < 2 ^ 31) : a.toInt32.toInt = a.toNat := by
  rw [toInt_toInt32]
  exact Int.bmod_eq_of_le (by omega) (by omega)

/-- Narrowing a `uint64_t` to an `int` keeps its low 32 bits. -/
theorem narrow_modEq (a : UInt64) : a.toUInt32.toInt32.toInt ≡ a.toNat [ZMOD 2 ^ 32] := by
  refine (toInt32_modEq _).trans ?_
  rw [UInt64.toNat_toUInt32, Int.natCast_mod]
  exact Int.mod_modEq _ _

theorem narrow_of_range {a : UInt64} (h : a.toNat < 2 ^ 31) :
    a.toUInt32.toInt32.toInt = a.toNat := by
  have hlow : a.toUInt32.toNat = a.toNat := by
    rw [UInt64.toNat_toUInt32]
    omega
  rw [toInt32_of_range (by omega), hlow]

end ExchangeServer.Lib
