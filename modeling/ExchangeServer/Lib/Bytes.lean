import Mathlib.Data.List.Basic
import Mathlib.Data.UInt

/-!
# Fixed-width numbers as bytes

A number of `w` bytes, least significant byte first (`littleEndian`) or last
(`bigEndian`).  Reading back what was written gives the number modulo what `w`
bytes can hold, so a field of a machine integer type survives exactly.
-/

namespace ExchangeServer.Lib

/-- A byte. -/
abbrev Byte := UInt8

/-- The `w` low bytes of `n`, least significant first. -/
def littleEndian : ℕ → ℕ → List Byte
  | 0, _ => []
  | w + 1, n => UInt8.ofNat n :: littleEndian w (n / 256)

/-- The number with these bytes, least significant first. -/
def ofLittleEndian : List Byte → ℕ
  | [] => 0
  | b :: bs => b.toNat + 256 * ofLittleEndian bs

/-- The `w` low bytes of `n`, most significant first. -/
def bigEndian (w n : ℕ) : List Byte :=
  (littleEndian w n).reverse

/-- The number with these bytes, most significant first. -/
def ofBigEndian (bs : List Byte) : ℕ :=
  ofLittleEndian bs.reverse

@[simp] theorem length_littleEndian (w n : ℕ) : (littleEndian w n).length = w := by
  induction w generalizing n with
  | zero => rfl
  | succ w ih => rw [littleEndian, List.length_cons, ih]

@[simp] theorem length_bigEndian (w n : ℕ) : (bigEndian w n).length = w := by
  rw [bigEndian, List.length_reverse, length_littleEndian]

/-- **Reading what was written.** -/
theorem ofLittleEndian_littleEndian (w n : ℕ) :
    ofLittleEndian (littleEndian w n) = n % 256 ^ w := by
  induction w generalizing n with
  | zero => exact (Nat.mod_one n).symm
  | succ w ih =>
      have hbyte : (UInt8.ofNat n).toNat = n % 256 := UInt8.toNat_ofNat'
      rw [littleEndian, ofLittleEndian, ih, hbyte, Nat.pow_succ', Nat.mod_mul]

theorem ofBigEndian_bigEndian (w n : ℕ) : ofBigEndian (bigEndian w n) = n % 256 ^ w := by
  rw [ofBigEndian, bigEndian, List.reverse_reverse, ofLittleEndian_littleEndian]

/-! ## Machine integers -/

theorem ofLittleEndian_uint8 (x : UInt8) :
    UInt8.ofNat (ofLittleEndian (littleEndian 1 x.toNat)) = x := by
  have hlt : x.toNat < 256 ^ 1 := x.toNat_lt
  rw [ofLittleEndian_littleEndian, Nat.mod_eq_of_lt hlt, UInt8.ofNat_toNat]

theorem ofLittleEndian_uint32 (x : UInt32) :
    UInt32.ofNat (ofLittleEndian (littleEndian 4 x.toNat)) = x := by
  have hlt : x.toNat < 256 ^ 4 := x.toNat_lt
  rw [ofLittleEndian_littleEndian, Nat.mod_eq_of_lt hlt, UInt32.ofNat_toNat]

theorem ofLittleEndian_uint64 (x : UInt64) :
    UInt64.ofNat (ofLittleEndian (littleEndian 8 x.toNat)) = x := by
  have hlt : x.toNat < 256 ^ 8 := x.toNat_lt
  rw [ofLittleEndian_littleEndian, Nat.mod_eq_of_lt hlt, UInt64.ofNat_toNat]

theorem ofBigEndian_uint16 (x : UInt16) :
    UInt16.ofNat (ofBigEndian (bigEndian 2 x.toNat)) = x := by
  have hlt : x.toNat < 256 ^ 2 := x.toNat_lt
  rw [ofBigEndian_bigEndian, Nat.mod_eq_of_lt hlt, UInt16.ofNat_toNat]

theorem ofBigEndian_uint32 (x : UInt32) :
    UInt32.ofNat (ofBigEndian (bigEndian 4 x.toNat)) = x := by
  have hlt : x.toNat < 256 ^ 4 := x.toNat_lt
  rw [ofBigEndian_bigEndian, Nat.mod_eq_of_lt hlt, UInt32.ofNat_toNat]

end ExchangeServer.Lib
