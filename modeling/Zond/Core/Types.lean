import Mathlib.Algebra.Order.Ring.Nat
import Mathlib.Data.UInt
import Zond.Lib.Bytes
import Zond.Lib.Outcome

/-!
# Basic Types

Amounts enter the node as `uint64` fields of a protobuf message and become
`*big.Int` by way of `int64`, so the conversion is a definition of its own: it is
the identity below `2 ^ 63` and negative above.

## Main definitions

* `Hash`, `Address`: Byte strings of fixed length.
* `int64`, `bigUint64`: The conversions the node goes through.
-/

namespace Zond

abbrev Hash := List.Vector UInt8 32

abbrev Address := List.Vector UInt8 20

-- Membership tests on lists of hashes, addresses, keys and texts use these by name.
instance lawfulBEqHash : LawfulBEq Hash := inferInstance

instance lawfulBEqAddress : LawfulBEq Address := inferInstance

instance lawfulBEqBytes : LawfulBEq (List UInt8) := inferInstance

instance lawfulBEqText : LawfulBEq (List Char) := inferInstance

/-- `common.BytesToHash`: the last 32 bytes, filled with zeros in front. -/
def bytesToHash (l : List UInt8) : Hash := Bytes.alignRight 32 l

/-- `misc.UnSizedAddressToSizedAddress`: `copy` into a 20-byte array. -/
def unSizedAddressToSizedAddress (l : List UInt8) : Address := Bytes.alignLeft 20 l

def zeroHash : Hash := Bytes.zeros 32

def zeroAddress : Address := Bytes.zeros 20

/-- `int64(x)` for a `uint64`, as the integer it denotes. -/
def int64 (x : UInt64) : Int :=
  if x.toNat < 2 ^ 63 then x.toNat else x.toNat - 2 ^ 64

/-- `x * y` for two `int64` values: the product wraps to the signed range. -/
def int64Mul (x y : Int) : Int := Int.bmod (x * y) (2 ^ 64)

/-- `big.Int.Uint64`: the low 64 bits of the absolute value. -/
def bigUint64 (x : Int) : UInt64 := UInt64.ofNat x.natAbs

/-- The bytes `binary.Write` puts for a `uint64` in big-endian order. -/
def uint64Bytes (x : UInt64) : List UInt8 := Bytes.put 8 x.toNat

theorem int64_of_lt {x : UInt64} (h : x.toNat < 2 ^ 63) : int64 x = x.toNat := if_pos h

theorem int64_of_le {x : UInt64} (h : 2 ^ 63 ≤ x.toNat) : int64 x = x.toNat - 2 ^ 64 :=
  if_neg (Nat.not_lt.2 h)

theorem int64_nonneg_iff (x : UInt64) : 0 ≤ int64 x ↔ x.toNat < 2 ^ 63 := by
  have hx := x.toNat_lt
  unfold int64
  by_cases h : x.toNat < 2 ^ 63
  · rw [if_pos h]
    omega
  · rw [if_neg h]
    omega

theorem int64_le_toNat (x : UInt64) : int64 x ≤ x.toNat := by
  unfold int64
  by_cases h : x.toNat < 2 ^ 63
  · rw [if_pos h]
  · rw [if_neg h]
    omega

theorem neg_le_int64 (x : UInt64) : -(2 ^ 63 : Int) ≤ int64 x := by
  have hx := x.toNat_lt
  unfold int64
  by_cases h : x.toNat < 2 ^ 63
  · rw [if_pos h]
    omega
  · rw [if_neg h]
    omega

theorem int64_lt (x : UInt64) : int64 x < 2 ^ 63 := by
  have hx := x.toNat_lt
  unfold int64
  by_cases h : x.toNat < 2 ^ 63
  · rw [if_pos h]
    omega
  · rw [if_neg h]
    omega

theorem int64_emod (x : UInt64) : int64 x % 2 ^ 64 = x.toNat := by
  have hx := x.toNat_lt
  unfold int64
  by_cases h : x.toNat < 2 ^ 63
  · rw [if_pos h]
    omega
  · rw [if_neg h]
    omega

theorem int64_eq_bmod (x : UInt64) : int64 x = Int.bmod x.toNat (2 ^ 64) := by
  have hx := x.toNat_lt
  unfold int64
  rw [Int.bmod_def]
  by_cases h : x.toNat < 2 ^ 63
  · rw [if_pos h]
    omega
  · rw [if_neg h]
    omega

/-- Signed and unsigned products have the same bits. -/
theorem int64Mul_int64 (x y : UInt64) : int64Mul (int64 x) (int64 y) = int64 (x * y) := by
  unfold int64Mul
  rw [int64_eq_bmod, int64_eq_bmod, int64_eq_bmod, UInt64.toNat_mul, Int.bmod_mul_bmod,
    Int.mul_bmod_bmod, Int.natCast_emod, Int.natCast_mul]
  exact (Int.emod_bmod _ (2 ^ 64)).symm

/-- The signed reading of a difference, wrapped once at most. -/
theorem int64_sub (x y : UInt64) : int64 (x - y) =
    if int64 x - int64 y < -2 ^ 63 then int64 x - int64 y + 2 ^ 64
    else if 2 ^ 63 ≤ int64 x - int64 y then int64 x - int64 y - 2 ^ 64
    else int64 x - int64 y := by
  have hx := int64_emod x
  have hy := int64_emod y
  have hxy := int64_emod (x - y)
  have hs := UInt64.toNat_sub x y
  have h1 := neg_le_int64 x
  have h2 := neg_le_int64 y
  have h3 := neg_le_int64 (x - y)
  have h4 := int64_lt x
  have h5 := int64_lt y
  have h6 := int64_lt (x - y)
  split
  · omega
  · split <;> omega

theorem toNat_bigUint64 (x : Int) : (bigUint64 x).toNat = x.natAbs % 2 ^ 64 :=
  UInt64.toNat_ofNat'

theorem bigUint64_of_nonneg {x : Int} (h0 : 0 ≤ x) (h : x < 2 ^ 64) :
    ((bigUint64 x).toNat : Int) = x := by
  rw [toNat_bigUint64, Nat.mod_eq_of_lt (by omega)]
  exact Int.natAbs_of_nonneg h0

theorem uint64Bytes_length (x : UInt64) : (uint64Bytes x).length = 8 := Bytes.length_put 8 _

theorem uint64Bytes_append_inj {x y : UInt64} {l l' : List UInt8}
    (h : uint64Bytes x ++ l = uint64Bytes y ++ l') : x = y ∧ l = l' := by
  obtain ⟨hxy, hl⟩ := Bytes.put_append_inj 8 (by exact x.toNat_lt) (by exact y.toNat_lt) h
  exact ⟨UInt64.toNat_inj.1 hxy, hl⟩

end Zond
