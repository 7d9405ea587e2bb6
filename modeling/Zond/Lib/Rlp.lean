import Zond.Lib.Bytes

/-!
# RLP Items

The data model of recursive length prefix encoding. How an item is framed in bytes is
not looked at; what matters to a client is how its values become items and which items
its decoders take.

A number is written in as few big-endian bytes as hold it, zero in none, and a
decoder rejects a number with a leading zero byte. An array of fixed length is a
string of that length, and a decoder rejects any other.

## Main definitions

* `Item`: A byte string or a list of items.
* `Item.toNat?`, `Item.toArray?`: Decoders.
-/

namespace Rlp

/-- A byte string or a list of items. -/
inductive Item where
  | string (bytes : List UInt8)
  | list (items : List Item)

/-- The number of bytes that hold `n` and no fewer. -/
def width (n : Nat) : Nat := if n = 0 then 0 else Nat.log2 n / 8 + 1

/-- `n` in as few big-endian bytes as hold it. -/
def bigEndian (n : Nat) : List UInt8 := Bytes.put (width n) n

/-- The number big-endian bytes denote. -/
def fromBytes (l : List UInt8) : Nat := l.foldl (fun n b => n * 256 + b.toNat) 0

def ofNat (n : Nat) : Item := .string (bigEndian n)

namespace Item

/-- A number of any size, without a leading zero byte. -/
def toNat? : Item → Option Nat
  | string l => if l.head? = some 0 then none else some (fromBytes l)
  | list _ => none

/-- A number of at most eight bytes, without a leading zero byte. -/
def toUint64? : Item → Option UInt64
  | string l =>
    if 8 < l.length ∨ l.head? = some 0 then none else some (UInt64.ofNat (fromBytes l))
  | list _ => none

def toBytes? : Item → Option (List UInt8)
  | string l => some l
  | list _ => none

def toArray? (n : Nat) : Item → Option (List.Vector UInt8 n)
  | string l => if h : l.length = n then some ⟨l, h⟩ else none
  | list _ => none

def toListOf? {α : Type} (decode : Item → Option α) : Item → Option (List α)
  | string _ => none
  | list items => items.mapM decode

end Item

theorem fromBytes_append_singleton (l : List UInt8) (b : UInt8) :
    fromBytes (l ++ [b]) = fromBytes l * 256 + b.toNat := by
  rw [fromBytes, List.foldl_append]
  rfl

theorem fromBytes_put (w : Nat) {n : Nat} (h : n < 256 ^ w) : fromBytes (Bytes.put w n) = n := by
  induction w generalizing n with
  | zero =>
    have hzero : n = 0 := by omega
    subst hzero
    rfl
  | succ w ih =>
    have hdiv : n / 256 < 256 ^ w := Nat.div_lt_of_lt_mul (by rwa [pow_succ, mul_comm] at h)
    rw [Bytes.put, fromBytes_append_singleton, ih hdiv, UInt8.toNat_ofNat']
    change n / 256 * 256 + n % 256 = n
    omega

theorem lt_pow_width (n : Nat) : n < 256 ^ width n := by
  by_cases hn : n = 0
  · subst hn
    decide
  · rw [width, if_neg hn, show (256 : Nat) = 2 ^ 8 from rfl, ← pow_mul]
    have hlog : n < 2 ^ (Nat.log2 n + 1) := Nat.lt_log2_self
    refine lt_of_lt_of_le hlog (Nat.pow_le_pow_right (by decide) ?_)
    omega

theorem pow_width_le {n : Nat} (hn : n ≠ 0) : 256 ^ (width n - 1) ≤ n := by
  rw [width, if_neg hn, Nat.add_sub_cancel, show (256 : Nat) = 2 ^ 8 from rfl, ← pow_mul]
  refine le_trans (Nat.pow_le_pow_right (by decide) ?_) (Nat.log2_self_le hn)
  omega

theorem put_succ_eq_cons (w n : Nat) :
    Bytes.put (w + 1) n = UInt8.ofNat (n / 256 ^ w) :: Bytes.put w n := by
  induction w generalizing n with
  | zero => rw [pow_zero, Nat.div_one]; rfl
  | succ w ih =>
    rw [Bytes.put, ih, List.cons_append, Nat.div_div_eq_div_mul, ← pow_succ', Bytes.put]

theorem head?_bigEndian (n : Nat) : (bigEndian n).head? ≠ some 0 := by
  by_cases hn : n = 0
  · subst hn
    decide
  · have hlow := pow_width_le hn
    have hhigh := lt_pow_width n
    have hwidth : width n = width n - 1 + 1 := by
      rw [width, if_neg hn]
      rfl
    rw [hwidth, pow_succ] at hhigh
    rw [bigEndian, hwidth, put_succ_eq_cons, List.head?_cons]
    intro hzero
    -- The leading byte is the quotient, which is neither zero nor past a byte.
    have hbyte : (n / 256 ^ (width n - 1)) % 256 = 0 := by
      have hz : UInt8.ofNat (n / 256 ^ (width n - 1)) = UInt8.ofNat 0 := Option.some_inj.1 hzero
      rwa [Bytes.ofNat_eq_iff, Nat.zero_mod] at hz
    have hpos : 0 < n / 256 ^ (width n - 1) := Nat.div_pos hlow (Nat.pow_pos (by decide))
    have hlt : n / 256 ^ (width n - 1) < 256 := Nat.div_lt_of_lt_mul hhigh
    omega

@[simp] theorem toNat?_ofNat (n : Nat) : (ofNat n).toNat? = some n := by
  rw [ofNat, Item.toNat?, if_neg (head?_bigEndian n), bigEndian, fromBytes_put _ (lt_pow_width n)]

theorem length_bigEndian_le {n w : Nat} (h : n < 256 ^ w) : (bigEndian n).length ≤ w := by
  rw [bigEndian, Bytes.length_put]
  by_cases hn : n = 0
  · rw [width, if_pos hn]
    exact Nat.zero_le w
  · have hlow := lt_of_le_of_lt (pow_width_le hn) h
    have hlt := (Nat.pow_lt_pow_iff_right (by decide : 1 < 256)).1 hlow
    omega

@[simp] theorem toUint64?_ofNat (n : UInt64) : (ofNat n.toNat).toUint64? = some n := by
  have hn : n.toNat < 256 ^ 8 := n.toNat_lt
  have hlength : ¬8 < (bigEndian n.toNat).length := Nat.not_lt.2 (length_bigEndian_le hn)
  rw [ofNat, Item.toUint64?, if_neg (not_or.2 ⟨hlength, head?_bigEndian _⟩), bigEndian,
    fromBytes_put _ (lt_pow_width _), UInt64.ofNat_toNat]

@[simp] theorem toArray?_val {n : Nat} (v : List.Vector UInt8 n) :
    (Item.string v.val).toArray? n = some v := dif_pos v.property

theorem toListOf?_map_of {α β : Type} {encode : α → Item} {decode : Item → Option β} {f : α → β}
    (h : ∀ a, decode (encode a) = some (f a)) (l : List α) :
    (Item.list (l.map encode)).toListOf? decode = some (l.map f) := by
  rw [Item.toListOf?]
  induction l with
  | nil => rfl
  | cons a l ih => rw [List.map_cons, List.mapM_cons, h, ih]; rfl

theorem toListOf?_map {α : Type} {encode : α → Item} {decode : Item → Option α}
    (h : ∀ a, decode (encode a) = some a) (l : List α) :
    (Item.list (l.map encode)).toListOf? decode = some l := by
  rw [toListOf?_map_of h, List.map_id']

end Rlp
