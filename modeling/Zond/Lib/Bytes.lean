import Mathlib.Data.Vector.Basic

/-!
# Byte Strings of Fixed Width

## Main definitions

* `Bytes.put`: A number in a fixed number of big-endian bytes.
* `Bytes.alignLeft`, `Bytes.alignRight`: A byte string fitted into an array.

## Theorems

* `Bytes.put_append_inj`: A concatenation of such fields can be taken apart again.
-/

namespace Bytes

variable {n : Nat} {l : List UInt8}

/-- The low `w` bytes of `n`, most significant first. -/
def put : Nat → Nat → List UInt8
  | 0, _ => []
  | w + 1, n => put w (n / 256) ++ [UInt8.ofNat n]

@[simp] theorem length_put (w n : Nat) : (put w n).length = w := by
  induction w generalizing n with
  | zero => rfl
  | succ w ih => rw [put, List.length_append, ih, List.length_singleton]

theorem ofNat_eq_iff (a b : Nat) : UInt8.ofNat a = UInt8.ofNat b ↔ a % 256 = b % 256 := by
  rw [← UInt8.toNat_inj, UInt8.toNat_ofNat', UInt8.toNat_ofNat']

theorem put_inj (w : Nat) {a b : Nat} (ha : a < 256 ^ w) (hb : b < 256 ^ w)
    (h : put w a = put w b) : a = b := by
  induction w generalizing a b with
  | zero => omega
  | succ w ih =>
    rw [put, put] at h
    obtain ⟨hhigh, hlow⟩ := List.append_inj' h rfl
    rw [List.singleton_inj, ofNat_eq_iff] at hlow
    have hdiv : a / 256 = b / 256 := by
      refine ih ?_ ?_ hhigh
      · exact Nat.div_lt_of_lt_mul (by rwa [pow_succ, mul_comm] at ha)
      · exact Nat.div_lt_of_lt_mul (by rwa [pow_succ, mul_comm] at hb)
    rw [← Nat.div_add_mod a 256, ← Nat.div_add_mod b 256, hdiv, hlow]

/-- A string as a number, the first byte the lowest digit. -/
def code (l : List UInt8) : Nat := l.foldr (fun b n => b.toNat + 256 * n) 0

theorem code_inj {l l' : List UInt8} (hlen : l.length = l'.length) (h : code l = code l') :
    l = l' := by
  induction l generalizing l' with
  | nil => exact (List.eq_nil_of_length_eq_zero hlen.symm).symm
  | cons b l ih =>
    cases l' with
    | nil => cases hlen
    | cons b' l' =>
      have hb := b.toNat_lt
      have hb' := b'.toNat_lt
      change b.toNat + 256 * code l = b'.toNat + 256 * code l' at h
      have hhead : b.toNat = b'.toNat := by omega
      rw [UInt8.toNat_inj.1 hhead, ih (Nat.succ.inj hlen) (by omega)]

/-- Strings of one width are compared as numbers, which takes the kernel fewer steps than
    comparing byte by byte. -/
instance decEqVector : DecidableEq (List.Vector UInt8 n) := fun v w =>
  match h : Nat.beq (code v.val) (code w.val) with
  | true => isTrue (Subtype.ext
      (code_inj (v.property.trans w.property.symm) (Nat.eq_of_beq_eq_true h)))
  | false => isFalse fun heq => Nat.ne_of_beq_eq_false h (heq ▸ rfl)

/-- Fit a string into `n` bytes by its low-order end: crop the front, or fill it
    with zeros. -/
def alignRight (n : Nat) (l : List UInt8) : List.Vector UInt8 n :=
  ⟨List.replicate (n - l.length) 0 ++ l.drop (l.length - n), by
    rw [List.length_append, List.length_replicate, List.length_drop]
    omega⟩

/-- Copy a string to the start of `n` bytes: crop the end, or leave it zero. -/
def alignLeft (n : Nat) (l : List UInt8) : List.Vector UInt8 n :=
  ⟨l.take n ++ List.replicate (n - l.length) 0, by
    rw [List.length_append, List.length_replicate, List.length_take]
    omega⟩

theorem alignRight_of_length (h : l.length = n) : alignRight n l = ⟨l, h⟩ := by
  subst h
  apply Subtype.ext
  simp only [alignRight, Nat.sub_self, List.replicate_zero, List.drop_zero, List.nil_append]

@[simp] theorem alignRight_val (v : List.Vector UInt8 n) : alignRight n v.val = v :=
  alignRight_of_length v.property

theorem alignLeft_of_length (h : l.length = n) : alignLeft n l = ⟨l, h⟩ := by
  subst h
  apply Subtype.ext
  simp only [alignLeft, Nat.sub_self, List.replicate_zero, List.append_nil, List.take_length]

theorem val_alignLeft_append (h : l.length = n) (l' : List UInt8) :
    (alignLeft n (l ++ l')).val = l := by
  show (l ++ l').take n ++ List.replicate (n - (l ++ l').length) 0 = l
  rw [List.length_append, h, Nat.sub_eq_zero_of_le (Nat.le_add_right n _), ← h, List.take_left,
    List.replicate_zero, List.append_nil]

def zeros (n : Nat) : List.Vector UInt8 n := ⟨List.replicate n 0, List.length_replicate⟩

/-- Two concatenations whose heads have one width agree in both parts. -/
theorem append_inj_of_length {x y x' y' : List UInt8} (w : Nat) (hx : x.length = w)
    (hx' : x'.length = w) (h : x ++ y = x' ++ y') : x = x' ∧ y = y' :=
  List.append_inj h (hx.trans hx'.symm)

theorem put_append_inj (w : Nat) {a b : Nat} {y y' : List UInt8} (ha : a < 256 ^ w)
    (hb : b < 256 ^ w) (h : put w a ++ y = put w b ++ y') : a = b ∧ y = y' := by
  obtain ⟨hput, hrest⟩ := append_inj_of_length w (length_put w a) (length_put w b) h
  exact ⟨put_inj w ha hb hput, hrest⟩

end Bytes
