import Mathlib.Data.List.Basic

/-!
# Text Built by Formatting

Keys of a string-keyed store are printed from a fixed label and a few arguments. The
reader can tell where an argument ends: a hexadecimal one by its known width, a decimal
one by a separator no digit is equal to.

## Main definitions

* `hex`, `decimal`: How an argument is printed.

## Theorems

* `append_ne_of_labels`: Two keys are told apart by labels neither of which starts the other.
* `hex_inj`, `decimal_inj`, `separator_inj`: And under one label by their arguments.
-/

namespace Text

def decimal (n : Nat) : List Char := Nat.toDigits 10 n

/-- A byte in hexadecimal, high half first. -/
def hexByte (b : UInt8) : List Char :=
  [Nat.digitChar (b.toNat / 16), Nat.digitChar (b.toNat % 16)]

/-- A byte string in hexadecimal. -/
def hex (l : List UInt8) : List Char := l.flatMap hexByte

theorem decimal_inj {a b : Nat} (h : decimal a = decimal b) : a = b := by
  have hread : Nat.ofDigitChars 10 (decimal a) 0 = Nat.ofDigitChars 10 (decimal b) 0 := by
    rw [h]
  rwa [decimal, decimal, Nat.ofDigitChars_ten_toDigits, Nat.ofDigitChars_ten_toDigits] at hread

theorem isDigit_of_mem_decimal {n : Nat} {c : Char} (h : c ∈ decimal n) : c.isDigit = true :=
  Nat.isDigit_of_mem_toDigits (by decide) (by decide) h

theorem digitChar_inj {a b : Nat} (ha : a < 16) (hb : b < 16)
    (h : Nat.digitChar a = Nat.digitChar b) : a = b := by
  have hall : ∀ a < 16, ∀ b < 16, Nat.digitChar a = Nat.digitChar b → a = b := by decide
  exact hall a ha b hb h

theorem hexByte_inj {a b : UInt8} (h : hexByte a = hexByte b) : a = b := by
  have ha := a.toNat_lt
  have hb := b.toNat_lt
  injection h with hhigh hrest
  injection hrest with hlow
  have hdiv : a.toNat / 16 = b.toNat / 16 := digitChar_inj (by omega) (by omega) hhigh
  have hmod : a.toNat % 16 = b.toNat % 16 := digitChar_inj (by omega) (by omega) hlow
  apply UInt8.toNat_inj.1
  omega

theorem hex_cons (b : UInt8) (l : List UInt8) : hex (b :: l) = hexByte b ++ hex l := by
  rw [hex, List.flatMap_cons, hex]

theorem length_hex (l : List UInt8) : (hex l).length = 2 * l.length := by
  induction l with
  | nil => rfl
  | cons b l ih =>
    rw [hex_cons, List.length_append, ih, List.length_cons]
    change 2 + 2 * l.length = 2 * (l.length + 1)
    omega

theorem hex_inj {l l' : List UInt8} (h : hex l = hex l') : l = l' := by
  induction l generalizing l' with
  | nil =>
    cases l' with
    | nil => rfl
    | cons b l' => rw [hex_cons] at h; cases h
  | cons a l ih =>
    cases l' with
    | nil => rw [hex_cons] at h; cases h
    | cons b l' =>
      rw [hex_cons, hex_cons] at h
      rcases List.append_inj h rfl with ⟨hbyte, hrest⟩
      rw [hexByte_inj hbyte, ih hrest]

/-- A decimal number is split off a text at the first character that is no digit. -/
theorem separator_inj {a b : Nat} {c : Char} {y y' : List Char} (hc : c.isDigit = false)
    (h : decimal a ++ c :: y = decimal b ++ c :: y') : a = b ∧ y = y' := by
  have htake (n : Nat) (z : List Char) :
      (decimal n ++ c :: z).takeWhile Char.isDigit = decimal n := by
    rw [List.takeWhile_append_of_pos (fun d hd => isDigit_of_mem_decimal hd),
      List.takeWhile_cons_of_neg (by rw [hc]; decide), List.append_nil]
  have hab : decimal a = decimal b := by
    rw [← htake a y, h, htake]
  refine ⟨decimal_inj hab, ?_⟩
  rw [hab] at h
  have hrest := List.append_cancel_left h
  injection hrest

/-- Two labels of which neither starts the other cannot start one text. -/
theorem append_ne_of_labels {p q x y : List Char} (hpq : ¬p <+: q) (hqp : ¬q <+: p) :
    p ++ x ≠ q ++ y := by
  intro h
  rcases List.prefix_or_prefix_of_prefix (List.prefix_append p x)
    (h ▸ List.prefix_append q y) with hprefix | hprefix
  · exact hpq hprefix
  · exact hqp hprefix

end Text
