import Zond.Core.Helper
import Zond.Lib.Outcome

/-!
# The Merkle Root

## Main definitions

* `merkleRoot`: Replace a list by the hashes of its consecutive pairs, with an odd last element
  carried up as it is, until one is left.

## Theorems

* `merkleTXHash_eq`: `MerkleTXHash` computes it.
-/

namespace Zond

open Outcome

variable (c : Crypto)

/-- The hashes of the consecutive pairs, and an odd last element. -/
def pairUp : List (List UInt8) → List (List UInt8)
  | [] => []
  | [h] => [h]
  | a :: b :: l => (c.sha256 (a ++ b)).val :: pairUp l

theorem length_pairUp (l : List (List UInt8)) : (pairUp c l).length = (l.length + 1) / 2 := by
  fun_induction pairUp c l with
  | case1 => rfl
  | case2 h => simp
  | case3 a b l ih =>
    simp only [List.length_cons, ih]
    omega

/-- The root of a list of hashes: pair them up until one is left. -/
def merkleRoot : List (List UInt8) → List UInt8
  | [] => []
  | [h] => h
  | a :: b :: l => merkleRoot (pairUp c (a :: b :: l))
termination_by l => l.length
decreasing_by
  rw [length_pairUp]
  simp only [List.length_cons]
  omega

theorem merkleLayer_eq (len z : Nat) (e nextLayer : List (List UInt8)) (hlen : len = z + e.length) :
    merkleLayer c len ((e.length + 1) / 2) e z nextLayer = .ok (nextLayer ++ pairUp c e) := by
  -- The cursor moves by two, so the induction is the one of `pairUp`.
  induction e using pairUp.induct generalizing z nextLayer with
  | case1 => simp [merkleLayer, pairUp]
  | case2 h =>
    -- The odd last element: the turn that does not move the cursor is the last.
    have hlast : len = z + 1 := hlen
    simp [merkleLayer, pairUp, elementValue, hlast, ok_bind]
  | case3 a b l ih =>
    have hturns : ((a :: b :: l).length + 1) / 2 = (l.length + 1) / 2 + 1 := by
      simp only [List.length_cons]
      omega
    have hmore : ¬ len = z + 1 := by
      simp only [List.length_cons] at hlen
      omega
    rw [hturns, merkleLayer, if_neg hmore]
    simp only [elementValue, List.tail_cons, ok_bind]
    rw [ih (z + 2) _ (by simp only [List.length_cons] at hlen; omega), pairUp,
      List.append_assoc, List.singleton_append]

theorem merkleRounds_eq (l : List (List UInt8)) (hne : l ≠ []) :
    merkleRounds c (Nat.clog 2 l.length) l = .ok [merkleRoot c l] := by
  induction l using merkleRoot.induct c with
  | case1 => exact absurd rfl hne
  | case2 h => simp [merkleRounds, merkleRoot]
  | case3 a b l ih =>
    have hlen : 2 ≤ (a :: b :: l).length := by
      simp only [List.length_cons]
      omega
    have hnext : pairUp c (a :: b :: l) ≠ [] := by
      simp [pairUp]
    have hturns : ∀ n, n % 2 + n / 2 = (n + 1) / 2 := by
      intro n
      omega
    rw [Nat.clog_of_two_le (by omega) hlen, merkleRounds, hturns,
      merkleLayer_eq c _ 0 _ _ (Nat.zero_add _).symm, ok_bind, List.nil_append, merkleRoot]
    have hround := ih hnext
    rwa [length_pairUp] at hround

/-- On every non-empty list `MerkleTXHash` returns the root of the reference recursion. -/
theorem merkleTXHash_eq (h : List UInt8) (hashes : List (List UInt8)) :
    merkleTXHash c (h :: hashes) = .ok (merkleRoot c (h :: hashes)) := by
  rw [merkleTXHash, merkleRounds_eq c _ (List.cons_ne_nil h hashes), ok_bind]
  rfl

end Zond
