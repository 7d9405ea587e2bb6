import Mathlib.Data.List.Nodup

/-!
# Picking from a Shrinking List

A list is used up from its front while each time a member is looked at that stands at some
index which depends on how many are left.

## Main definitions

* `picks`: The members looked at.

## Theorems

* `nodup_picks_iff`: They are all different only if the index is always that of the front.
-/

namespace Picking

variable {α : Type} {sel : Nat → Nat}

/-- The members looked at, at the index that `sel` gives for the number of those left. -/
def picks (sel : Nat → Nat) : List α → List α
  | [] => []
  | x :: rest => ((x :: rest)[sel (rest.length + 1)]?).getD x :: picks sel rest

theorem length_picks (l : List α) : (picks sel l).length = l.length := by
  induction l with
  | nil => rfl
  | cons x rest ih => rw [picks, List.length_cons, List.length_cons, ih]

theorem picks_eq_self {l : List α} (h : ∀ k, 0 < k → k ≤ l.length → sel k = 0) :
    picks sel l = l := by
  induction l with
  | nil => rfl
  | cons x rest ih =>
    rw [picks, h (rest.length + 1) (Nat.succ_pos _) (Nat.le_refl _),
      ih (fun k hk hle => h k hk (Nat.le_succ_of_le hle))]
    rfl

/-- No member is looked at twice exactly when it is always the one at the front. -/
theorem nodup_picks_iff (hsel : ∀ k, 0 < k → sel k < k) {l : List α} (hl : l.Nodup) :
    (picks sel l).Nodup ↔ ∀ k, 0 < k → k ≤ l.length → sel k = 0 := by
  refine ⟨fun h => ?_, fun h => by rw [picks_eq_self h]; exact hl⟩
  induction l with
  | nil =>
    intro k hk hle
    rw [List.length_nil] at hle
    omega
  | cons x rest ih =>
    rw [picks] at h
    rcases List.nodup_cons.1 h with ⟨hfirst, hlater⟩
    have hrest := ih (List.nodup_cons.1 hl).2 hlater
    intro k hk hle
    by_cases hlast : k ≤ rest.length
    · exact hrest k hk hlast
    -- The later picks are all of the rest, so the first pick is none of it.
    have hk' : k = rest.length + 1 := by
      rw [List.length_cons] at hle
      omega
    subst hk'
    rw [picks_eq_self hrest] at hfirst
    cases hindex : sel (rest.length + 1) with
    | zero => rfl
    | succ j =>
      have hlt := hsel (rest.length + 1) (Nat.succ_pos _)
      have hj : j < rest.length := by omega
      rw [hindex, List.getElem?_cons_succ, List.getElem?_eq_getElem hj, Option.getD_some]
        at hfirst
      exact absurd (List.getElem_mem hj) hfirst

end Picking
