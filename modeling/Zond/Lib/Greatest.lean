import Mathlib.Order.Bounds.Defs
import Mathlib.Data.Set.Insert

/-!
# Keeping the Greatest Member

A cell that is to hold the greatest member of a set that changes. Adding a member can be
followed in the cell alone. Taking members away cannot.

## Main definitions

* `Tracks`: The cell holds the greatest member.

## Theorems

* `tracks_raise`: Adding a member.
* `tracks_subset_iff`: After taking away, the cell is right only if the greatest was not taken,
  and is rightly emptied only if nothing is left.
-/

namespace Greatest

variable {α : Type} [LE α] [LT α] [Std.LawfulOrderLT α] [Std.IsLinearOrder α]
variable {S S' : Set α} {i : Option α} {m n : α}

/-- The cell holds the greatest member of the set, or nothing when there is none. -/
def Tracks (S : Set α) : Option α → Prop
  | none => S = ∅
  | some m => IsGreatest S m

/-- The cell after a member is added. -/
def raise [DecidableLT α] : Option α → α → Option α
  | none, n => some n
  | some m, n => if m < n then some n else some m

omit [LT α] [Std.LawfulOrderLT α] in
theorem Tracks.eq_some_iff (h : Tracks S i) : i = some m ↔ IsGreatest S m := by
  constructor
  · rintro rfl
    exact h
  · intro hm
    cases i with
    | none =>
      rw [show S = ∅ from h] at hm
      exact absurd hm.1 (Set.notMem_empty m)
    | some k =>
      have hk : IsGreatest S k := h
      exact congrArg some (Std.le_antisymm (hm.2 hk.1) (hk.2 hm.1))

theorem tracks_raise [DecidableLT α] (h : Tracks S i) (n : α) :
    Tracks (insert n S) (raise i n) := by
  cases i with
  | none =>
    rw [show S = ∅ from h]
    refine ⟨Set.mem_insert n ∅, fun k hk => ?_⟩
    rcases hk with rfl | hk
    · exact Std.le_refl k
    · exact absurd hk (Set.notMem_empty k)
  | some m =>
    have hm : IsGreatest S m := h
    show Tracks _ (if m < n then some n else some m)
    by_cases hlt : m < n
    · rw [if_pos hlt]
      refine ⟨Set.mem_insert n S, fun k hk => ?_⟩
      rcases hk with rfl | hk
      · exact Std.le_refl k
      · exact Std.le_trans (hm.2 hk) (Std.le_of_lt hlt)
    · rw [if_neg hlt]
      refine ⟨Set.mem_insert_of_mem n hm.1, fun k hk => ?_⟩
      rcases hk with rfl | hk
      · exact Std.not_lt.1 hlt
      · exact hm.2 hk

omit [LT α] [Std.LawfulOrderLT α] [Std.IsLinearOrder α] in
theorem tracks_subset_iff (h : Tracks S i) (hsub : S' ⊆ S) :
    Tracks S' i ↔ ∀ m, i = some m → m ∈ S' := by
  cases i with
  | none =>
    rw [show S = ∅ from h] at hsub
    exact ⟨fun _ m hm => (nomatch hm), fun _ => Set.subset_empty_iff.1 hsub⟩
  | some k =>
    have hk : IsGreatest S k := h
    constructor
    · intro hk' m hm
      cases hm
      exact hk'.1
    · intro hmem
      exact ⟨hmem k rfl, fun j hj => hk.2 (hsub hj)⟩

end Greatest
