import Mathlib.Data.Finset.Card
import Mathlib.Data.Finset.Filter
import Mathlib.Logic.Relation

/-!
# Ancestry Along Parent Links

A tree of records kept by links to the parent: each record names at most one
other.

## Main definitions

* `Descends`: Following links from a record reaches the other.
* `path`: The ancestors of a record, as a list.

## Theorems

* `Descends.total`: The ancestors of a record form a chain.
* `Descends.mono`: Records that are added keep every descent.
-/

namespace Ancestry

variable {α : Type}

/-- Following links from `x` reaches `a`. -/
def Descends (link : α → Option α) (x a : α) : Prop :=
  Relation.ReflTransGen (fun y z => link y = some z) x a

variable {link link' : α → Option α} {x a b : α}

theorem Descends.refl (link : α → Option α) (x : α) : Descends link x x :=
  Relation.ReflTransGen.refl

theorem Descends.trans (hxa : Descends link x a) (hab : Descends link a b) : Descends link x b :=
  Relation.ReflTransGen.trans hxa hab

theorem Descends.of_parent {p : α} (hlink : link x = some p) (h : Descends link p a) :
    Descends link x a :=
  Relation.ReflTransGen.head hlink h

theorem Descends.parent {p : α} (hlink : link x = some p) : Descends link x p :=
  Relation.ReflTransGen.single hlink

/-- Keeping every link keeps every descent. -/
theorem Descends.mono (hkeep : ∀ y z, link y = some z → link' y = some z)
    (h : Descends link x a) : Descends link' x a :=
  Relation.ReflTransGen.mono hkeep _ _ h

theorem descends_congr {S : α → Prop} (hclosed : ∀ y z, S y → link y = some z → S z)
    (hagree : ∀ y, S y → link' y = link y) (hx : S x) : Descends link' x a ↔ Descends link x a := by
  constructor
  · intro h
    have hboth : S a ∧ Descends link x a := by
      induction h with
      | refl => exact ⟨hx, Descends.refl link x⟩
      | tail _ hstep ih =>
        rcases ih with ⟨hy, hdesc⟩
        rw [hagree _ hy] at hstep
        exact ⟨hclosed _ _ hy hstep, hdesc.tail hstep⟩
    exact hboth.2
  · intro h
    have hboth : S a ∧ Descends link' x a := by
      induction h with
      | refl => exact ⟨hx, Descends.refl link' x⟩
      | tail _ hstep ih =>
        rcases ih with ⟨hy, hdesc⟩
        exact ⟨hclosed _ _ hy hstep, hdesc.tail ((hagree _ hy).trans hstep)⟩
    exact hboth.2

/-- Two ancestors of one record are on one line. -/
theorem Descends.total (hxa : Descends link x a) (hxb : Descends link x b) :
    Descends link a b ∨ Descends link b a :=
  Relation.ReflTransGen.total_of_right_unique
    (fun _ _ _ hy hz => Option.some.inj (hy.symm.trans hz)) hxa hxb

/-- A height that grows from parent to child is greater at a descendant. -/
theorem Descends.eq_or_lt {height : α → Nat}
    (hgrow : ∀ y z, link y = some z → height z < height y) (h : Descends link x a) :
    x = a ∨ height a < height x := by
  induction h with
  | refl => exact .inl rfl
  | tail _ hlink ih =>
    have hstep := hgrow _ _ hlink
    rcases ih with heq | hlt
    · exact .inr (heq ▸ hstep)
    · exact .inr (Nat.lt_trans hstep hlt)

/-- What following links from `x` visits, if that ends in `fuel` steps. -/
def path (link : α → Option α) : Nat → α → Option (List α)
  | 0, _ => none
  | fuel + 1, x =>
    match link x with
    | none => some [x]
    | some y => (path link fuel y).map (x :: ·)

theorem descends_iff_mem_path {fuel : Nat} {l : List α} (h : path link fuel x = some l) :
    Descends link x a ↔ a ∈ l := by
  induction fuel generalizing x l with
  | zero => cases h
  | succ fuel ih =>
    rw [path] at h
    split at h
    · rename_i hend
      cases h
      rw [List.mem_singleton]
      constructor
      · intro hdesc
        rcases Relation.ReflTransGen.cases_head hdesc with heq | ⟨y, hlink, -⟩
        · exact heq.symm
        · rw [hend] at hlink
          cases hlink
      · rintro rfl
        exact Descends.refl link a
    · rename_i y hlink
      rcases Option.map_eq_some_iff.1 h with ⟨rest, hrest, rfl⟩
      rw [List.mem_cons, ← ih hrest]
      constructor
      · intro hdesc
        rcases Relation.ReflTransGen.cases_head hdesc with heq | ⟨z, hz, htail⟩
        · exact .inl heq.symm
        · rw [hlink, Option.some.injEq] at hz
          exact .inr (hz ▸ htail)
      · rintro (rfl | hdesc)
        · exact Descends.refl link a
        · exact Descends.of_parent hlink hdesc

section Decidable

variable [DecidableEq α]

/-- Among finitely many records a height can be replaced by the number of lower
    records, which is less than how many there are. -/
theorem exists_rank (keys : List α) (height : α → Nat) :
    ∃ rank : α → Nat, (∀ y ∈ keys, rank y < keys.length) ∧
      ∀ y z, z ∈ keys → height z < height y → rank z < rank y := by
  have hmem : ∀ y z, z ∈ keys.toFinset.filter (fun z => height z < height y) ↔
      z ∈ keys ∧ height z < height y := by
    intro y z
    rw [Finset.mem_filter, List.mem_toFinset]
  refine ⟨fun y => (keys.toFinset.filter (fun z => height z < height y)).card, ?_, ?_⟩
  · intro y hy
    refine Nat.lt_of_lt_of_le (Finset.card_lt_card ?_) keys.toFinset_card_le
    refine (Finset.ssubset_iff_of_subset (Finset.filter_subset _ _)).2
      ⟨y, List.mem_toFinset.2 hy, fun hself => ?_⟩
    exact Nat.lt_irrefl _ ((hmem y y).1 hself).2
  · intro y z hz hlt
    refine Finset.card_lt_card ((Finset.ssubset_iff_of_subset fun w hw => ?_).2
      ⟨z, (hmem y z).2 ⟨hz, hlt⟩, fun hself => ?_⟩)
    · rw [hmem] at hw ⊢
      exact ⟨hw.1, hw.2.trans hlt⟩
    · exact Nat.lt_irrefl _ ((hmem z z).1 hself).2

theorem descends_of_path {fuel : Nat}
    (h : (path link fuel x).any (fun l => decide (a ∈ l)) = true) : Descends link x a := by
  cases hpath : path link fuel x with
  | none =>
    rw [hpath] at h
    cases h
  | some l =>
    rw [hpath, Option.any_some] at h
    exact (descends_iff_mem_path hpath).2 (of_decide_eq_true h)

theorem not_descends_of_path {fuel : Nat}
    (h : (path link fuel x).any (fun l => decide (a ∉ l)) = true) : ¬Descends link x a := by
  intro hdesc
  cases hpath : path link fuel x with
  | none =>
    rw [hpath] at h
    cases h
  | some l =>
    rw [hpath, Option.any_some] at h
    exact of_decide_eq_true h ((descends_iff_mem_path hpath).1 hdesc)

end Decidable

end Ancestry
