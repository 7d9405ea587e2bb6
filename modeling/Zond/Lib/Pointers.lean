import Mathlib.Data.List.Chain
import Zond.Lib.Ancestry

/-!
# Pointers Down a Tree

A tree kept by links to the parent, and beside it a pointer of each record to one of its
children. The pointers mark the line of descent to one record.

## Main definitions

* `Lineage`: The line: each record on it is the parent of the next.
* `Points`: Each record on the line points to the next, and nothing else points anywhere.

## Theorems

* `Points.extend`: One more child of the last record makes the line longer.
* `Points.follow_eq`: Following the pointers from the root walks the line and stops.
-/

namespace Ancestry

variable {α : Type} {link link' next next' : α → Option α} {root f x : α} {l : List α}

/-- The records from the root to a record, the root first. -/
inductive Lineage (link : α → Option α) (root : α) : α → List α → Prop
  | root : Lineage link root root [root]
  | grow {x p : α} {l : List α} (hlink : link x = some p) (hbefore : Lineage link root p l) :
      Lineage link root x (l ++ [x])

/-- The pointers mark the line of descent to `f`: a record points to its child on the line, and
    to nothing else. -/
def Points (link next : α → Option α) (f : α) : Prop :=
  ∀ k x, next k = some x ↔ Descends link f x ∧ link x = some k

/-- What following pointers from a record visits in so many steps. -/
def follow (next : α → Option α) : Nat → α → List α
  | 0, _ => []
  | n + 1, k =>
    match next k with
    | none => [k]
    | some x => k :: follow next n x

theorem Lineage.getLast? (h : Lineage link root x l) : l.getLast? = some x := by
  cases h with
  | root => rfl
  | grow _ _ => exact List.getLast?_concat

theorem Lineage.exists_cons (h : Lineage link root x l) : ∃ rest, l = root :: rest := by
  induction h with
  | root => exact ⟨[], rfl⟩
  | grow _ _ ih =>
    rcases ih with ⟨rest, rfl⟩
    exact ⟨_, rfl⟩

/-- A record is on the line if the last one descends from it. -/
theorem Lineage.mem_iff (hroot : link root = none) (h : Lineage link root f l) (x : α) :
    x ∈ l ↔ Descends link f x := by
  induction h with
  | root =>
    rw [List.mem_singleton]
    constructor
    · rintro rfl
      exact Descends.refl _ _
    · intro hdesc
      rcases Relation.ReflTransGen.cases_head hdesc with heq | ⟨p, hp, -⟩
      · exact heq.symm
      · rw [hroot] at hp
        cases hp
  | @grow y p l hlink _ ih =>
    rw [List.mem_append, List.mem_singleton, ih]
    constructor
    · rintro (hbelow | rfl)
      · exact Descends.of_parent hlink hbelow
      · exact Descends.refl _ _
    · intro hdesc
      rcases Relation.ReflTransGen.cases_head hdesc with heq | ⟨p', hp', hrest⟩
      · exact .inr heq.symm
      · rw [hlink, Option.some.injEq] at hp'
        exact .inl (hp' ▸ hrest)

section Growth

variable {height : α → Nat}

theorem Points.extend [DecidableEq α] (hgrow : ∀ y z, link y = some z → height z < height y)
    (h : Points link next f) (hx : link x = some f)
    (hnext : ∀ k, next' k = if f = k then some x else next k) : Points link next' x := by
  intro k y
  rw [hnext]
  by_cases hk : f = k
  · subst hk
    rw [if_pos rfl, Option.some.injEq]
    constructor
    · rintro rfl
      exact ⟨Descends.refl _ _, hx⟩
    · rintro ⟨hdesc, hy⟩
      -- Anything but the child itself lies above the last record, and so do its parents.
      rcases Relation.ReflTransGen.cases_head hdesc with heq | ⟨p, hp, hrest⟩
      · exact heq
      · rw [hx, Option.some.injEq] at hp
        subst hp
        have hlow := hgrow y f hy
        rcases Descends.eq_or_lt hgrow hrest with heq | hless
        · rw [heq] at hlow
          omega
        · omega
  · rw [if_neg hk, h k y]
    constructor
    · rintro ⟨hdesc, hy⟩
      exact ⟨Descends.of_parent hx hdesc, hy⟩
    · rintro ⟨hdesc, hy⟩
      refine ⟨?_, hy⟩
      rcases Relation.ReflTransGen.cases_head hdesc with heq | ⟨p, hp, hrest⟩
      · rw [← heq, hx, Option.some.injEq] at hy
        exact absurd hy hk
      · rw [hx, Option.some.injEq] at hp
        exact hp ▸ hrest

theorem Points.last (hgrow : ∀ y z, link y = some z → height z < height y)
    (h : Points link next f) : next f = none := by
  cases hnext : next f with
  | none => rfl
  | some x =>
    rcases (h f x).1 hnext with ⟨hdesc, hx⟩
    have hlow := hgrow x f hx
    rcases Descends.eq_or_lt hgrow hdesc with heq | hless
    · rw [heq] at hlow
      omega
    · omega

theorem Points.isChain (h : Points link next f) (hline : Lineage link root x l)
    (hdesc : Descends link f x) : l.IsChain (fun k y => next k = some y) := by
  induction hline with
  | root => exact List.isChain_singleton _
  | @grow y p l hlink hbefore ih =>
    refine List.isChain_append.2 ⟨ih (hdesc.tail hlink), List.isChain_singleton _, ?_⟩
    intro k hk z hz
    rw [hbefore.getLast?, Option.mem_def, Option.some.injEq] at hk
    rw [List.head?_cons, Option.mem_def, Option.some.injEq] at hz
    rw [← hk, ← hz]
    exact (h p y).2 ⟨hdesc, hlink⟩

end Growth

theorem follow_of_isChain {k : α} (hchain : (k :: l).IsChain (fun k y => next k = some y))
    (hlast : ∀ y, (k :: l).getLast? = some y → next y = none) {n : Nat}
    (hn : (k :: l).length ≤ n) : follow next n k = k :: l := by
  induction l generalizing k n with
  | nil =>
    rcases Nat.exists_eq_succ_of_ne_zero (Nat.ne_of_gt hn) with ⟨m, rfl⟩
    rw [follow, hlast k rfl]
  | cons y l ih =>
    rw [List.isChain_cons_cons] at hchain
    rw [List.length_cons] at hn
    rcases Nat.exists_eq_succ_of_ne_zero (Nat.ne_of_gt (Nat.zero_lt_of_lt hn)) with ⟨m, rfl⟩
    rw [follow, hchain.1]
    have hrest := ih hchain.2 (fun z hz => hlast z (by rw [List.getLast?_cons_cons]; exact hz))
      (Nat.le_of_succ_le_succ hn)
    simp only [hrest]

/-- Following the pointers from the root walks the line and stops. -/
theorem Points.follow_eq {height : α → Nat} (hgrow : ∀ y z, link y = some z → height z < height y)
    (h : Points link next f) (hline : Lineage link root f l) {n : Nat} (hn : l.length ≤ n) :
    follow next n root = l := by
  have hchain := h.isChain hline (Descends.refl _ _)
  have hend : ∀ y, l.getLast? = some y → next y = none := by
    intro y hy
    rw [hline.getLast?, Option.some.injEq] at hy
    rw [← hy]
    exact h.last hgrow
  rcases hline.exists_cons with ⟨rest, rfl⟩
  exact follow_of_isChain hchain hend hn

/-- Records elsewhere may come and go: the line is told by the links of a closed set. -/
theorem Points.congr {S : α → Prop} (hclosed : ∀ y z, S y → link y = some z → S z)
    (hagree : ∀ y, S y → link' y = link y) (hf : S f) (h : Points link next f)
    (hnext : ∀ k, next' k = next k) : Points link' next' f := by
  intro k x
  rw [hnext, h k x, descends_congr hclosed hagree hf]
  refine and_congr_right fun hdesc => ?_
  -- Everything on the line is in the set.
  have hx : S x := by
    induction hdesc with
    | refl => exact hf
    | tail _ hlink ih => exact hclosed _ _ ih hlink
  rw [hagree x hx]

end Ancestry
