import Mathlib.Algebra.BigOperators.Ring.Finset
import Mathlib.Data.Fintype.BigOperators

/-!
# Postings to a Ledger

A ledger is a function from entries to integers, and a posting adds an amount to
one entry.

## Main definitions

* `postAll`: A list of postings.
* `share`: The sum of the postings that name an entry.

## Theorems

* `postAll_apply`: What a list does to an entry is its share.
* `sum_postAll`: What it does to the sum over all entries is the sum of the amounts.
-/

namespace Postings

variable {α : Type} [DecidableEq α]

/-- Add an amount to one entry. -/
def post (f : α → ℤ) (p : α × ℤ) : α → ℤ := fun x => if p.1 = x then f x + p.2 else f x

def postAll (f : α → ℤ) (l : List (α × ℤ)) : α → ℤ := l.foldl post f

/-- What a list of postings adds to one entry. -/
def share (l : List (α × ℤ)) (x : α) : ℤ := (l.map (fun p => if p.1 = x then p.2 else 0)).sum

@[simp] theorem share_nil (x : α) : share ([] : List (α × ℤ)) x = 0 := rfl

@[simp] theorem share_cons (p : α × ℤ) (l : List (α × ℤ)) (x : α) :
    share (p :: l) x = (if p.1 = x then p.2 else 0) + share l x := rfl

theorem post_apply (f : α → ℤ) (p : α × ℤ) (x : α) :
    post f p x = f x + if p.1 = x then p.2 else 0 := by
  unfold post
  by_cases h : p.1 = x
  · rw [if_pos h, if_pos h]
  · rw [if_neg h, if_neg h, add_zero]

theorem postAll_apply (f : α → ℤ) (l : List (α × ℤ)) (x : α) : postAll f l x = f x + share l x := by
  induction l generalizing f with
  | nil => exact (add_zero _).symm
  | cons p rest ih =>
    rw [show postAll f (p :: rest) = postAll (post f p) rest from rfl, ih, post_apply,
      share_cons, add_assoc]

variable [Fintype α]

theorem sum_post (f : α → ℤ) (p : α × ℤ) : ∑ x, post f p x = ∑ x, f x + p.2 := by
  simp only [post_apply, Finset.sum_add_distrib, Finset.sum_ite_eq, Finset.mem_univ, if_true]

theorem sum_postAll (f : α → ℤ) (l : List (α × ℤ)) :
    ∑ x, postAll f l x = ∑ x, f x + (l.map Prod.snd).sum := by
  induction l generalizing f with
  | nil => simp only [postAll, List.foldl_nil, List.map_nil, List.sum_nil, add_zero]
  | cons p rest ih =>
    rw [show postAll f (p :: rest) = postAll (post f p) rest from rfl, ih, sum_post,
      List.map_cons, List.sum_cons, add_assoc]

theorem sum_update (f : α → ℤ) (a : α) (v : ℤ) :
    ∑ x, Function.update f a v x = ∑ x, f x + (v - f a) := by
  have hpost : Function.update f a v = post f (a, v - f a) := by
    funext x
    unfold post
    by_cases h : a = x
    · subst h
      rw [Function.update_self, if_pos rfl]
      exact (add_sub_cancel (f a) v).symm
    · rw [Function.update_of_ne (fun hx => h hx.symm), if_neg h]
  rw [hpost, sum_post]

end Postings
