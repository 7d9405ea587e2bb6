import Mathlib.Algebra.Order.BigOperators.Group.Finset
import Mathlib.Algebra.Order.Ring.Int
import Mathlib.Data.FinEnum
import Mathlib.Data.Fintype.Vector
import Zond.Core.StateDB
import Zond.Lib.Postings

/-!
# Coins in the State

Each write of the state database is a posting to one of three ledgers and leaves the
other two alone, so what a transaction does to the coins is the list of its postings.
Finalising can lose coins. An account whose nonce, balance and code are empty is
deleted when it is dirty, and the deletion takes its stake with it.

## Main definitions

* `total`: The sum of all amounts over every address.
* `lost`: What finalising takes away.
-/

namespace Zond

open Postings

variable {s : StateDB} {β : Type} {x : Address}

-- The computable instance lists all 2 ^ 160 addresses, and unification unfolds it.
noncomputable instance : Fintype Address := Fintype.ofFinite Address

namespace StateDB

noncomputable def total (s : StateDB) : Int := ∑ x, (s.account x).coins

def NonNegative (s : StateDB) : Prop := ∀ x, (s.account x).Encodable

theorem nonNegative_iff : s.NonNegative ↔ ∀ x, 0 ≤ s.getBalance x ∧
    0 ≤ s.getStakeBalance x ∧ 0 ≤ s.getPendingStakeBalance x := Iff.rfl

/-- Coins are free, staked or pending. -/
theorem total_eq (s : StateDB) : s.total = ∑ x, s.getBalance x + ∑ x, s.getStakeBalance x +
      ∑ x, s.getPendingStakeBalance x := by
  unfold total Account.coins getBalance getStakeBalance getPendingStakeBalance
  rw [Finset.sum_add_distrib, Finset.sum_add_distrib]

/-- What a change of an account keeps of it, it keeps of all accounts. -/
theorem proj_modify (g : Account → β) (s : StateDB) (addr : Address)
    (f : Account → Account) (hf : ∀ a, g (f a) = g a) (x : Address) :
    g ((s.modify addr f).account x) = g (s.account x) := by
  rw [account_modify]
  by_cases h : addr = x
  · rw [if_pos h, hf, h]
  · rw [if_neg h]

section Elsewhere

variable {s : StateDB} {addr x : Address}

theorem account_modify_ne (f : Account → Account) (h : addr ≠ x) :
    (s.modify addr f).account x = s.account x := by
  rw [account_modify, if_neg h]

theorem account_addBalance_ne (v : Int) (h : addr ≠ x) :
    (s.addBalance addr v).account x = s.account x := by
  rw [account_addBalance, if_neg h]

theorem account_subBalance_ne (v : Int) (h : addr ≠ x) :
    (s.subBalance addr v).account x = s.account x := by
  rw [account_subBalance, if_neg h]

end Elsewhere

/-- Balances change by postings. -/
theorem getBalance_addBalance (s : StateDB) (addr : Address) (v : Int) :
    (s.addBalance addr v).getBalance = post s.getBalance (addr, v) := by
  funext x
  unfold getBalance post
  rw [account_addBalance]
  by_cases h : addr = x
  · rw [if_pos h, if_pos h, h]
  · rw [if_neg h, if_neg h]

theorem getBalance_subBalance (s : StateDB) (addr : Address) (v : Int) :
    (s.subBalance addr v).getBalance = post s.getBalance (addr, -v) := by
  funext x
  unfold getBalance post
  rw [account_subBalance]
  by_cases h : addr = x
  · rw [if_pos h, if_pos h, h, ← sub_eq_add_neg]
  · rw [if_neg h, if_neg h]

theorem proj_addBalance (g : Account → β) (s : StateDB) (addr : Address) (v : Int)
    (hg : ∀ a b, g { a with balance := b } = g a) (x : Address) :
    g ((s.addBalance addr v).account x) = g (s.account x) := by
  rw [account_addBalance]
  by_cases h : addr = x
  · rw [if_pos h, hg, h]
  · rw [if_neg h]

theorem proj_subBalance (g : Account → β) (s : StateDB) (addr : Address) (v : Int)
    (hg : ∀ a b, g { a with balance := b } = g a) (x : Address) :
    g ((s.subBalance addr v).account x) = g (s.account x) := by
  rw [account_subBalance]
  by_cases h : addr = x
  · rw [if_pos h, hg, h]
  · rw [if_neg h]

section Frames

variable (s : StateDB) (addr : Address) (v : Int) (n : UInt64)

@[simp] theorem getStakeBalance_addBalance :
    (s.addBalance addr v).getStakeBalance = s.getStakeBalance :=
  funext (proj_addBalance Account.stakeBalance s addr v (fun _ _ => rfl))

@[simp] theorem getPendingStakeBalance_addBalance :
    (s.addBalance addr v).getPendingStakeBalance = s.getPendingStakeBalance :=
  funext (proj_addBalance Account.pendingStakeBalance s addr v (fun _ _ => rfl))

@[simp] theorem getStakeBalance_subBalance :
    (s.subBalance addr v).getStakeBalance = s.getStakeBalance :=
  funext (proj_subBalance Account.stakeBalance s addr v (fun _ _ => rfl))

@[simp] theorem getPendingStakeBalance_subBalance :
    (s.subBalance addr v).getPendingStakeBalance = s.getPendingStakeBalance :=
  funext (proj_subBalance Account.pendingStakeBalance s addr v (fun _ _ => rfl))

@[simp] theorem getBalance_setNonce : (s.setNonce addr n).getBalance = s.getBalance :=
  funext (proj_modify Account.balance s addr _ (fun _ => rfl))

@[simp] theorem getStakeBalance_setNonce :
    (s.setNonce addr n).getStakeBalance = s.getStakeBalance :=
  funext (proj_modify Account.stakeBalance s addr _ (fun _ => rfl))

@[simp] theorem getPendingStakeBalance_setNonce :
    (s.setNonce addr n).getPendingStakeBalance = s.getPendingStakeBalance :=
  funext (proj_modify Account.pendingStakeBalance s addr _ (fun _ => rfl))

@[simp] theorem getBalance_setPendingStakeBalance :
    (s.setPendingStakeBalance addr v).getBalance = s.getBalance :=
  funext (proj_modify Account.balance s addr _ (fun _ => rfl))

@[simp] theorem getStakeBalance_setPendingStakeBalance :
    (s.setPendingStakeBalance addr v).getStakeBalance = s.getStakeBalance :=
  funext (proj_modify Account.stakeBalance s addr _ (fun _ => rfl))

theorem getPendingStakeBalance_setPendingStakeBalance :
    (s.setPendingStakeBalance addr v).getPendingStakeBalance =
      Function.update s.getPendingStakeBalance addr v := by
  funext x
  unfold getPendingStakeBalance setPendingStakeBalance
  rw [account_modify]
  by_cases h : addr = x
  · subst h
    rw [if_pos rfl, Function.update_self]
  · rw [if_neg h, Function.update_of_ne (fun hx => h hx.symm)]

@[simp] theorem getBalance_getOrNewStateObject :
    (s.getOrNewStateObject addr).getBalance = s.getBalance :=
  funext (fun x => congrArg Account.balance (account_getOrNewStateObject s addr x))

@[simp] theorem getStakeBalance_getOrNewStateObject :
    (s.getOrNewStateObject addr).getStakeBalance = s.getStakeBalance :=
  funext (fun x => congrArg Account.stakeBalance (account_getOrNewStateObject s addr x))

@[simp] theorem getPendingStakeBalance_getOrNewStateObject :
    (s.getOrNewStateObject addr).getPendingStakeBalance = s.getPendingStakeBalance :=
  funext (fun x => congrArg Account.pendingStakeBalance (account_getOrNewStateObject s addr x))

end Frames

/-- `Finalise` deletes an account whole or leaves it. -/
theorem account_finalise_cases (s : StateDB) (x : Address) :
    s.Deletes x ∧ s.finalise.account x = Account.new ∨
      ¬s.Deletes x ∧ s.finalise.account x = s.account x := by
  by_cases h : s.Deletes x
  · exact .inl ⟨h, account_finalise_of_deletes h⟩
  · exact .inr ⟨h, account_finalise_of_not_deletes h⟩

theorem NonNegative.finalise (h : s.NonNegative) : s.finalise.NonNegative := by
  intro x
  rcases account_finalise_cases s x with ⟨-, hx⟩ | ⟨-, hx⟩
  · rw [hx]
    exact Account.new_encodable
  · rw [hx]
    exact h x

theorem coins_finalise_le (h : s.NonNegative) (x : Address) :
    (s.finalise.account x).coins ≤ (s.account x).coins := by
  rcases account_finalise_cases s x with ⟨-, hx⟩ | ⟨-, hx⟩
  · rw [hx, Account.coins_new]
    exact (h x).coins_nonneg
  · rw [hx]

/-- `Finalise` makes no coins. -/
theorem total_finalise_le (h : s.NonNegative) : s.finalise.total ≤ s.total :=
  Finset.sum_le_sum (fun x _ => coins_finalise_le h x)

theorem getBalance_finalise_le (h : s.NonNegative) (x : Address) :
    s.finalise.getBalance x ≤ s.getBalance x := by
  unfold getBalance
  rcases account_finalise_cases s x with ⟨-, hx⟩ | ⟨-, hx⟩
  · rw [hx]
    exact (h x).1
  · rw [hx]

/-- The coins finalising takes from an account. -/
def lost (s : StateDB) (x : Address) : Int :=
  (s.account x).coins - (s.finalise.account x).coins

theorem lost_nonneg (h : s.NonNegative) (x : Address) : 0 ≤ s.lost x :=
  sub_nonneg.2 (coins_finalise_le h x)

/-- What the accounts lose is what the total loses. -/
theorem sum_lost (s : StateDB) : ∑ x, s.lost x = s.total - s.finalise.total :=
  Finset.sum_sub_distrib ..

/-- Only a deleted account loses coins. -/
theorem lost_eq_zero_iff (s : StateDB) (x : Address) :
    s.lost x = 0 ↔ (s.Deletes x → (s.account x).coins = 0) := by
  unfold lost
  rcases account_finalise_cases s x with ⟨hdel, hx⟩ | ⟨hdel, hx⟩
  · simp only [hx, Account.coins_new, sub_zero, hdel, forall_const]
  · simp only [hx, sub_self, hdel, false_implies]

theorem getBalance_finalise_of_lost (h : s.NonNegative)
    (hx : s.lost x = 0) : s.finalise.getBalance x = s.getBalance x := by
  unfold getBalance
  rcases account_finalise_cases s x with ⟨hdel, hacc⟩ | ⟨-, hacc⟩
  · obtain ⟨hbal, hstake, hpend⟩ := h x
    have hcoins := (lost_eq_zero_iff s x).1 hx hdel
    unfold Account.coins at hcoins
    rw [hacc]
    change 0 = _
    omega
  · rw [hacc]

/-- Finalising now takes `v` coins, all of them balance and pending stake of one
    account. -/
def LosesOnly (s : StateDB) (addr : Address) (v : Int) : Prop :=
  (∀ x, x ≠ addr → s.Deletes x → (s.account x).coins = 0) ∧
    (s.Deletes addr ∧ s.getStakeBalance addr = 0 ∧
        s.getBalance addr + s.getPendingStakeBalance addr = v ∨
      ¬s.Deletes addr ∧ v = 0)

theorem losesOnly_of_dirties_nil (h : s.dirties = []) (addr : Address) : s.LosesOnly addr 0 := by
  have hdel : ∀ x, ¬s.Deletes x := fun x hx => List.not_mem_nil (h ▸ hx.1)
  exact ⟨fun x _ hx => absurd hx (hdel x), .inr ⟨hdel addr, rfl⟩⟩

theorem lost_cases (s : StateDB) (x : Address) :
    let liquid := s.getBalance x + s.getPendingStakeBalance x
      - (s.finalise.getBalance x + s.finalise.getPendingStakeBalance x)
    s.Deletes x ∧ liquid = s.getBalance x + s.getPendingStakeBalance x ∧
        s.lost x = liquid + s.getStakeBalance x ∨
      ¬s.Deletes x ∧ liquid = 0 ∧ s.lost x = 0 := by
  unfold lost Account.coins getBalance getPendingStakeBalance getStakeBalance
  rcases account_finalise_cases s x with ⟨hdel, hx⟩ | ⟨hdel, hx⟩
  · rw [hx]
    simp only [Account.new]
    exact .inl ⟨hdel, by omega, by omega⟩
  · rw [hx]
    exact .inr ⟨hdel, by omega, by omega⟩

/-- One account has all the loss if its own loss is that of the total. -/
theorem losesOnly_iff (h : s.NonNegative) (addr : Address) (v : Int) :
    s.LosesOnly addr v ↔ s.total - s.finalise.total = v ∧
      s.getBalance addr + s.getPendingStakeBalance addr
        - (s.finalise.getBalance addr + s.finalise.getPendingStakeBalance addr) = v := by
  have hstake : 0 ≤ s.getStakeBalance addr := (h addr).2.1
  have hsplit : s.lost addr + ∑ x ∈ Finset.univ.erase addr, s.lost x = ∑ x, s.lost x :=
    Finset.add_sum_erase _ _ (Finset.mem_univ addr)
  have hnonneg : 0 ≤ ∑ x ∈ Finset.univ.erase addr, s.lost x :=
    Finset.sum_nonneg (fun x _ => lost_nonneg h x)
  -- The others lose nothing exactly when their losses sum to zero.
  have hothers : (∀ x, x ≠ addr → s.Deletes x → (s.account x).coins = 0) ↔
      ∑ x ∈ Finset.univ.erase addr, s.lost x = 0 := by
    rw [Finset.sum_eq_zero_iff_of_nonneg (fun y _ => lost_nonneg h y)]
    simp only [lost_eq_zero_iff, Finset.mem_erase, Finset.mem_univ, and_true]
  rw [LosesOnly, hothers, ← sum_lost]
  rcases lost_cases s addr with ⟨hdel, hliquid, hlost⟩ | ⟨hdel, hliquid, hlost⟩
  · simp only [hdel, true_and, not_true_eq_false, false_and, or_false]
    omega
  · simp only [hdel, false_and, not_false_eq_true, true_and, false_or]
    omega

/-- No live account is marked as suicided. `Suicide` is called by contract code
    only, and the `Finalise` at the end of the transfer deletes what it marked. -/
def Settled (s : StateDB) : Prop := ∀ x, s.hasSuicided x = false

/-- A state that was just opened has nothing to delete. -/
theorem settled_new (trie : AssocMap Address Account) : (new trie).Settled := by
  intro x
  unfold hasSuicided getStateObject getDeletedStateObject new
  cases htrie : trie.get x with
  | none => simp only [AssocMap.get_empty, Option.map_none]
  | some a => rfl

theorem Settled.getOrNewStateObject (h : s.Settled) (addr : Address) :
    (s.getOrNewStateObject addr).Settled := by
  intro x
  by_cases hx : addr = x
  · subst hx
    rcases getStateObject_getOrNew_self s addr with ⟨obj, hget, -, hmark⟩
    rw [hasSuicided_of_getStateObject hget, hmark]
    exact h addr
  · rw [hasSuicided_congr (getStateObject_getOrNew_ne s hx)]
    exact h x

theorem Settled.modify (h : s.Settled) (addr : Address) (f : Account → Account) :
    (s.modify addr f).Settled := by
  intro x
  rw [hasSuicided_modify]
  exact h x

theorem Settled.addBalance (h : s.Settled) (addr : Address) (v : Int) :
    (s.addBalance addr v).Settled := by
  unfold StateDB.addBalance
  have hnew := h.getOrNewStateObject addr
  by_cases h0 : v = 0
  · rw [if_pos h0]
    split
    · exact hnew
    · exact hnew
  · rw [if_neg h0]
    exact hnew.modify addr _

theorem Settled.subBalance (h : s.Settled) (addr : Address) (v : Int) :
    (s.subBalance addr v).Settled := by
  unfold StateDB.subBalance
  have hnew := h.getOrNewStateObject addr
  by_cases h0 : v = 0
  · rw [if_pos h0]
    exact hnew
  · rw [if_neg h0]
    exact hnew.modify addr _

theorem Settled.createAccount (h : s.Settled) (addr : Address) :
    (s.createAccount addr).Settled := by
  intro x
  by_cases hx : addr = x
  · subst hx
    -- The fresh object is unmarked whether or not a balance was carried over.
    rcases hget : s.getStateObject addr with - | prev
    · unfold StateDB.createAccount
      rw [hget]
      exact hasSuicided_of_getStateObject (getStateObject_createObject_self s addr)
    · unfold StateDB.createAccount
      rw [hget]
      exact @hasSuicided_of_getStateObject _ _ (newObject _)
        (getStateObject_of_get (AssocMap.get_put_self ..) rfl)
  · have hcreate : (s.createObject addr).getStateObject x = s.getStateObject x :=
      getStateObject_createObject_ne s hx
    rw [← h x]
    apply hasSuicided_congr
    unfold StateDB.createAccount
    split
    · rw [← hcreate]
      exact getStateObject_congr (AssocMap.get_put_ne _ _ hx) rfl
    · exact hcreate

theorem account_finalise_of_unmarked (h : s.hasSuicided x = false) :
    s.finalise.account x = s.account x ∨
      (s.account x).Empty ∧ s.finalise.account x = Account.new := by
  rcases account_finalise_cases s x with ⟨⟨-, obj, hget, hdoomed⟩, hgone⟩ | ⟨-, hsame⟩
  · refine .inr ⟨?_, hgone⟩
    by_cases hdeleted : obj.deleted = true
    · have hnone : s.getStateObject x = none := by
        unfold getStateObject getDeletedStateObject
        simp only [hget, hdeleted, if_true]
      rw [account_of_not_exist hnone]
      exact Account.new_empty
    · have hlive := getStateObject_of_get hget (Bool.eq_false_iff.2 hdeleted)
      rw [account_of_getStateObject hlive]
      rcases hdoomed with hmark | hempty
      · rw [hasSuicided_of_getStateObject hlive, hmark] at h
        cases h
      · exact hempty
  · exact .inl hsame

theorem hasSuicided_finalise (h : s.hasSuicided x = false) : s.finalise.hasSuicided x = false := by
  have hfin := get_finalise s x
  by_cases hmem : x ∈ s.dirties
  · rw [if_pos hmem] at hfin
    cases hget : s.stateObjects.get x with
    | none =>
      rw [hget, Option.map_none, ← hget] at hfin
      rw [hasSuicided_congr (getStateObject_congr hfin (trie_finalise s))]
      exact h
    | some obj =>
      rw [hget, Option.map_some] at hfin
      unfold hasSuicided getStateObject getDeletedStateObject at h ⊢
      simp only [hfin, hget, finaliseObject] at h ⊢
      -- A doomed object reads as absent, any other keeps its marks.
      by_cases hdoomed : Doomed obj
      · simp only [if_pos hdoomed, if_true]
      · simp only [if_neg hdoomed]
        by_cases hgone : obj.deleted = true
        · simp only [hgone, if_true]
        · simp only [hgone, Bool.false_eq_true, if_false] at h ⊢
          exact h
  · rw [if_neg hmem] at hfin
    rw [hasSuicided_congr (getStateObject_congr hfin (trie_finalise s))]
    exact h

/-- Without a suicide `Finalise` deletes empty accounts only. -/
theorem account_finalise_of_settled (h : s.Settled) (x : Address) :
    s.finalise.account x = s.account x ∨
      (s.account x).Empty ∧ s.finalise.account x = Account.new :=
  account_finalise_of_unmarked (h x)

/-- So it moves no coins. -/
theorem getBalance_finalise_of_settled (h : s.Settled) : s.finalise.getBalance = s.getBalance := by
  funext x
  unfold getBalance
  rcases account_finalise_of_settled h x with hsame | ⟨hempty, hnew⟩
  · rw [hsame]
  · rw [hnew]
    exact hempty.2.1.symm

end StateDB

end Zond
