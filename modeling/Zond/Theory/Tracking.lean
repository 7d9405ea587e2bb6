import Zond.Theory.Ledger

/-!
# What Reaches the Trie

A state is written back address by address: the addresses the journal marked in some
transaction of the block, and no other. An account with a negative amount cannot be
encoded; the trie then keeps what it had, and everything the block did to the account is
undone.

## Main definitions

* `Tracked`: The object of an address is marked, or else as it stands in the trie.
* `Steady`: And its account is not marked as suicided.
-/

namespace Zond

namespace StateDB

variable {s snapshot : StateDB} {x : Address}

/-- The live object of the address is in one of the two sets that are written back, or is
    as it stands in the trie. -/
def Tracked (s : StateDB) (x : Address) : Prop :=
  ∀ obj, s.stateObjects.get x = some obj → x ∈ s.dirties ∨ x ∈ s.stateObjectsPending ∨
    obj.deleted = false ∧ s.trie.get x = some obj.data

/-- The address is tracked, and its account not marked as suicided. -/
structure Steady (s : StateDB) (x : Address) : Prop where
  tracked : s.Tracked x
  unmarked : s.hasSuicided x = false

theorem Tracked.of_mem (h : x ∈ s.dirties) : s.Tracked x := fun _ _ => .inl h

theorem Tracked.congr {s' : StateDB} (h : s.Tracked x)
    (hobj : s'.stateObjects.get x = s.stateObjects.get x) (htrie : s'.trie = s.trie)
    (hdirty : x ∈ s.dirties → x ∈ s'.dirties)
    (hpending : x ∈ s.stateObjectsPending → x ∈ s'.stateObjectsPending) : s'.Tracked x := by
  intro obj hget
  rw [hobj] at hget
  rw [htrie]
  rcases h obj hget with hd | hp | hsame
  · exact .inl (hdirty hd)
  · exact .inr (.inl (hpending hp))
  · exact .inr (.inr hsame)

theorem steady_new (trie : AssocMap Address Account) (x : Address) : (new trie).Steady x :=
  ⟨fun _ hget => (nomatch hget), settled_new trie x⟩

theorem Steady.congr {s' : StateDB} (h : s.Steady x)
    (hobj : s'.stateObjects.get x = s.stateObjects.get x) (htrie : s'.trie = s.trie)
    (hdirty : x ∈ s.dirties → x ∈ s'.dirties)
    (hpending : x ∈ s.stateObjectsPending → x ∈ s'.stateObjectsPending) : s'.Steady x := by
  refine ⟨h.tracked.congr hobj htrie hdirty hpending, ?_⟩
  rw [hasSuicided_congr (getStateObject_congr hobj htrie)]
  exact h.unmarked

theorem Steady.prepare (h : s.Steady x) (thash : Hash) (i : Nat) : (s.prepare thash i).Steady x :=
  h.congr rfl rfl id id

theorem Steady.prepareAccessList (h : s.Steady x) (sender : Address) (dst : Option Address)
    (pre : List Address) : (s.prepareAccessList sender dst pre).Steady x :=
  h.congr rfl rfl id id

theorem Steady.touch (h : s.Steady x) (addr : Address) : (s.touch addr).Steady x :=
  h.congr rfl rfl (fun hd => (mem_insertNew ..).2 (.inr hd)) id

theorem tracked_createObject (h : s.Tracked x) (habsent : s.getStateObject x = none) :
    (s.createObject x).Tracked x := by
  intro obj hget
  unfold createObject
  cases hold : s.getDeletedStateObject x with
  | none => exact .inl ((mem_insertNew ..).2 (.inl rfl))
  | some prev =>
    have hdeleted : prev.deleted = true := by
      unfold getStateObject at habsent
      by_contra hlive
      simp only [hold, if_neg hlive, reduceCtorEq] at habsent
    cases hlive : s.stateObjects.get x with
    | none =>
      -- An object read from the trie is not deleted.
      unfold getDeletedStateObject at hold
      rw [hlive] at hold
      rcases Option.map_eq_some_iff.1 hold with ⟨a, -, rfl⟩
      cases hdeleted
    | some prev' =>
      unfold getDeletedStateObject at hold
      rw [hlive, Option.some.injEq] at hold
      rcases h prev' hlive with hd | hp | ⟨hsame, -⟩
      · exact .inl hd
      · exact .inr (.inl hp)
      · rw [hold, hdeleted] at hsame
        cases hsame

theorem createObject_ne {addr : Address} (hne : addr ≠ x) :
    (s.createObject addr).stateObjects.get x = s.stateObjects.get x :=
  AssocMap.get_put_ne _ _ hne

theorem dirties_createObject (addr : Address) (h : x ∈ s.dirties) :
    x ∈ (s.createObject addr).dirties := by
  unfold createObject
  split
  · exact h
  · exact (mem_insertNew ..).2 (.inr h)

theorem Steady.createObject (h : s.Steady x) (addr : Address)
    (habsent : addr = x → s.getStateObject x = none) : (s.createObject addr).Steady x := by
  by_cases hx : addr = x
  · subst hx
    exact ⟨tracked_createObject h.tracked (habsent rfl),
      hasSuicided_of_getStateObject (getStateObject_createObject_self s addr)⟩
  · exact h.congr (createObject_ne hx) rfl (dirties_createObject addr) id

theorem Steady.getOrNewStateObject (h : s.Steady x) (addr : Address) :
    (s.getOrNewStateObject addr).Steady x := by
  unfold StateDB.getOrNewStateObject
  cases hget : s.getStateObject addr with
  | some obj => exact h
  | none => exact h.createObject addr (fun hx => hx ▸ hget)

theorem Steady.modify (h : s.Steady x) (addr : Address) (f : Account → Account) :
    (s.modify addr f).Steady x := by
  have hopen := h.getOrNewStateObject addr
  refine ⟨?_, (hasSuicided_modify s addr f x).trans h.unmarked⟩
  unfold StateDB.modify
  dsimp only
  split
  · by_cases hx : addr = x
    · exact .of_mem ((mem_insertNew ..).2 (.inl hx.symm))
    · exact hopen.tracked.congr (AssocMap.get_put_ne _ _ hx) rfl
        (fun hd => (mem_insertNew ..).2 (.inr hd)) id
  · exact hopen.tracked

theorem Steady.setStakeBalance (h : s.Steady x) (addr : Address) (v : Int) :
    (s.setStakeBalance addr v).Steady x := h.modify addr _

theorem Steady.setPendingStakeBalance (h : s.Steady x) (addr : Address) (v : Int) :
    (s.setPendingStakeBalance addr v).Steady x := h.modify addr _

theorem Steady.addBalance (h : s.Steady x) (addr : Address) (v : Int) :
    (s.addBalance addr v).Steady x := by
  have hopen := h.getOrNewStateObject addr
  unfold StateDB.addBalance
  dsimp only
  split
  · split
    · exact hopen.touch addr
    · exact hopen
  · exact hopen.modify addr _

theorem Steady.subBalance (h : s.Steady x) (addr : Address) (v : Int) :
    (s.subBalance addr v).Steady x := by
  have hopen := h.getOrNewStateObject addr
  unfold StateDB.subBalance
  split
  · exact hopen
  · exact hopen.modify addr _

theorem Steady.createAccount (h : s.Steady x) (addr : Address)
    (habsent : addr = x → s.getStateObject x = none) : (s.createAccount addr).Steady x := by
  have hfresh := h.createObject addr habsent
  unfold StateDB.createAccount
  split
  · rename_i prev hget
    by_cases hx : addr = x
    · rw [hx, habsent hx] at hget
      cases hget
    · exact hfresh.congr (AssocMap.get_put_ne _ _ hx) rfl id id
  · exact hfresh

theorem Steady.revertToSnapshot (h : snapshot.Steady x) (s : StateDB) :
    (s.revertToSnapshot snapshot).Steady x := by
  refine h.congr rfl rfl (fun hd => ?_) id
  unfold StateDB.revertToSnapshot
  split
  · exact (mem_insertNew ..).2 (.inr hd)
  · exact hd

section Trie

variable (s : StateDB) (addr : Address)

@[simp] theorem trie_addBalance (v : Int) : (s.addBalance addr v).trie = s.trie := by
  unfold addBalance
  dsimp only
  split
  · split
    · exact trie_getOrNewStateObject s addr
    · exact trie_getOrNewStateObject s addr
  · exact (trie_modify ..).trans (trie_getOrNewStateObject s addr)

@[simp] theorem trie_subBalance (v : Int) : (s.subBalance addr v).trie = s.trie := by
  unfold subBalance
  split
  · exact trie_getOrNewStateObject s addr
  · exact (trie_modify ..).trans (trie_getOrNewStateObject s addr)

@[simp] theorem trie_createAccount : (s.createAccount addr).trie = s.trie := by
  unfold createAccount
  split <;> rfl

@[simp] theorem trie_setNonce (n : UInt64) : (s.setNonce addr n).trie = s.trie :=
  trie_modify ..

@[simp] theorem trie_setPendingStakeBalance (v : Int) :
    (s.setPendingStakeBalance addr v).trie = s.trie := trie_modify ..

@[simp] theorem trie_setStakeBalance (v : Int) : (s.setStakeBalance addr v).trie = s.trie :=
  trie_modify ..

end Trie

theorem mem_pending_foldl (l : List Address) (s : StateDB) :
    x ∈ (l.foldl finaliseAddress s).stateObjectsPending ↔
      x ∈ s.stateObjectsPending ∨ x ∈ l ∧ (s.stateObjects.get x).isSome := by
  induction l generalizing s with
  | nil => simp only [List.foldl_nil, List.not_mem_nil, false_and, or_false]
  | cons addr rest ih =>
    have hsome : ((s.finaliseAddress addr).stateObjects.get x).isSome
        = (s.stateObjects.get x).isSome := by
      rw [get_finaliseAddress]
      split
      · exact Option.isSome_map
      · rfl
    have hmem : x ∈ (s.finaliseAddress addr).stateObjectsPending ↔
        x ∈ s.stateObjectsPending ∨ x = addr ∧ (s.stateObjects.get x).isSome := by
      unfold finaliseAddress
      cases hget : s.stateObjects.get addr with
      | none =>
        refine ⟨.inl, fun h => h.elim id ?_⟩
        rintro ⟨rfl, hlive⟩
        rw [hget] at hlive
        cases hlive
      | some obj =>
        rw [mem_insertNew]
        constructor
        · rintro (rfl | h)
          · exact .inr ⟨rfl, by rw [hget]; rfl⟩
          · exact .inl h
        · rintro (h | ⟨rfl, -⟩)
          · exact .inr h
          · exact .inl rfl
    rw [List.foldl_cons, ih, hmem, hsome, List.mem_cons]
    tauto

theorem mem_pending_finalise : x ∈ s.finalise.stateObjectsPending ↔
      x ∈ s.stateObjectsPending ∨ x ∈ s.dirties ∧ (s.stateObjects.get x).isSome :=
  mem_pending_foldl s.dirties s

theorem Tracked.finalise (h : s.Tracked x) : s.finalise.Tracked x := by
  intro obj hget
  refine .inr ?_
  rw [mem_pending_finalise]
  rw [get_finalise] at hget
  by_cases hmem : x ∈ s.dirties
  · rw [if_pos hmem] at hget
    rcases Option.map_eq_some_iff.1 hget with ⟨old, hold, -⟩
    exact .inl (.inr ⟨hmem, by rw [hold]; rfl⟩)
  · rw [if_neg hmem] at hget
    rcases h obj hget with hd | hp | hsame
    · exact absurd hd hmem
    · exact .inl (.inl hp)
    · exact .inr ((trie_finalise s).symm ▸ hsame)

theorem Steady.finalise (h : s.Steady x) : s.finalise.Steady x :=
  ⟨h.tracked.finalise, hasSuicided_finalise h.unmarked⟩

/-- What the trie holds of an address after its live object was written back. -/
def written (obj : Option StateObject) (old : Option Account) : Option Account :=
  match obj with
  | none => old
  | some obj =>
    if obj.deleted then none else if obj.data.Encodable then some obj.data else old

theorem written_some (obj : StateObject) (old : Option Account) : written (some obj) old =
    if obj.deleted then none else if obj.data.Encodable then some obj.data else old := rfl

theorem written_idem (obj : Option StateObject) (old : Option Account) :
    written obj (written obj old) = written obj old := by
  cases obj with
  | none => rfl
  | some obj =>
    simp only [written_some]
    split
    · rfl
    · split <;> rfl

theorem get_updateTrie (s : StateDB) (trie : AssocMap Address Account) (addr x : Address) :
    (s.updateTrie trie addr).get x =
      if addr = x then written (s.stateObjects.get x) (trie.get x) else trie.get x := by
  unfold updateTrie
  by_cases hx : addr = x
  · subst hx
    rw [if_pos rfl]
    cases s.stateObjects.get addr with
    | none => rfl
    | some obj =>
      simp only [written_some]
      split
      · rw [AssocMap.get_erase, if_pos rfl]
      · split
        · rw [AssocMap.get_put_self]
        · rfl
  · rw [if_neg hx]
    split
    · rfl
    · split
      · rw [AssocMap.get_erase, if_neg hx]
      · split
        · rw [AssocMap.get_put_ne _ _ hx]
        · rfl

theorem get_foldl_updateTrie (s : StateDB) (l : List Address) (trie : AssocMap Address Account) :
    (l.foldl s.updateTrie trie).get x =
      if x ∈ l then written (s.stateObjects.get x) (trie.get x) else trie.get x := by
  induction l generalizing trie with
  | nil => simp only [List.foldl_nil, List.not_mem_nil, if_false]
  | cons addr rest ih =>
    rw [List.foldl_cons, ih, get_updateTrie]
    by_cases hx : addr = x
    · subst hx
      simp only [if_true, List.mem_cons, true_or, written_idem, ite_self]
    · simp only [List.mem_cons, hx, if_false, eq_comm (a := x), false_or]

theorem get_commit (s : StateDB) (x : Address) :
    s.commit.get x = if x ∈ s.finalise.stateObjectsPending
      then written (s.finalise.stateObjects.get x) (s.trie.get x) else s.trie.get x := by
  unfold commit
  rw [get_foldl_updateTrie, trie_finalise]

theorem account_commit (h : s.Tracked x) (hfit : (s.finalise.account x).Encodable) :
    (s.commit.get x).getD Account.new = s.finalise.account x := by
  have hfin := h.finalise
  rw [get_commit]
  unfold account getStateObject getDeletedStateObject at hfit ⊢
  rw [trie_finalise] at hfit ⊢
  cases hget : s.finalise.stateObjects.get x with
  | none =>
    -- Without a live object the account is the one in the trie.
    simp only [written, ite_self]
    cases s.trie.get x with
    | none => rfl
    | some a => rfl
  | some obj =>
    rw [hget] at hfit
    by_cases hpending : x ∈ s.finalise.stateObjectsPending
    · rw [if_pos hpending]
      by_cases hdeleted : obj.deleted = true
      · simp only [written, hdeleted, if_true, Option.getD_none]
      · simp only [hdeleted, Bool.false_eq_true, if_false] at hfit ⊢
        simp only [written, hdeleted, Bool.false_eq_true, if_false, hfit, if_true,
          Option.getD_some]
    · rcases hfin obj hget with hd | hp | ⟨hlive, htrie⟩
      · cases hd
      · exact absurd hp hpending
      · rw [trie_finalise] at htrie
        simp only [if_neg hpending, htrie, hlive, Option.getD_some, Bool.false_eq_true, if_false]

theorem account_commit_of_not_encodable (hfit : ¬(s.finalise.account x).Encodable) :
    (s.commit.get x).getD Account.new = (s.trie.get x).getD Account.new := by
  rw [get_commit]
  unfold account getStateObject getDeletedStateObject at hfit
  cases hget : s.finalise.stateObjects.get x with
  | none => simp only [written, ite_self]
  | some obj =>
    rw [hget] at hfit
    by_cases hdeleted : obj.deleted = true
    · simp only [hdeleted, if_true] at hfit
      exact absurd Account.new_encodable hfit
    · simp only [hdeleted, Bool.false_eq_true, if_false] at hfit
      simp only [written, hdeleted, Bool.false_eq_true, if_false, hfit, ite_self]

end StateDB

end Zond
