import Zond.Core.StateCommit
import Zond.Theory.Tracking

/-!
# What a Commit Reports

An account is read back if it was written, or if it did not have to be. Writing it needs
a pending or dirty mark, an encoding and an intact path in the trie. Of these three the
first is decided by the journal, which a reset of an account does not enter, and a
failure of the other two is remembered in a field that `Commit` has already looked at.
It comes up in the commit after it.

## Main definitions

* `Saved`: Every account that stays live is written, or is in the trie already.

## Theorems

* `Committer.commit_reports_iff`: When a root without an error stands for the state in memory.
* `Committer.commit_eq_error_iff`: A commit fails for reasons that have nothing to do with
  what it writes.
-/

namespace Zond

open StateDB

section WritingBack

variable {faults : Faults} {s : StateDB} {x : Address}

/-- What the trie holds of an address after its live object was written back. -/
def writtenWith (faults : Faults) (x : Address) (obj : Option StateObject)
    (old : Option Account) : Option Account :=
  if faults.account x then old else written obj old

theorem writtenWith_idem (obj : Option StateObject) (old : Option Account) :
    writtenWith faults x obj (writtenWith faults x obj old) = writtenWith faults x obj old := by
  unfold writtenWith
  by_cases hfault : faults.account x = true
  · rw [if_pos hfault, if_pos hfault]
  · rw [if_neg hfault, if_neg hfault, written_idem]

theorem get_writeBack_self (w : Writing) : (writeBack faults s w x).1.get x =
    writtenWith faults x (s.stateObjects.get x) (w.1.get x) := by
  unfold writeBack writtenWith deleteStateObject updateStateObject
  by_cases hfault : faults.account x = true
  · simp only [hfault, if_true]
    split
    · rfl
    · split
      · rfl
      · split <;> rfl
  · simp only [hfault, Bool.false_eq_true, if_false]
    cases s.stateObjects.get x with
    | none => rfl
    | some obj =>
      simp only [written_some]
      by_cases hdeleted : obj.deleted = true
      · simp only [hdeleted, if_true, AssocMap.get_erase]
      · by_cases hfit : obj.data.Encodable
        · simp only [hdeleted, hfit, not_true, if_false, if_true, Bool.false_eq_true,
            AssocMap.get_put_self]
        · simp only [hdeleted, hfit, not_false_eq_true, if_true, if_false, Bool.false_eq_true]

theorem get_writeBack_ne (w : Writing) {addr : Address} (h : addr ≠ x) :
    (writeBack faults s w addr).1.get x = w.1.get x := by
  unfold writeBack deleteStateObject updateStateObject
  split
  · rfl
  · split
    · split
      · rfl
      · rw [AssocMap.get_erase, if_neg h]
    · split
      · rfl
      · split
        · rfl
        · rw [AssocMap.get_put_ne _ _ h]

theorem get_foldl_writeBack (l : List Address) (w : Writing) :
    (l.foldl (writeBack faults s) w).1.get x =
      if x ∈ l then writtenWith faults x (s.stateObjects.get x) (w.1.get x) else w.1.get x := by
  induction l generalizing w with
  | nil => simp only [List.foldl_nil, List.not_mem_nil, if_false]
  | cons addr rest ih =>
    rw [List.foldl_cons, ih]
    by_cases hx : addr = x
    · subst hx
      simp only [get_writeBack_self, writtenWith_idem, ite_self, List.mem_cons, true_or, if_true]
    · simp only [get_writeBack_ne w hx, List.mem_cons, Ne.symm hx, false_or]

theorem foldl_writeBack_none (l : List Address) (w : Writing) :
    (l.foldl (writeBack .none s) w).1 = l.foldl s.updateTrie w.1 := by
  induction l generalizing w with
  | nil => rfl
  | cons addr rest ih =>
    rw [List.foldl_cons, List.foldl_cons, ih]
    congr 1
    unfold writeBack updateTrie deleteStateObject updateStateObject
    cases s.stateObjects.get addr with
    | none => rfl
    | some obj =>
      by_cases hdeleted : obj.deleted = true
      · simp only [hdeleted, if_true, Faults.none, Bool.false_eq_true, if_false]
      · by_cases hfit : obj.data.Encodable
        · simp only [hdeleted, hfit, not_true, if_false, if_true, Faults.none,
            Bool.false_eq_true]
        · simp only [hdeleted, hfit, not_false_eq_true, if_true, if_false, Bool.false_eq_true]

theorem isSome_writeBack {w : Writing} (h : w.2.isSome) (addr : Address) :
    (writeBack faults s w addr).2.isSome := by
  unfold writeBack deleteStateObject updateStateObject setError
  split
  · exact h
  · split
    · split
      · rfl
      · exact h
    · split
      · rfl
      · split
        · rfl
        · exact h

end WritingBack

namespace Committer

variable (faults : Faults) (c : Committer)

/-- A live object that finalising leaves live. -/
def Kept (addr : Address) (obj : StateObject) : Prop :=
  c.db.stateObjects.get addr = some obj ∧ obj.deleted = false ∧ ¬c.db.Deletes addr

/-- Every kept account can be written and is, or is in the trie already. -/
def Saved : Prop :=
  ∀ addr obj, c.Kept addr obj →
    ((addr ∈ c.db.stateObjectsPending ∨ addr ∈ c.db.dirties) ∧ obj.data.Encodable ∧
      faults.account addr = false) ∨
    (c.db.trie.get addr).getD Account.new = obj.data

/-- The reasons for which `Commit` returns an error. -/
def Fails : Prop :=
  c.dbErr.isSome ∨
  (∃ addr obj, (addr ∈ c.stateObjectsDirty ∨ addr ∈ c.db.dirties) ∧ c.Kept addr obj ∧
    faults.storage addr = true) ∨
  faults.commit = true

section Finalising

variable {c} {addr : Address} {obj : StateObject}

theorem Kept.finalise (h : c.Kept addr obj) : ∃ obj', c.db.finalise.stateObjects.get addr =
    some obj' ∧ obj'.deleted = false ∧ obj'.data = obj.data := by
  rcases h with ⟨hget, hlive, hkeep⟩
  rw [get_finalise, hget]
  by_cases hmem : addr ∈ c.db.dirties
  · have hdoomed : ¬Doomed obj := fun hd => hkeep ⟨hmem, obj, hget, hd⟩
    rw [if_pos hmem, Option.map_some, finaliseObject, if_neg hdoomed]
    exact ⟨_, rfl, hlive, rfl⟩
  · rw [if_neg hmem]
    exact ⟨obj, rfl, hlive, rfl⟩

theorem exists_kept {obj' : StateObject}
    (hget' : c.db.finalise.stateObjects.get addr = some obj') (hlive' : obj'.deleted = false) :
    ∃ obj, c.Kept addr obj ∧ obj'.data = obj.data := by
  rw [get_finalise] at hget'
  by_cases hmem : addr ∈ c.db.dirties
  · rw [if_pos hmem] at hget'
    rcases Option.map_eq_some_iff.1 hget' with ⟨obj, hget, rfl⟩
    unfold finaliseObject at hlive' ⊢
    by_cases hdoomed : Doomed obj
    · rw [if_pos hdoomed] at hlive'
      cases hlive'
    · rw [if_neg hdoomed] at hlive' ⊢
      refine ⟨obj, ⟨hget, hlive', ?_⟩, rfl⟩
      rintro ⟨_, o, ho, hd⟩
      rw [hget, Option.some_inj] at ho
      exact hdoomed (ho ▸ hd)
  · rw [if_neg hmem] at hget'
    exact ⟨obj', ⟨hget', hlive', fun hd => hmem hd.1⟩, rfl⟩

theorem Kept.mem_pending_iff (h : c.Kept addr obj) : addr ∈ c.db.finalise.stateObjectsPending ↔
      addr ∈ c.db.stateObjectsPending ∨ addr ∈ c.db.dirties := by
  rw [mem_pending_finalise, h.1]
  simp only [Option.isSome_some, and_true]

end Finalising

theorem get_writing (x : Address) : (c.writing faults).1.get x =
    if x ∈ c.db.finalise.stateObjectsPending
    then writtenWith faults x (c.db.finalise.stateObjects.get x) (c.db.trie.get x)
    else c.db.trie.get x := by
  rw [writing, get_foldl_writeBack, trie_finalise]

theorem storageFault_intermediateRoot_iff (addr : Address) :
    (addr ∈ (c.intermediateRoot faults).stateObjectsDirty ∧
      (c.intermediateRoot faults).storageFault faults addr = true) ↔
    ∃ obj, (addr ∈ c.stateObjectsDirty ∨ addr ∈ c.db.dirties) ∧ c.Kept addr obj ∧
      faults.storage addr = true := by
  have hmem : addr ∈ (c.intermediateRoot faults).stateObjectsDirty ↔
      addr ∈ c.stateObjectsDirty ∨
        addr ∈ c.db.dirties ∧ (c.db.stateObjects.get addr).isSome = true := by
    simp only [intermediateRoot, List.mem_append, List.mem_filter]
  have hfault : (c.intermediateRoot faults).storageFault faults addr = true ↔
      (∃ obj', c.db.finalise.stateObjects.get addr = some obj' ∧ obj'.deleted = false) ∧
        faults.storage addr = true := by
    simp only [storageFault, intermediateRoot, Bool.and_eq_true, Option.any_eq_true,
      Bool.not_eq_true']
  rw [hmem, hfault]
  constructor
  · rintro ⟨hdirty, ⟨obj', hget', hlive'⟩, hstorage⟩
    rcases exists_kept hget' hlive' with ⟨obj, hkept, _⟩
    exact ⟨obj, hdirty.imp_right And.left, hkept, hstorage⟩
  · rintro ⟨obj, hdirty, hkept, hstorage⟩
    rcases hkept.finalise with ⟨obj', hget', hlive', _⟩
    refine ⟨hdirty.imp_right (fun h => ⟨h, ?_⟩), ⟨obj', hget', hlive'⟩, hstorage⟩
    rw [hkept.1]
    rfl

theorem commit_of_not_fails (h : ¬c.Fails faults) : c.commit faults =
    (.ok (c.writing faults).1, { c.intermediateRoot faults with stateObjectsDirty := [] }) := by
  have hearlier : c.dbErr = none :=
    Option.not_isSome_iff_eq_none.1 (fun hsome => h (.inl hsome))
  have hstorage : (c.intermediateRoot faults).stateObjectsDirty.find?
      ((c.intermediateRoot faults).storageFault faults) = none := by
    rw [List.find?_eq_none]
    intro addr hmem hfault
    rcases (storageFault_intermediateRoot_iff faults c addr).1 ⟨hmem, hfault⟩ with ⟨obj, hobj⟩
    exact h (.inr (.inl ⟨addr, obj, hobj⟩))
  have hcommit : ¬faults.commit = true := fun hc => h (.inr (.inr hc))
  unfold commit
  rw [hearlier]
  dsimp only
  rw [hstorage]
  dsimp only
  rw [if_neg hcommit]
  rfl

theorem commit_of_fails (h : c.Fails faults) : ∃ e c', c.commit faults = (.error e, c') := by
  unfold commit
  cases hearlier : c.dbErr with
  | some e => exact ⟨_, _, rfl⟩
  | none =>
    dsimp only
    cases hfind : (c.intermediateRoot faults).stateObjectsDirty.find?
        ((c.intermediateRoot faults).storageFault faults) with
    | some addr => exact ⟨_, _, rfl⟩
    | none =>
      dsimp only
      rcases h with hsome | ⟨addr, obj, hobj⟩ | hcommit
      · rw [hearlier] at hsome
        cases hsome
      · have hfault := (storageFault_intermediateRoot_iff faults c addr).2 ⟨obj, hobj⟩
        exact absurd hfault.2 (List.find?_eq_none.1 hfind addr hfault.1)
      · rw [if_pos hcommit]
        exact ⟨_, _, rfl⟩

/-- `Commit` returns an error for these reasons and no other: what becomes of the accounts it
    writes is not among them. -/
theorem commit_eq_error_iff : (∃ e c', c.commit faults = (.error e, c')) ↔ c.Fails faults := by
  refine ⟨fun ⟨e, c', herror⟩ => ?_, commit_of_fails faults c⟩
  by_contra h
  rw [commit_of_not_fails faults c h] at herror
  cases herror

/-- With intact tries and no error from before, the commit of the chain's model. -/
theorem commit_noFaults (h : c.dbErr = none) : (c.commit .none).1 = .ok c.db.commit := by
  have hfails : ¬c.Fails .none := by
    rintro (hsome | ⟨_, _, _, _, hstorage⟩ | hcommit)
    · rw [h] at hsome
      cases hsome
    · cases hstorage
    · cases hcommit
  rw [commit_of_not_fails .none c hfails]
  exact congrArg Except.ok (foldl_writeBack_none _ _)

section Reading

variable {c} {addr : Address} {obj : StateObject}

theorem Kept.read_iff (h : c.Kept addr obj) :
    (StateDB.new (c.writing faults).1).account addr = obj.data ↔
      ((addr ∈ c.db.stateObjectsPending ∨ addr ∈ c.db.dirties) ∧ obj.data.Encodable ∧
        faults.account addr = false) ∨
      (c.db.trie.get addr).getD Account.new = obj.data := by
  rcases h.finalise with ⟨obj', hget', hlive', hdata⟩
  have hpending := h.mem_pending_iff
  rw [account_new, get_writing, hget']
  by_cases hmem : addr ∈ c.db.stateObjectsPending ∨ addr ∈ c.db.dirties
  · rw [if_pos (hpending.2 hmem), writtenWith]
    by_cases hfault : faults.account addr = true
    · simp only [hfault, if_true, Bool.true_eq_false, and_false, false_or]
    · rw [if_neg hfault, written_some, if_neg (by rw [hlive']; decide), hdata]
      by_cases hfit : obj.data.Encodable
      · rw [if_pos hfit, Option.getD_some]
        exact ⟨fun _ => .inl ⟨hmem, hfit, Bool.eq_false_iff.2 hfault⟩, fun _ => rfl⟩
      · simp only [hfit, if_false, false_and, and_false, false_or]
  · rw [if_neg (fun h => hmem (hpending.1 h))]
    simp only [hmem, false_and, false_or]

theorem getStateObject_intermediateRoot (x : Address) :
    (c.intermediateRoot faults).db.getStateObject x =
      match c.db.finalise.stateObjects.get x with
      | some obj => if obj.deleted then none else some obj
      | none => ((c.writing faults).1.get x).map newObject := by
  change (match (match c.db.finalise.stateObjects.get x with
    | some obj => some obj
    | none => ((c.writing faults).1.get x).map newObject) with
    | some obj => if obj.deleted then none else some obj
    | none => none) = _
  cases c.db.finalise.stateObjects.get x with
  | some obj => rfl
  | none =>
    cases (c.writing faults).1.get x with
    | none => rfl
    | some a => rfl

theorem reads_iff_saved : (∀ addr obj, (c.intermediateRoot faults).db.getStateObject addr =
      some obj → (StateDB.new (c.writing faults).1).account addr = obj.data) ↔
    c.Saved faults := by
  constructor
  · intro h addr obj hkept
    refine (hkept.read_iff faults).1 ?_
    rcases hkept.finalise with ⟨obj', hget', hlive', hdata⟩
    rw [← hdata]
    apply h addr obj'
    rw [getStateObject_intermediateRoot, hget']
    exact if_neg (by rw [hlive']; decide)
  · intro h addr obj hobj
    rw [getStateObject_intermediateRoot] at hobj
    cases hget' : c.db.finalise.stateObjects.get addr with
    | some obj' =>
      rw [hget'] at hobj
      dsimp only at hobj
      by_cases hdeleted : obj'.deleted = true
      · rw [if_pos hdeleted] at hobj
        cases hobj
      · rw [if_neg hdeleted, Option.some_inj] at hobj
        subst hobj
        rcases exists_kept hget' (Bool.eq_false_iff.2 hdeleted) with ⟨obj, hkept, hdata⟩
        rw [hdata]
        exact (hkept.read_iff faults).2 (h addr obj hkept)
    | none =>
      -- No live object: memory and a fresh state read the same trie.
      rw [hget'] at hobj
      rcases Option.map_eq_some_iff.1 hobj with ⟨a, ha, rfl⟩
      rw [account_new, ha]
      rfl

theorem Saved.encodable (h : c.Saved faults) (hkept : c.Kept addr obj) : obj.data.Encodable := by
  rcases h addr obj hkept with ⟨_, hfit, _⟩ | htrie
  · exact hfit
  · rw [← htrie]
    cases hget : c.db.trie.get addr with
    | none => exact Account.new_encodable
    | some a => exact c.encodable addr a hget

end Reading

/-- What a commit reports, for every state. That a root without an error stands for the
    accounts in memory, and that an account without an encoding makes an error, hold
    together exactly when the commit fails for another reason or every kept account is
    saved. -/
theorem commit_reports_iff : ((∀ trie c', c.commit faults = (.ok trie, c') → ∀ addr obj,
        c'.db.getStateObject addr = some obj → (StateDB.new trie).account addr = obj.data) ∧
      (∀ addr obj, c.Kept addr obj → ¬obj.data.Encodable →
        ∃ e c', c.commit faults = (.error e, c'))) ↔
    c.Fails faults ∨ c.Saved faults := by
  constructor
  · rintro ⟨hreads, _⟩
    by_cases hfails : c.Fails faults
    · exact .inl hfails
    · have hread := hreads _ _ (commit_of_not_fails faults c hfails)
      exact .inr ((reads_iff_saved faults).1 hread)
  · rintro (hfails | hsaved)
    · rcases commit_of_fails faults c hfails with ⟨e, c', herror⟩
      refine ⟨?_, fun _ _ _ _ => ⟨e, c', herror⟩⟩
      intro trie c'' hok
      rw [herror] at hok
      cases hok
    · refine ⟨?_, fun _ _ hkept hfit => absurd (hsaved.encodable faults hkept) hfit⟩
      intro trie c' hok
      have hfails : ¬c.Fails faults := by
        intro hfails
        rcases commit_of_fails faults c hfails with ⟨e, c'', herror⟩
        rw [herror] at hok
        cases hok
      rw [commit_of_not_fails faults c hfails] at hok
      rcases Prod.mk.inj hok with ⟨htrie, rfl⟩
      rw [← Except.ok.inj htrie]
      exact (reads_iff_saved faults).2 hsaved

end Committer

def toyDebtor : Committer :=
  { db := (StateDB.new .empty).setBalance zeroAddress (-1)
    stateObjectsDirty := [], dbErr := none, encodable := fun _ _ h => nomatch h }

def toyUsed : Account := { Account.new with nonce := 5, balance := 1 }

/-- A used account that is created anew, which the journal does not mark. -/
def toyReset : Committer :=
  { db := (StateDB.new (.put .empty zeroAddress toyUsed)).createAccount zeroAddress
    stateObjectsDirty := [], dbErr := none
    encodable := by
      intro addr a h
      have hget : (AssocMap.put .empty zeroAddress toyUsed).get addr = some a := h
      rw [AssocMap.get_put] at hget
      split at hget
      · rw [← Option.some_inj.1 hget]
        decide
      · cases hget }

theorem toyReset_noFaults : (toyReset.commit .none).1 = .ok toyReset.db.commit :=
  Committer.commit_noFaults toyReset rfl

/-- Two commits that return a root and no error, with an account in memory that is not
    the one at the root: a balance that cannot be encoded, and a nonce that was set back
    without a mark in the journal. -/
theorem commit_silent : (∃ trie c', toyDebtor.commit .none = (.ok trie, c') ∧
      c'.db.getBalance zeroAddress = -1 ∧ (StateDB.new trie).getBalance zeroAddress = 0) ∧
    ∃ trie c', toyReset.commit .none = (.ok trie, c') ∧
      c'.db.getNonce zeroAddress = 0 ∧ (StateDB.new trie).getNonce zeroAddress = 5 :=
  ⟨⟨_, _, rfl, rfl, rfl⟩, ⟨_, _, rfl, rfl, rfl⟩⟩

end Zond
