import Mathlib.Data.List.Count
import Zond.Theory.Epochs
import Zond.Theory.Genesis
import Zond.Theory.Ledger

/-!
# Stake at the Epoch Boundary

When the first block of a later epoch is processed, the keys of all blocks of the closing
epoch are replayed: a key without pending stake leaves the validators and gets its
stake back, any other becomes a validator and its pending stake becomes its stake.

## Main definitions

* `TakesEffect`: The last stake of a key has taken effect.
* `Standing`: What the replay knows of one key.

## Theorems

* `standing_updateStakeValidators`: The replay, key by key.
-/

namespace Zond

open Outcome

/-- What the replay knows of one key: its pending stake, its stake, and whether it is
    a validator. -/
structure Standing where
  pending : Int
  stake : Int
  listed : Bool
deriving DecidableEq

namespace Standing

def update (t : Standing) : Standing :=
  if bigUint64 t.pending = 0 then { t with stake := 0, listed := false }
  else { pending := 0, stake := t.pending, listed := true }

theorem iterate_update_of_zero {t : Standing} (h : bigUint64 t.pending = 0) (n : Nat) :
    update^[n + 1] t = { t with stake := 0, listed := false } := by
  have hfirst : update t = { t with stake := 0, listed := false } := if_pos h
  have hagain : update { t with stake := 0, listed := false } =
      { t with stake := 0, listed := false } := if_pos h
  rw [Function.iterate_succ_apply, hfirst]
  exact Function.iterate_fixed hagain n

theorem iterate_update_of_pending {t : Standing} (h : bigUint64 t.pending ≠ 0) (n : Nat) :
    update^[n + 1] t = if n = 0 then { pending := 0, stake := t.pending, listed := true }
      else { pending := 0, stake := 0, listed := false } := by
  have hfirst : update t = { pending := 0, stake := t.pending, listed := true } := if_neg h
  rw [Function.iterate_succ_apply, hfirst]
  cases n with
  | zero => rfl
  | succ n =>
    rw [if_neg (Nat.succ_ne_zero n)]
    exact iterate_update_of_zero rfl n

end Standing

section Replay

variable (ext : Externals)

def standing (se : StateDB × EpochMetaData) (pk : PublicKey) : Standing :=
  { pending := se.1.getPendingStakeBalance (ext.getAddressFromUnSizedPK pk)
    stake := se.1.getStakeBalance (ext.getAddressFromUnSizedPK pk)
    listed := decide (pk ∈ se.2.validators) }

variable {ext} {se : StateDB × EpochMetaData} {pk : PublicKey}

theorem StateDB.getStakeBalance_setStakeBalance (s : StateDB) (addr : Address) (v : Int) :
    (s.setStakeBalance addr v).getStakeBalance = Function.update s.getStakeBalance addr v := by
  funext x
  unfold StateDB.getStakeBalance StateDB.setStakeBalance
  rw [StateDB.account_modify]
  by_cases h : addr = x
  · subst h
    rw [if_pos rfl, Function.update_self]
  · rw [if_neg h, Function.update_of_ne (fun hx => h hx.symm)]

@[simp] theorem StateDB.getPendingStakeBalance_setStakeBalance (s : StateDB) (addr : Address)
    (v : Int) : (s.setStakeBalance addr v).getPendingStakeBalance = s.getPendingStakeBalance :=
  funext (StateDB.proj_modify Account.pendingStakeBalance s addr _ (fun _ => rfl))

theorem mem_addValidators (e : EpochMetaData) (pk x : PublicKey) :
    x ∈ (e.addValidators pk).validators ↔ x ∈ e.validators ∨ x = pk := by
  unfold EpochMetaData.addValidators
  by_cases h : pk ∈ e.validators
  · rw [if_pos h]
    exact ⟨.inl, fun hx => hx.elim id (fun heq => heq ▸ h)⟩
  · rw [if_neg h, List.mem_append, List.mem_singleton]

theorem mem_removeValidators {e : EpochMetaData} (h : e.validators.Nodup) (pk x : PublicKey) :
    x ∈ (e.removeValidators pk).validators ↔ x ≠ pk ∧ x ∈ e.validators :=
  h.mem_erase_iff

theorem standing_updateStakeValidator_self (hnodup : se.2.validators.Nodup) :
    standing ext (updateStakeValidator ext se pk) pk = (standing ext se pk).update := by
  rcases se with ⟨s, e⟩
  unfold updateStakeValidator Standing.update standing
  simp only [StateDB.getPendingStakeBalance_getOrNewStateObject,
    StateDB.getStakeBalance_getOrNewStateObject]
  split
  · simp only [StateDB.getPendingStakeBalance_setStakeBalance,
      StateDB.getPendingStakeBalance_addBalance,
      StateDB.getPendingStakeBalance_getOrNewStateObject,
      StateDB.getStakeBalance_setStakeBalance, Function.update_self,
      mem_removeValidators hnodup, ne_eq, not_true, false_and, decide_false]
  · simp only [StateDB.getPendingStakeBalance_setPendingStakeBalance,
      StateDB.getStakeBalance_setPendingStakeBalance, StateDB.getStakeBalance_setStakeBalance,
      StateDB.getPendingStakeBalance_addBalance,
      StateDB.getPendingStakeBalance_getOrNewStateObject, Function.update_self,
      mem_addValidators, or_true, decide_true]

theorem standing_updateStakeValidator_ne (hnodup : se.2.validators.Nodup) {pk' : PublicKey}
    (hne : ext.getAddressFromUnSizedPK pk' ≠ ext.getAddressFromUnSizedPK pk) :
    standing ext (updateStakeValidator ext se pk') pk = standing ext se pk := by
  rcases se with ⟨s, e⟩
  have hkey : pk ≠ pk' := fun heq => hne (heq ▸ rfl)
  unfold updateStakeValidator standing
  simp only [StateDB.getPendingStakeBalance_getOrNewStateObject,
    StateDB.getStakeBalance_getOrNewStateObject]
  split
  · simp only [StateDB.getPendingStakeBalance_setStakeBalance,
      StateDB.getPendingStakeBalance_addBalance, StateDB.getStakeBalance_addBalance,
      StateDB.getPendingStakeBalance_getOrNewStateObject,
      StateDB.getStakeBalance_getOrNewStateObject, StateDB.getStakeBalance_setStakeBalance,
      Function.update_of_ne hne.symm, mem_removeValidators hnodup, ne_eq, hkey,
      not_false_eq_true, true_and]
  · simp only [StateDB.getPendingStakeBalance_setPendingStakeBalance,
      StateDB.getStakeBalance_setPendingStakeBalance, StateDB.getStakeBalance_setStakeBalance,
      StateDB.getPendingStakeBalance_setStakeBalance,
      StateDB.getPendingStakeBalance_addBalance, StateDB.getStakeBalance_addBalance,
      StateDB.getPendingStakeBalance_getOrNewStateObject,
      StateDB.getStakeBalance_getOrNewStateObject, Function.update_of_ne hne.symm,
      mem_addValidators, hkey, or_false]

theorem nodup_updateStakeValidator (hnodup : se.2.validators.Nodup) (pk' : PublicKey) :
    (updateStakeValidator ext se pk').2.validators.Nodup := by
  unfold updateStakeValidator
  dsimp only
  split
  · exact EpochMetaData.Nodup.removeValidators hnodup pk'
  · exact EpochMetaData.Nodup.addValidators hnodup pk'

theorem standing_updateStakeValidators {pending : List PublicKey} (hnodup : se.2.validators.Nodup)
    (hinj : ∀ pk' ∈ pending, ext.getAddressFromUnSizedPK pk' = ext.getAddressFromUnSizedPK pk →
      pk' = pk) :
    standing ext (pending.foldl (updateStakeValidator ext) se) pk
      = Standing.update^[pending.count pk] (standing ext se pk) := by
  induction pending generalizing se with
  | nil => rfl
  | cons key rest ih =>
    have hrest := @ih (updateStakeValidator ext se key) (nodup_updateStakeValidator hnodup key)
      (fun pk' hmem => hinj pk' (List.mem_cons_of_mem key hmem))
    rw [List.foldl_cons, hrest]
    by_cases hkey : key = pk
    · subst hkey
      rw [standing_updateStakeValidator_self hnodup, List.count_cons_self,
        Function.iterate_succ_apply]
    · have hne := fun heq => hkey (hinj key List.mem_cons_self heq)
      rw [standing_updateStakeValidator_ne hnodup hne, List.count_cons_of_ne hkey]

theorem mem_or_mem_of_mem_updateStakeValidators {s : StateDB} {e : EpochMetaData}
    {keys : List PublicKey} (h : pk ∈ (updateStakeValidators ext s keys e).2.validators) :
    pk ∈ e.validators ∨ pk ∈ keys := by
  revert h
  unfold updateStakeValidators
  refine List.foldlRecOn (motive := fun se : StateDB × EpochMetaData =>
    pk ∈ se.2.validators → pk ∈ e.validators ∨ pk ∈ keys) _ _ .inl ?_
  rintro se ih key hkey hmem
  unfold updateStakeValidator at hmem
  dsimp only at hmem
  split at hmem
  · exact ih (List.mem_of_mem_erase hmem)
  · rcases (mem_addValidators se.2 key pk).1 hmem with hold | rfl
    · exact ih hold
    · exact .inr hkey

end Replay

def Store.stakeBlocks (db : Store) (path : List Hash) (pk : PublicKey) : Nat :=
  path.countP (fun k => decide (pk ∈ db.pendingUpdates k))

/-- The last stake of a key, of the amount `a`, has taken effect. -/
def TakesEffect (ext : Externals) (s : StateDB) (e : EpochMetaData) (pk : PublicKey)
    (a : UInt64) : Prop :=
  (Config.stakeAmount ≤ a → pk ∈ e.validators ∧
    s.getStakeBalance (ext.getAddressFromUnSizedPK pk) = a.toNat ∧
    s.getPendingStakeBalance (ext.getAddressFromUnSizedPK pk) = 0) ∧
  (a = 0 → pk ∉ e.validators ∧ s.getStakeBalance (ext.getAddressFromUnSizedPK pk) = 0)

section Stakes

variable {ext : Externals} {db : Store} {pk : PublicKey}
variable {e e' : EpochMetaData}

theorem nodup_pendingUpdates (db : Store) (k : Hash) : (db.pendingUpdates k).Nodup := by
  cases hget : db.blocks.get k with
  | none =>
    unfold Store.pendingUpdates
    rw [hget]
    exact List.nodup_nil
  | some b =>
    rw [Store.pendingUpdates_of_get hget]
    split
    · exact List.nodup_nil
    · exact b.getPendingValidatorsUpdate_nodup

theorem count_pendingUpdates (db : Store) (path : List Hash) (pk : PublicKey) :
    (path.flatMap db.pendingUpdates).count pk = db.stakeBlocks path pk := by
  unfold Store.stakeBlocks
  induction path with
  | nil => rfl
  | cons k rest ih =>
    rw [List.flatMap_cons, List.count_append, ih, List.countP_cons,
      (nodup_pendingUpdates db k).count, Nat.add_comm]
    simp only [decide_eq_true_eq]

theorem mem_validators_of_allotSlots {seed : Int} {epoch : UInt64}
    {prevHash : Hash} (h : e.allotSlots ext seed epoch prevHash = .ok e') (pk : PublicKey) :
    pk ∈ e'.validators ↔ pk ∈ e.validators := by
  unfold EpochMetaData.allotSlots at h
  split at h
  · cases h
  · cases h
    unfold EpochMetaData.shuffled
    rw [List.mem_ofFn]
    constructor
    · rintro ⟨i, rfl⟩
      exact List.get_mem _ _
    · intro hmem
      rcases List.get_of_mem hmem with ⟨i, hi⟩
      refine ⟨(ext.shuffle seed e.validators.length).symm i, ?_⟩
      rw [Equiv.apply_symm_apply]
      exact hi

theorem Closed.standing {s s' : StateDB} {slot : UInt64} {k : Hash}
    {pm first : BlockMetaData} {path : List Hash}
    (h : Closed ext db s slot k s' e' pm first path e) (hnodup : e.validators.Nodup)
    (hinj : ∀ pk' ∈ path.flatMap db.pendingUpdates,
      ext.getAddressFromUnSizedPK pk' = ext.getAddressFromUnSizedPK pk → pk' = pk) :
    Zond.standing ext (s', e') pk = Standing.update^[db.stakeBlocks path pk]
      (Zond.standing ext (s, closedRecord db path e) pk) := by
  rcases nextEpochMetaData_of_ok h.next with ⟨-, hs, hallot⟩
  have hclosed : (s, closedRecord db path e).2.validators.Nodup := by
    rw [closedRecord_validators]
    exact hnodup
  have hreplay := @standing_updateStakeValidators ext (s, closedRecord db path e) pk
    (path.reverse.flatMap db.pendingUpdates) hclosed (by
      intro pk' hmem
      rcases List.mem_flatMap.1 hmem with ⟨x, hx, hpk'⟩
      exact hinj pk' (List.mem_flatMap.2 ⟨x, List.mem_reverse.1 hx, hpk'⟩))
  have hcount : (path.reverse.flatMap db.pendingUpdates).count pk = db.stakeBlocks path pk := by
    rw [count_pendingUpdates]
    exact List.countP_reverse
  rw [← hcount, ← hreplay]
  unfold Zond.standing
  rw [hs]
  simp only [mem_validators_of_allotSlots hallot]
  rfl

theorem takesEffect_iff_standing {s : StateDB} {e : EpochMetaData} {a : UInt64} :
    TakesEffect ext s e pk a ↔
      (Config.stakeAmount ≤ a → (standing ext (s, e) pk).listed = true ∧
        (standing ext (s, e) pk).stake = a.toNat ∧ (standing ext (s, e) pk).pending = 0) ∧
      (a = 0 → (standing ext (s, e) pk).listed = false ∧ (standing ext (s, e) pk).stake = 0) := by
  unfold TakesEffect standing
  simp only [decide_eq_true_eq, decide_eq_false_iff_not]

/-- When the epoch is closed, the amount `a` that a key has pending takes effect, unless it is
    a full stake and the key staked in more than one block. -/
theorem Closed.effect_iff {s s' : StateDB} {slot : UInt64} {k : Hash}
    {pm first : BlockMetaData} {path : List Hash} {a : UInt64}
    (h : Closed ext db s slot k s' e' pm first path e) (hnodup : e.validators.Nodup)
    (hinj : ∀ pk' ∈ path.flatMap db.pendingUpdates,
      ext.getAddressFromUnSizedPK pk' = ext.getAddressFromUnSizedPK pk → pk' = pk)
    (hpending : s.getPendingStakeBalance (ext.getAddressFromUnSizedPK pk) = a.toNat)
    (hpos : 0 < db.stakeBlocks path pk) :
    TakesEffect ext s' e' pk a ↔ (Config.stakeAmount ≤ a → db.stakeBlocks path pk = 1) := by
  rcases Nat.exists_eq_succ_of_ne_zero (Nat.ne_of_gt hpos) with ⟨n, hn⟩
  have hread : bigUint64 (Zond.standing ext (s, closedRecord db path e) pk).pending = a := by
    show bigUint64 (s.getPendingStakeBalance (ext.getAddressFromUnSizedPK pk)) = a
    rw [hpending, ← UInt64.toNat_inj, toNat_bigUint64, Int.natAbs_natCast,
      Nat.mod_eq_of_lt (UInt64.toNat_lt a)]
  rw [takesEffect_iff_standing, h.standing hnodup hinj, hn]
  by_cases hzero : a = 0
  · -- Nothing pending: the key leaves.
    rw [Standing.iterate_update_of_zero (hread.trans hzero)]
    have hnone : ¬Config.stakeAmount ≤ a := by
      rw [hzero]
      decide
    exact ⟨fun _ hle => absurd hle hnone, fun _ => ⟨fun hle => absurd hle hnone, fun _ => ⟨rfl, rfl⟩⟩⟩
  · rw [Standing.iterate_update_of_pending (by rw [hread]; exact hzero)]
    by_cases hone : n = 0
    · -- Named once: the pending stake becomes the stake.
      rw [if_pos hone]
      exact ⟨fun _ _ => congrArg Nat.succ hone,
        fun _ => ⟨fun _ => ⟨rfl, hpending, rfl⟩, fun ha => absurd ha hzero⟩⟩
    · -- Named again: it is taken back.
      rw [if_neg hone]
      constructor
      · exact fun htakes hle => absurd (htakes.1 hle).1 Bool.false_ne_true
      · exact fun honce => ⟨fun hle => absurd (Nat.succ.inj (honce hle)) hone,
          fun ha => absurd ha hzero⟩

end Stakes

end Zond
