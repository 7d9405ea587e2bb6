import Zond.Theory.Allotment
import Zond.Theory.Records

/-!
# Epoch Records

The record of an epoch is computed from the blocks of the epoch before it on the
same branch. Two blocks that open an epoch on one parent compute it twice; the later
record replaces the earlier. Nothing is lost by that, since the computation only reads
what no later block changes.

## Main definitions

* `closedRecord`: The record of the epoch that closes, before the replay of stakes.
* `Booked`: The states the replay goes through.
* `Store.Extends`: A store with more blocks.

## Theorems

* `Store.Extends.calculateEpochMetaData`: The record of a larger store is the same.
-/

namespace Zond

open Outcome

structure Store.Extends (db db' : Store) : Prop where
  core : ∀ k r, db.core k = some r → db'.core k = some r
  blocks : ∀ k x, db.blocks.get k = some x → db'.blocks.get k = some x
  epochs : ∀ key e, db.epochMetaData.get key = some e → db'.epochMetaData.get key = some e
  size : db.blockMetaData.size ≤ db'.blockMetaData.size

section Walks

variable {ext : Externals} {db db' : Store} (hx : db.Extends db')
variable {slot : UInt64} {k : Hash}
include hx

theorem Store.Extends.getBlockMetaData {bm : BlockMetaData} (h : db.getBlockMetaData k = .ok bm) :
    ∃ bm', db'.getBlockMetaData k = .ok bm' ∧ bm'.core = bm.core := by
  have hcore := hx.core k _ (Store.core_of_get (orFail_eq_ok.1 h))
  rcases Option.map_eq_some_iff.1 hcore with ⟨bm', hget, hsame⟩
  exact ⟨bm', orFail_eq_ok.2 hget, hsame⟩

theorem Store.Extends.getBlock {b : Block} (h : db.getBlock k = .ok b) : db'.getBlock k = .ok b :=
  orFail_eq_ok.2 (hx.blocks k b (orFail_eq_ok.1 h))

theorem Store.Extends.prevEpochLastHash {epoch : UInt64} {fuel fuel' : Nat} {k last : Hash}
    (hfuel : fuel ≤ fuel') (h : db.prevEpochLastHash epoch fuel k = .ok last) :
    db'.prevEpochLastHash epoch fuel' k = .ok last := by
  induction fuel generalizing fuel' k with
  | zero => cases h
  | succ fuel ih =>
    cases fuel' with
    | zero => omega
    | succ fuel' =>
      rw [Store.prevEpochLastHash] at h ⊢
      rcases bind_eq_ok.1 h with ⟨bm, hbm, h⟩
      rcases hx.getBlockMetaData hbm with ⟨bm', hbm', hcore⟩
      have hslot : bm'.slotNumber = bm.slotNumber := congrArg RecordCore.slotNumber hcore
      have hparent : bm'.parentHeaderHash = bm.parentHeaderHash :=
        congrArg RecordCore.parentHeaderHash hcore
      have hhash : bm'.headerHash = bm.headerHash := congrArg RecordCore.headerHash hcore
      refine bind_eq_ok.2 ⟨bm', hbm', ?_⟩
      rw [hslot, hparent, hhash]
      split at h
      · rename_i hzero
        rw [if_pos hzero]
        exact h
      · rename_i hzero
        rw [if_neg hzero]
        split at h
        · rename_i hsame
          rw [if_pos hsame]
          exact ih (by omega) h
        · rename_i hsame
          rw [if_neg hsame]
          exact h

theorem Store.Extends.getEpochMetaData {e : EpochMetaData}
    (h : db.getEpochMetaData slot k = .ok e) : db'.getEpochMetaData slot k = .ok e := by
  have hlookup : ∀ epoch last, db.lookupEpochMetaData epoch last = .ok e →
      db'.lookupEpochMetaData epoch last = .ok e := fun epoch last hget =>
    orFail_eq_ok.2 (hx.epochs _ e (orFail_eq_ok.1 hget))
  unfold Store.getEpochMetaData at *
  split at h
  · rename_i hzero
    rw [if_pos hzero]
    exact hlookup _ _ h
  · rename_i hzero
    rw [if_neg hzero]
    rcases bind_eq_ok.1 h with ⟨last, hlast, hget⟩
    have hfuel : db.walkFuel ≤ db'.walkFuel := Nat.succ_le_succ hx.size
    exact bind_eq_ok.2 ⟨last, hx.prevEpochLastHash hfuel hlast, hlookup _ _ hget⟩

theorem Store.Extends.epochPath {epoch : UInt64} {fuel fuel' : Nat} {bm bm' : BlockMetaData}
    {path : List Hash} (hfuel : fuel ≤ fuel') (hcore : bm'.core = bm.core)
    (h : Chain.epochPath db epoch fuel bm = .ok path) :
    Chain.epochPath db' epoch fuel' bm' = .ok path := by
  induction fuel generalizing fuel' bm bm' path with
  | zero => cases h
  | succ fuel ih =>
    cases fuel' with
    | zero => omega
    | succ fuel' =>
      rw [Chain.epochPath] at h ⊢
      rw [show bm'.slotNumber = bm.slotNumber from congrArg RecordCore.slotNumber hcore,
        show bm'.parentHeaderHash = bm.parentHeaderHash from
          congrArg RecordCore.parentHeaderHash hcore,
        show bm'.headerHash = bm.headerHash from congrArg RecordCore.headerHash hcore]
      split at h
      · rename_i hepoch
        rw [if_pos hepoch]
        split at h
        · rename_i hzero
          rw [if_pos hzero]
          exact h
        · rename_i hzero
          rw [if_neg hzero]
          rcases bind_eq_ok.1 h with ⟨parent, hparent, h⟩
          rcases bind_eq_ok.1 h with ⟨rest, hrest, h⟩
          rcases hx.getBlockMetaData hparent with ⟨parent', hparent', hpcore⟩
          refine bind_eq_ok.2 ⟨parent', hparent', ?_⟩
          exact bind_eq_ok.2 ⟨rest, ih (by omega) hpcore hrest, h⟩
      · rename_i hepoch
        rw [if_neg hepoch]
        exact h

theorem Store.Extends.nextEpochMetaData {s : StateDB}
    {path : List Hash} {e : EpochMetaData} {r : StateDB × EpochMetaData}
    (h : Chain.nextEpochMetaData ext db s slot k path e = .ok r) :
    Chain.nextEpochMetaData ext db' s slot k path e = .ok r := by
  unfold Chain.nextEpochMetaData at *
  rcases bind_eq_ok.1 h with ⟨acc, hfold, h⟩
  refine bind_eq_ok.2 ⟨acc, Outcome.foldlM_of_step _ ?_ hfold, h⟩
  intro acc key acc' hstep
  unfold Chain.closeBlock at *
  rcases bind_eq_ok.1 hstep with ⟨b, hb, hstep⟩
  exact bind_eq_ok.2 ⟨b, hx.getBlock hb, hstep⟩

theorem Store.Extends.calculateEpochMetaData {s : StateDB} {r : StateDB × EpochMetaData}
    (h : Chain.calculateEpochMetaData ext db s slot k = .ok r) :
    Chain.calculateEpochMetaData ext db' s slot k = .ok r := by
  unfold Chain.calculateEpochMetaData at *
  rcases bind_eq_ok.1 h with ⟨parent, hparent, h⟩
  rcases hx.getBlockMetaData hparent with ⟨parent', hparent', hcore⟩
  have hepoch : parent'.epoch = parent.epoch :=
    congrArg (fun r : RecordCore => epochOf r.slotNumber) hcore
  refine bind_eq_ok.2 ⟨parent', hparent', ?_⟩
  rw [hepoch]
  split at h
  · rename_i hsame
    rw [if_pos hsame]
    rcases bind_eq_ok.1 h with ⟨e, he, h⟩
    exact bind_eq_ok.2 ⟨e, hx.getEpochMetaData he, h⟩
  · rename_i hsame
    rw [if_neg hsame]
    rcases bind_eq_ok.1 h with ⟨path, hpath, h⟩
    rcases bind_eq_ok.1 h with ⟨firstHash, hfirst, h⟩
    rcases bind_eq_ok.1 h with ⟨first, hrecord, h⟩
    rcases bind_eq_ok.1 h with ⟨e, he, h⟩
    rcases hx.getBlockMetaData hrecord with ⟨first', hrecord', hfcore⟩
    have hfuel : db.walkFuel ≤ db'.walkFuel := Nat.succ_le_succ hx.size
    refine bind_eq_ok.2 ⟨path, hx.epochPath hfuel hcore hpath, ?_⟩
    refine bind_eq_ok.2 ⟨firstHash, hfirst, ?_⟩
    refine bind_eq_ok.2 ⟨first', hrecord', ?_⟩
    rw [show first'.slotNumber = first.slotNumber from congrArg RecordCore.slotNumber hfcore,
      show first'.parentHeaderHash = first.parentHeaderHash from
        congrArg RecordCore.parentHeaderHash hfcore]
    exact bind_eq_ok.2 ⟨e, hx.getEpochMetaData he, hx.nextEpochMetaData h⟩

end Walks

section Closing

variable {ext : Externals} {db : Store} {s s' : StateDB}
variable {e e' : EpochMetaData} {slot : UInt64} {k : Hash}

def Store.signers (db : Store) (k : Hash) : Nat :=
  ((db.blocks.get k).map (fun b => b.protocolTransactions.length)).getD 0

/-- The keys a stored block updates. Genesis was accounted for when it was committed. -/
def Store.pendingUpdates (db : Store) (k : Hash) : List PublicKey :=
  ((db.blocks.get k).map (fun b =>
    if b.slotNumber = 0 then [] else b.getPendingValidatorsUpdate)).getD []

section Fields

variable (e : EpochMetaData) (found alloted amount : UInt64)

theorem EpochMetaData.updatePrevEpochStakeData_found :
    (e.updatePrevEpochStakeData found alloted).totalStakeAmountFound = found := rfl

theorem EpochMetaData.updatePrevEpochStakeData_alloted :
    (e.updatePrevEpochStakeData found alloted).totalStakeAmountAlloted = alloted := rfl

theorem EpochMetaData.updatePrevEpochStakeData_validators :
    (e.updatePrevEpochStakeData found alloted).validators = e.validators := rfl

theorem EpochMetaData.addTotalStakeAmountFound_validators :
    (e.addTotalStakeAmountFound amount).validators = e.validators := rfl

theorem EpochMetaData.addTotalStakeAmountFound_found :
    (e.addTotalStakeAmountFound amount).totalStakeAmountFound
      = e.totalStakeAmountFound + amount := rfl

theorem EpochMetaData.addTotalStakeAmountFound_alloted :
    (e.addTotalStakeAmountFound amount).totalStakeAmountAlloted = e.totalStakeAmountAlloted := rfl

end Fields

def EpochMetaData.addStakes (e : EpochMetaData) (n : Nat) : EpochMetaData :=
  e.addTotalStakeAmountFound (UInt64.ofNat n * Config.stakeAmount)

theorem EpochMetaData.addStakes_addStakes (e : EpochMetaData) (m n : Nat) :
    (e.addStakes m).addStakes n = e.addStakes (m + n) := by
  unfold addStakes addTotalStakeAmountFound
  rw [UInt64.ofNat_add, UInt64.add_mul, UInt64.add_assoc]

theorem EpochMetaData.addStakes_zero (e : EpochMetaData) : e.addStakes 0 = e := by
  unfold addStakes addTotalStakeAmountFound
  rw [show UInt64.ofNat 0 = 0 from rfl, UInt64.zero_mul, UInt64.add_zero]

theorem EpochMetaData.addStakes_one (e : EpochMetaData) :
    e.addStakes 1 = e.addTotalStakeAmountFound Config.stakeAmount := by
  unfold addStakes
  rw [show UInt64.ofNat 1 = 1 from rfl, UInt64.one_mul]

theorem processEpochMetaData_of_ok {b : Block} (h : processEpochMetaData ext b s e = .ok e') :
    e' = e.addStakes b.protocolTransactions.length := by
  unfold processEpochMetaData at h
  refine foldlM_prefix
    (fun (done : List ProtocolTransaction) (e' : EpochMetaData) => e' = e.addStakes done.length)
    _ ?_ e.addStakes_zero.symm h
  intro done e₁ tx e₂ hdone hstep
  unfold countStake at hstep
  rcases errorIf_bind_eq_ok.1 hstep with ⟨-, hstep⟩
  rw [pure_eq_ok] at hstep
  rw [← hstep, hdone, List.length_append, List.length_singleton, ← e.addStakes_addStakes,
    EpochMetaData.addStakes_one]

theorem Store.signers_of_get {b : Block} (h : db.blocks.get k = some b) :
    db.signers k = b.protocolTransactions.length := by
  unfold Store.signers
  rw [h]
  rfl

theorem Store.pendingUpdates_of_get {b : Block} (h : db.blocks.get k = some b) :
    db.pendingUpdates k = if b.slotNumber = 0 then [] else b.getPendingValidatorsUpdate := by
  unfold Store.pendingUpdates
  rw [h]
  rfl

theorem closeBlock_of_ok {keys keys' : List PublicKey}
    (h : Chain.closeBlock ext db s (e, keys) k = .ok (e', keys')) :
    (∃ b, db.blocks.get k = some b) ∧ keys' = keys ++ db.pendingUpdates k ∧
      e' = e.addStakes (db.signers k) := by
  unfold Chain.closeBlock at h
  rcases bind_eq_ok.1 h with ⟨b, hb, h⟩
  rcases bind_eq_ok.1 h with ⟨e₁, he₁, h⟩
  rw [pure_eq_ok, Prod.mk.injEq] at h
  rcases h with ⟨rfl, rfl⟩
  have hget := orFail_eq_ok.1 hb
  rw [Store.signers_of_get hget, Store.pendingUpdates_of_get hget]
  refine ⟨⟨b, hget⟩, ?_, processEpochMetaData_of_ok he₁⟩
  split
  · rw [List.append_nil]
  · rfl

theorem closeBlock_fold {l : List Hash} {e : EpochMetaData} {acc : EpochMetaData × List PublicKey}
    (h : l.foldlM (Chain.closeBlock ext db s) (e, []) = .ok acc) :
    acc.1 = e.addStakes (l.map db.signers).sum ∧ acc.2 = l.flatMap db.pendingUpdates ∧
      ∀ k ∈ l, ∃ b, db.blocks.get k = some b := by
  refine foldlM_prefix
    (fun (done : List Hash) (acc : EpochMetaData × List PublicKey) =>
      acc.1 = e.addStakes (done.map db.signers).sum ∧ acc.2 = done.flatMap db.pendingUpdates ∧
      ∀ k ∈ done, ∃ b, db.blocks.get k = some b) _ ?_ ?_ h
  · rintro done ⟨e₁, keys₁⟩ k ⟨e₂, keys₂⟩ ⟨hrecord, hkeys, hstored⟩ hstep
    rcases closeBlock_of_ok hstep with ⟨hget, hkeys₂, hrecord₂⟩
    dsimp only at hrecord hkeys ⊢
    refine ⟨?_, ?_, ?_⟩
    · rw [hrecord₂, hrecord, List.map_append, List.sum_append, List.map_singleton,
        List.sum_singleton, e.addStakes_addStakes]
    · rw [hkeys₂, hkeys, List.flatMap_append, List.flatMap_singleton]
    · intro k' hk'
      rcases List.mem_append.1 hk' with hold | hnew
      · exact hstored k' hold
      · rw [List.mem_singleton.1 hnew]
        exact hget
  · exact ⟨e.addStakes_zero.symm, rfl, fun _ hk => (nomatch hk)⟩

/-- The closing record: what was found and allotted, before the validators change. -/
def closedRecord (db : Store) (path : List Hash) (e : EpochMetaData) : EpochMetaData :=
  (e.updatePrevEpochStakeData 0 (UInt64.ofNat e.validators.length * Config.stakeAmount)).addStakes
    (path.map db.signers).sum

theorem closedRecord_validators (db : Store) (path : List Hash) (e : EpochMetaData) :
    (closedRecord db path e).validators = e.validators := by
  unfold closedRecord EpochMetaData.addStakes
  rw [EpochMetaData.addTotalStakeAmountFound_validators,
    EpochMetaData.updatePrevEpochStakeData_validators]

theorem closedRecord_found (db : Store) (path : List Hash) (e : EpochMetaData) :
    (closedRecord db path e).totalStakeAmountFound
      = UInt64.ofNat (path.map db.signers).sum * Config.stakeAmount := by
  unfold closedRecord EpochMetaData.addStakes
  rw [EpochMetaData.addTotalStakeAmountFound_found, EpochMetaData.updatePrevEpochStakeData_found,
    UInt64.zero_add]

theorem closedRecord_alloted (db : Store) (path : List Hash) (e : EpochMetaData) :
    (closedRecord db path e).totalStakeAmountAlloted
      = UInt64.ofNat e.validators.length * Config.stakeAmount := by
  unfold closedRecord EpochMetaData.addStakes
  rw [EpochMetaData.addTotalStakeAmountFound_alloted,
    EpochMetaData.updatePrevEpochStakeData_alloted]

theorem nextEpochMetaData_of_ok {path : List Hash}
    (h : Chain.nextEpochMetaData ext db s slot k path e = .ok (s', e')) :
    (∀ x ∈ path, ∃ b, db.blocks.get x = some b) ∧
      let r := updateStakeValidators ext s (path.reverse.flatMap db.pendingUpdates)
        (closedRecord db path e)
      s' = r.1 ∧ r.2.allotSlots ext (getRandomSeed ext.toCrypto k) (epochOf slot) k = .ok e' := by
  unfold Chain.nextEpochMetaData at h
  rcases bind_eq_ok.1 h with ⟨acc, hfold, h⟩
  rcases acc with ⟨e₁, keys⟩
  rcases closeBlock_fold hfold with ⟨hrecord, hkeys, hstored⟩
  dsimp only at hrecord hkeys h
  rw [List.map_reverse, List.sum_reverse] at hrecord
  have hclosed : e₁ = closedRecord db path e := hrecord
  rcases bind_eq_ok.1 h with ⟨e₂, hallot, h⟩
  rw [pure_eq_ok, Prod.mk.injEq] at h
  rcases h with ⟨hs, rfl⟩
  rw [hclosed, hkeys] at hs hallot
  exact ⟨fun x hx => hstored x (List.mem_reverse.2 hx), hs.symm, hallot⟩

theorem updateStakeValidators_record {pending : List PublicKey} {e : EpochMetaData}
    (h : e.validators.Nodup) : let e' := (updateStakeValidators ext s pending e).2
    e'.validators.Nodup ∧ e'.totalStakeAmountFound = e.totalStakeAmountFound ∧
      e'.totalStakeAmountAlloted = e.totalStakeAmountAlloted := by
  unfold updateStakeValidators
  refine List.foldlRecOn (motive := fun se : StateDB × EpochMetaData => se.2.validators.Nodup ∧
    se.2.totalStakeAmountFound = e.totalStakeAmountFound ∧
    se.2.totalStakeAmountAlloted = e.totalStakeAmountAlloted) _ _ ⟨h, rfl, rfl⟩ ?_
  rintro ⟨s₁, e₁⟩ ⟨hnodup, hfound, halloted⟩ pk -
  unfold updateStakeValidator
  dsimp only at hnodup hfound halloted ⊢
  split
  · exact ⟨EpochMetaData.Nodup.removeValidators hnodup pk, hfound, halloted⟩
  · refine ⟨EpochMetaData.Nodup.addValidators hnodup pk, ?_, ?_⟩
    · unfold EpochMetaData.addValidators
      split
      · exact hfound
      · exact hfound
    · unfold EpochMetaData.addValidators
      split
      · exact halloted
      · exact halloted

theorem exists_of_getEpochMetaData {db : Store} {e : EpochMetaData}
    (h : db.getEpochMetaData slot k = .ok e) :
    ∃ last, db.epochMetaData.get (epochOf slot, last) = some e := by
  unfold Store.getEpochMetaData at h
  split at h
  · rename_i hzero
    rw [hzero]
    exact ⟨_, orFail_eq_ok.1 h⟩
  · rcases bind_eq_ok.1 h with ⟨last, -, h⟩
    exact ⟨_, orFail_eq_ok.1 h⟩

/-- The computation for a block that opens an epoch: the blocks of its parent's
    epoch, the record they ran under, and the record it gets. -/
structure Closed (ext : Externals) (db : Store) (s : StateDB) (slot : UInt64) (k : Hash)
    (s' : StateDB) (e' : EpochMetaData) (pm first : BlockMetaData) (path : List Hash)
    (e : EpochMetaData) : Prop where
  parent : db.getBlockMetaData k = .ok pm
  walked : Chain.epochPath db pm.epoch db.walkFuel pm = .ok path
  oldest : ∃ firstHash, path.getLast? = some firstHash ∧ db.getBlockMetaData firstHash = .ok first
  record : db.getEpochMetaData first.slotNumber first.parentHeaderHash = .ok e
  next : Chain.nextEpochMetaData ext db s slot k path e = .ok (s', e')

theorem calculateEpochMetaData_of_ok
    (h : Chain.calculateEpochMetaData ext db s slot k = .ok (s', e')) :
    ∃ parent, db.getBlockMetaData k = .ok parent ∧
      (parent.epoch = epochOf slot ∧ db.getEpochMetaData slot k = .ok e' ∧ s' = s ∨
       parent.epoch ≠ epochOf slot ∧ ∃ first path e,
         Closed ext db s slot k s' e' parent first path e) := by
  rcases bind_eq_ok.1 h with ⟨parent, hparent, h⟩
  refine ⟨parent, hparent, ?_⟩
  split at h
  · rename_i hsame
    rcases bind_eq_ok.1 h with ⟨e, he, h⟩
    rcases h with ⟨rfl, rfl⟩
    exact .inl ⟨hsame, he, rfl⟩
  · rename_i hsame
    rcases bind_eq_ok.1 h with ⟨path, hpath, h⟩
    rcases bind_eq_ok.1 h with ⟨firstHash, hfirst, h⟩
    rcases bind_eq_ok.1 h with ⟨first, hrecord, h⟩
    rcases bind_eq_ok.1 h with ⟨e, he, h⟩
    exact .inr ⟨hsame, first, path, e, hparent, hpath,
      ⟨firstHash, orFail_eq_ok.1 hfirst, hrecord⟩, he, h⟩

/-- The stakes pending for some keys were moved, one key after the other. -/
def Booked (ext : Externals) (s s' : StateDB) : Prop :=
  ∃ pending e, s' = (updateStakeValidators ext s pending e).1

theorem booked_of_calculateEpochMetaData
    (h : Chain.calculateEpochMetaData ext db s slot k = .ok (s', e')) : Booked ext s s' := by
  rcases calculateEpochMetaData_of_ok h with ⟨pm, -, ⟨-, -, rfl⟩ | ⟨-, first, path, e, hclosed⟩⟩
  · exact ⟨[], e', rfl⟩
  · exact ⟨_, _, (nextEpochMetaData_of_ok hclosed.next).2.1⟩

theorem booked_of_genesisEpoch {g : Block}
    (h : genesisEpoch ext g s e = .ok (s', e')) : Booked ext s s' := by
  rcases bind_eq_ok.1 h with ⟨e₁, -, h⟩
  rcases bind_eq_ok.1 h with ⟨e₂, -, h⟩
  simp only [pure_eq_ok, Prod.mk.injEq] at h
  exact ⟨_, _, h.1.symm⟩

theorem Booked.induction (P : StateDB → Prop)
    (hstep : ∀ se pk, P se.1 → P (updateStakeValidator ext se pk).1) (h : Booked ext s s')
    (hs : P s) : P s' := by
  rcases h with ⟨pending, e, rfl⟩
  exact List.foldlRecOn (motive := fun se : StateDB × EpochMetaData => P se.1) _ _ hs
    (fun se hse pk _ => hstep se pk hse)

theorem Closed.allotted {parent first : BlockMetaData} {path : List Hash}
    (h : Closed ext db s slot k s' e' parent first path e) (hnodup : e.validators.Nodup) :
    e'.Allotted ∧ e'.slotInfo = EpochMetaData.allotments e'.validators.length ∧
      e'.epoch = epochOf slot ∧ e'.prevSlotLastBlockHeaderHash = k ∧
      e'.totalStakeAmountFound = UInt64.ofNat (path.map db.signers).sum * Config.stakeAmount ∧
      e'.totalStakeAmountAlloted = UInt64.ofNat e.validators.length * Config.stakeAmount := by
  rcases nextEpochMetaData_of_ok h.next with ⟨-, -, hallot⟩
  have hclosed : (closedRecord db path e).validators.Nodup := by
    rw [closedRecord_validators]
    exact hnodup
  have hrecord := @updateStakeValidators_record ext s (path.reverse.flatMap db.pendingUpdates) _
    hclosed
  rcases hrecord with ⟨hnew, hfound, halloted⟩
  rcases EpochMetaData.allotted_allotSlots hnew hallot with ⟨ha, hslots, hepoch, hprev, hf, hal⟩
  refine ⟨ha, hslots, hepoch, hprev, ?_, ?_⟩
  · rw [hf, hfound, closedRecord_found]
  · rw [hal, halloted, closedRecord_alloted]

end Closing

end Zond
