import Zond.Theory.Epochs
import Zond.Theory.Slots

/-!
# The Chronicle of a Branch

A block that arrives once, and after its parent, adds to the store and changes
nothing in it.

## Main definitions

* `Recalled`: Every epoch record is what its computation still gives, and every block
  finds the one record of its epoch on its branch.

## Theorems

* `Recalled.addBlock`: A fresh block keeps this.
* `Recalled.extends`: The store grows.
-/

namespace Zond

open Ancestry EpochMetaData Outcome

variable {s : StateDB} {slot : UInt64} {k : Hash} {e : EpochMetaData} {db : Store} {x : Block}
variable {path : List Hash}

/-- A block under a hash that is not in the store, after its parent. -/
structure Fresh (c : Chain) (b : Block) : Prop where
  fresh : c.db.core b.hash = none
  after : ∀ parent, c.db.blocks.get b.parentHash = some parent →
    parent.slotNumber < b.slotNumber

theorem Fresh.ascending {c : Chain} {b : Block} (h : Fresh c b) : Ascending c b := by
  refine ⟨fun r hr => ?_, h.after⟩
  rw [h.fresh] at hr
  cases hr

theorem fresh_of_ascendsFresh (c : Chain) (b : Block) (h : ascendsFresh c b = true) :
    Fresh c b := by
  refine ⟨?_, (ascending_of_ascendsFresh c b h).2⟩
  unfold ascendsFresh at h
  rw [Bool.and_eq_true] at h
  exact Option.isNone_iff_eq_none.1 h.1

/-- What a run keeps of the epochs: every record deals its validators; a record of a
    later epoch is what its computation still gives; and every block finds a
    record. -/
structure Recalled (ext : Externals) (g : Block) (c : Chain) : Prop where
  sound : c.db.Sound
  slots : SlotsIncrease g c.db
  genesis : ∃ x, c.db.blocks.get g.hash = some x ∧ x.slotNumber = 0 ∧
    x.protocolTransactions = g.protocolTransactions
  records : ∀ key e, c.db.epochMetaData.get key = some e → e.Allotted ∧
    (key.1 = 0 → e.totalStakeAmountFound = e.totalStakeAmountAlloted)
  derived : ∀ key e, c.db.epochMetaData.get key = some e → key.1 ≠ 0 → ∃ r s s' e',
    c.db.core key.2 = some r ∧ Chain.openState c.tries r.trieRoot = .ok s ∧
    epochOf r.slotNumber ≠ key.1 ∧ e = e'.stored ∧
    ∀ slot, epochOf slot = key.1 →
      Chain.calculateEpochMetaData ext c.db s slot key.2 = .ok (s', e')
  found : ∀ k x, c.db.blocks.get k = some x → k ≠ g.hash →
    ∃ e, c.db.getEpochMetaData x.slotNumber x.parentHash = .ok e

section Epochs

variable {ext : Externals} {db : Store}

/-- Past the epoch of the parent, only the epoch of the slot counts. -/
theorem calculateEpochMetaData_congr {slot' : UInt64}
    {pm : BlockMetaData} (hpm : db.getBlockMetaData k = .ok pm) (hne : pm.epoch ≠ epochOf slot)
    (hepoch : epochOf slot' = epochOf slot) :
    Chain.calculateEpochMetaData ext db s slot' k = Chain.calculateEpochMetaData ext db s slot k := by
  unfold Chain.calculateEpochMetaData Chain.nextEpochMetaData
  rw [hpm, ok_bind, ok_bind, if_neg hne, if_neg (hepoch ▸ hne), hepoch]

/-- The walk for a record ends at the block before the epoch. -/
theorem getEpochMetaData_of_opening {r : RecordCore} (hkeyed : db.Keyed) (hr : db.core k = some r)
    (hlt : r.slotNumber < slot) (hne : epochOf r.slotNumber ≠ epochOf slot)
    (he : db.epochMetaData.get (epochOf slot, k) = some e) :
    db.getEpochMetaData slot k = .ok e := by
  rcases Option.map_eq_some_iff.1 hr with ⟨bm, hget, hcore⟩
  have hslot : bm.slotNumber = r.slotNumber := congrArg RecordCore.slotNumber hcore
  have hlast : db.prevEpochLastHash (epochOf slot) db.walkFuel k = .ok k := by
    have hread : db.getBlockMetaData k = .ok bm := orFail_eq_ok.2 hget
    unfold Store.walkFuel
    rw [Store.prevEpochLastHash, hread, ok_bind, hslot, hkeyed k bm hget, if_neg hne]
    split
    · rename_i hzero
      -- The parent is genesis: a later epoch hands on its hash.
      have hlater : epochOf slot ≠ 0 := fun hz => hne (by rw [hz, hzero]; rfl)
      rw [if_neg hlater]
      rfl
    · rfl
  unfold Store.getEpochMetaData
  rw [if_neg (slotNumber_ne_zero hlt)]
  dsimp only
  rw [hlast, ok_bind]
  exact orFail_eq_ok.2 he

end Epochs

section Step

variable {ext : Externals} {g : Block} {c c' : Chain} {b : Block} {a : Addition}
variable (hi : Recalled ext g c) (hv : Fresh c b) (ha : Added ext c b c' a)

/-- New tries do not replace old ones. -/
theorem openState_putNew {tries : Tries} {root root' : Hash}
    {trie : AssocMap Address Account} (h : Chain.openState tries root = .ok s) :
    Chain.openState (tries.putNew root' trie) root = .ok s := by
  unfold Chain.openState at *
  split at h
  · rename_i hzero
    rw [if_pos hzero]
    exact h
  · rename_i hzero
    rw [if_neg hzero]
    rcases bind_eq_ok.1 h with ⟨t, ht, h⟩
    have hget := AssocMap.get_putNew_of_some tries root' root trie t (orFail_eq_ok.1 ht)
    exact bind_eq_ok.2 ⟨t, orFail_eq_ok.2 hget, h⟩

theorem Executed.parent_slot_lt (hs : c.db.Sound) (hv : Fresh c b) (ha : Executed ext c b a) :
    a.parent.slotNumber < b.slotNumber := by
  rcases hs.recorded _ _ ha.parentBlock with ⟨r, hr, -, hslot⟩
  rw [Store.core_of_get ha.parent, Option.some.injEq] at hr
  subst hr
  have hsame : a.parent.slotNumber = a.parentBlock.slotNumber := hslot
  rw [hsame]
  exact hv.after _ ha.parentBlock

theorem Executed.core_fresh (hv : Fresh c b) (ha : Executed ext c b a) (x : Hash) :
    a.committed.core x = if b.hash = x then some (a.core b) else c.db.core x := by
  have hne : b.parentHash ≠ b.hash := by
    intro heq
    have hold := hv.fresh
    rw [← heq, Store.core_of_get ha.parent] at hold
    cases hold
  rw [ha.core]
  by_cases hx : b.parentHash = x
  · rw [if_pos hx, if_neg (fun heq => hne (hx.trans heq.symm))]
  · rw [if_neg hx]

/-- The epoch of a block that is added: on record, or just opened. -/
theorem Recalled.epoch_cases (hi : Recalled ext g c) (ha : Executed ext c b a) :
    (a.parent.epoch = epochOf b.slotNumber ∧
        c.db.getEpochMetaData b.slotNumber b.parentHash = .ok a.epoch ∧ a.epoch.Allotted) ∨
      (a.parent.epoch ≠ epochOf b.slotNumber ∧ a.epoch.Allotted ∧
        a.epoch.slotInfo = allotments a.epoch.validators.length ∧
        a.epoch.epoch = epochOf b.slotNumber ∧
        a.epoch.prevSlotLastBlockHeaderHash = b.parentHash) := by
  rcases calculateEpochMetaData_of_ok ha.moved with ⟨pm, hpm, hcases⟩
  have hsame : pm = a.parent := Option.some.inj ((orFail_eq_ok.1 hpm).symm.trans ha.parent)
  subst hsame
  rcases hcases with ⟨hepoch, hrecord, -⟩ | ⟨hepoch, first, path, e, hclosed⟩
  · rcases exists_of_getEpochMetaData hrecord with ⟨last, hlast⟩
    exact .inl ⟨hepoch, hrecord, (hi.records _ _ hlast).1⟩
  · rcases exists_of_getEpochMetaData hclosed.record with ⟨last, hlast⟩
    have hnodup := (hi.records _ _ hlast).1.nodup
    rcases hclosed.allotted hnodup with ⟨hallotted, hslots, hat, hprev, -⟩
    exact .inr ⟨hepoch, hallotted, hslots, hat, hprev⟩

include hi hv ha

theorem parent_slot_lt : a.parent.slotNumber < b.slotNumber :=
  ha.toExecuted.parent_slot_lt hi.sound hv

theorem slot_ne_zero : b.slotNumber ≠ 0 := slotNumber_ne_zero (parent_slot_lt hi hv ha)

theorem opened_epoch_ne_zero (hne : epochOf b.slotNumber ≠ a.parent.epoch) :
    epochOf b.slotNumber ≠ 0 := by
  intro hzero
  have hlt := UInt64.lt_iff_toNat_lt.1 (parent_slot_lt hi hv ha)
  have hle := epochOf_mono (Nat.le_of_lt hlt)
  have hz : (epochOf b.slotNumber).toNat = 0 := by rw [hzero]; rfl
  refine hne (UInt64.toNat_inj.1 ?_)
  unfold BlockMetaData.epoch
  omega

omit hv in
/-- A block that opens an epoch adds its record, any other adds none. -/
theorem Recalled.epochs_after (key : UInt64 × Hash) :
    c'.db.epochMetaData.get key = if epochOf b.slotNumber ≠ a.parent.epoch ∧
        (epochOf b.slotNumber, b.parentHash) = key then some a.epoch.stored
      else c.db.epochMetaData.get key := by
  rw [ha.sameTree.epochs, ha.epochs]
  by_cases hne : epochOf b.slotNumber ≠ a.parent.epoch
  · rcases hi.epoch_cases ha.toExecuted with ⟨hepoch, -⟩ | ⟨-, -, -, hat, hprev⟩
    · exact absurd hepoch.symm hne
    · rw [if_pos hne]
      unfold Store.putEpochMetaData
      rw [AssocMap.get_put, hat, hprev]
      by_cases hkey : (epochOf b.slotNumber, b.parentHash) = key
      · rw [if_pos hkey, if_pos ⟨hne, hkey⟩]
      · rw [if_neg hkey, if_neg (fun h => hkey h.2)]
  · rw [if_neg hne, if_neg (fun h => hne h.1)]

/-- A second block that opens the epoch derives the same record. -/
theorem Recalled.record_again (hne : epochOf b.slotNumber ≠ a.parent.epoch)
    (he : c.db.epochMetaData.get (epochOf b.slotNumber, b.parentHash) = some e) :
    e = a.epoch.stored := by
  have hzero := opened_epoch_ne_zero hi hv ha hne
  rcases hi.derived _ e he hzero with ⟨r, s, s', e', hr, hopen, -, hstored, hcalc⟩
  rw [Store.core_of_get ha.parent, Option.some.injEq] at hr
  subst hr
  have hs : s = a.opened := Except.ok.inj (hopen.symm.trans ha.opened)
  subst hs
  have hsame := (hcalc b.slotNumber rfl).symm.trans ha.moved
  rw [Except.ok.injEq, Prod.mk.injEq] at hsame
  rw [hstored, hsame.2]

/-- A block that is added keeps what was on record. -/
theorem Recalled.extends : c.db.Extends c'.db := by
  have hstored : c.db.blocks.get b.hash = none := by
    cases hget : c.db.blocks.get b.hash with
    | none => rfl
    | some x =>
      rcases hi.sound.recorded _ x hget with ⟨r, hr, -⟩
      rw [hv.fresh] at hr
      cases hr
  refine ⟨?_, ?_, ?_, Nat.le_trans ha.size ha.sameTree.size⟩
  · intro k r hr
    have hk : k ≠ b.hash := by
      rintro rfl
      rw [hv.fresh] at hr
      cases hr
    rw [ha.core_of_ne hk]
    exact hr
  · intro k x hx
    have hk : b.hash ≠ k := by
      rintro rfl
      rw [hstored] at hx
      cases hx
    rcases ha.blocks with ⟨pbloom, bloom, hblocks⟩
    rw [ha.sameTree.blocks, hblocks, AssocMap.get_put_ne _ _ hk]
    exact hx
  · intro key e he
    rw [hi.epochs_after ha]
    split
    · rename_i hnew
      rcases hnew with ⟨hne, rfl⟩
      rw [hi.record_again hv ha hne he]
    · exact he

theorem Recalled.records_after (key : UInt64 × Hash) (e : EpochMetaData)
    (he : c'.db.epochMetaData.get key = some e) :
    e.Allotted ∧ (key.1 = 0 → e.totalStakeAmountFound = e.totalStakeAmountAlloted) := by
  rw [hi.epochs_after ha] at he
  split at he
  · rename_i hnew
    rcases hnew with ⟨hne, rfl⟩
    rw [Option.some.injEq] at he
    subst he
    refine ⟨?_, fun hzero => absurd hzero (opened_epoch_ne_zero hi hv ha hne)⟩
    rcases hi.epoch_cases ha.toExecuted with ⟨-, -, hallotted⟩ | ⟨-, hallotted, -⟩
    · exact hallotted.stored
    · exact hallotted.stored
  · exact hi.records key e he

/-- Each record can still be derived from the state before its epoch. -/
theorem Recalled.derived_after (key : UInt64 × Hash) (e : EpochMetaData)
    (he : c'.db.epochMetaData.get key = some e) (hzero : key.1 ≠ 0) : ∃ r s s' e',
    c'.db.core key.2 = some r ∧ Chain.openState c'.tries r.trieRoot = .ok s ∧
    epochOf r.slotNumber ≠ key.1 ∧ e = e'.stored ∧
    ∀ slot, epochOf slot = key.1 →
      Chain.calculateEpochMetaData ext c'.db s slot key.2 = .ok (s', e') := by
  have hx := hi.extends hv ha
  rw [hi.epochs_after ha] at he
  rw [ha.tries]
  split at he
  · rename_i hnew
    rcases hnew with ⟨hne, rfl⟩
    rw [Option.some.injEq] at he
    refine ⟨a.parent.core, a.opened, a.moved, a.epoch, ?_, openState_putNew ha.opened,
      hne.symm, he.symm, ?_⟩
    · exact hx.core _ _ (Store.core_of_get ha.parent)
    · intro slot hslot
      refine hx.calculateEpochMetaData ?_
      have hpm : c.db.getBlockMetaData b.parentHash = .ok a.parent := orFail_eq_ok.2 ha.parent
      rw [calculateEpochMetaData_congr hpm hne.symm hslot]
      exact ha.moved
  · rcases hi.derived key e he hzero with ⟨r, s, s', e', hr, hopen, hne, hstored, hcalc⟩
    exact ⟨r, s, s', e', hx.core _ _ hr, openState_putNew hopen, hne, hstored,
      fun slot hslot => hx.calculateEpochMetaData (hcalc slot hslot)⟩

/-- The record of the new block is found from its parent. -/
theorem Recalled.found_new : c'.db.getEpochMetaData b.slotNumber b.parentHash = .ok a.epoch ∨
      a.parent.epoch ≠ epochOf b.slotNumber ∧
        c'.db.getEpochMetaData b.slotNumber b.parentHash = .ok a.epoch.stored := by
  have hx := hi.extends hv ha
  rcases hi.epoch_cases ha.toExecuted with ⟨-, hrecord, -⟩ | ⟨hne, -⟩
  · exact .inl (hx.getEpochMetaData hrecord)
  · refine .inr ⟨hne, getEpochMetaData_of_opening ha.sameTree.keyed
      (hx.core _ _ (Store.core_of_get ha.parent)) (parent_slot_lt hi hv ha) hne ?_⟩
    rw [hi.epochs_after ha, if_pos ⟨hne.symm, rfl⟩]

end Step

section Run

variable {ext : Externals} {g : Block} {c c' : Chain} {b : Block} {now : UInt64}

/-- The step lemma of `Recalled`. -/
theorem Recalled.addBlock (hi : Recalled ext g c) (hv : Fresh c b)
    (h : c.addBlock ext now b = .ok (true, c')) : Recalled ext g c' := by
  rcases parent_of_addBlock h with ⟨parent, hparent⟩
  have hslot := slotNumber_ne_zero (hv.after parent hparent)
  rcases added_of_addBlock hi.sound hslot h with ⟨a, ha⟩
  have hx := hi.extends hv ha
  rcases hi.slots.addBlock hi.sound hv.ascending h with ⟨hsound, hslots⟩
  refine ⟨hsound, hslots, ?_, hi.records_after hv ha, hi.derived_after hv ha, ?_⟩
  · rcases hi.genesis with ⟨x, hget, hfields⟩
    exact ⟨x, hx.blocks _ x hget, hfields⟩
  · intro k x hget hk
    rcases ha.block_after hget with ⟨-, hxp, hxs, -⟩ | ⟨-, hold⟩
    · rw [hxp, hxs]
      rcases hi.found_new hv ha with hfound | ⟨-, hfound⟩
      · exact ⟨_, hfound⟩
      · exact ⟨_, hfound⟩
    · rcases hi.found k x hold hk with ⟨e, he⟩
      exact ⟨e, hx.getEpochMetaData he⟩

theorem genesisEpoch_of_ok {s' : StateDB} {first : ProtocolTransaction}
    (h : genesisEpoch ext g s (genesisEpochMetaData g first.pk) = .ok (s', e)) :
    e.Allotted ∧ e.epoch = 0 ∧ e.prevSlotLastBlockHeaderHash = g.parentHash ∧
      e.totalStakeAmountFound = e.totalStakeAmountAlloted := by
  unfold genesisEpoch at h
  rcases bind_eq_ok.1 h with ⟨e₁, he₁, h⟩
  rcases bind_eq_ok.1 h with ⟨e₂, hallot, h⟩
  rw [pure_eq_ok, Prod.mk.injEq] at h
  rcases h with ⟨-, rfl⟩
  have hnodup : e₁.validators.Nodup := by
    rw [processEpochMetaData_of_ok he₁]
    unfold EpochMetaData.addStakes
    rw [EpochMetaData.addTotalStakeAmountFound_validators]
    exact EpochMetaData.Nodup.addValidators List.nodup_nil _
  have hupdated := @updateStakeValidators_record ext s g.getPendingValidatorsUpdate e₁ hnodup
  rcases allotted_allotSlots (by exact hupdated.1) hallot with ⟨ha, -, hepoch, hprev, hf, hal⟩
  exact ⟨ha, hepoch, hprev, hf.trans hal.symm⟩

theorem Recalled.genesisChain {preState : List (List UInt8 × UInt64)} {c₀ : Chain}
    (hg : g.slotNumber = 0) (h₀ : genesisChain ext g preState = .ok c₀) : Recalled ext g c₀ := by
  rcases genesisNode_of_ok hg h₀ with ⟨e, trie, total, hnode⟩
  rcases hnode.epoch with ⟨first, s, s', -, hepoch⟩
  rcases genesisEpoch_of_ok hepoch with ⟨hallotted, hzero, -, hfound⟩
  refine ⟨hnode.sound hg, fun k x hx hk => absurd (hnode.block hx).1 hk, ?_, ?_, ?_, ?_⟩
  · rcases (hnode.sound hg).headed with ⟨m, hm, x, hx⟩
    rw [hnode.main, Option.some.injEq] at hm
    subst hm
    rcases hnode.block hx with ⟨-, -, -, hxs, htxs⟩
    exact ⟨x, hx, hxs.trans hg, htxs⟩
  · intro key e' he'
    rw [hnode.epochs, AssocMap.get_put] at he'
    split at he'
    · rw [Option.some.injEq] at he'
      subst he'
      exact ⟨hallotted.stored, fun _ => hfound⟩
    · cases he'
  · intro key e' he' hne
    rw [hnode.epochs, AssocMap.get_put] at he'
    split at he'
    · rename_i hkey
      exact absurd (hkey ▸ hzero) hne
    · cases he'
  · exact fun k x hx hk => absurd (hnode.block hx).1 hk

end Run

/-- The parent of a block, above genesis. -/
def Store.parent (g : Block) (db : Store) (k : Hash) : Option Hash :=
  if k = g.hash then none else (db.blocks.get k).map Block.parentHash

def Store.slotOf (db : Store) (k : Hash) : Nat :=
  ((db.blocks.get k).map (fun x => x.slotNumber.toNat)).getD 0

section Branch

variable {ext : Externals} {g : Block} {c : Chain}

theorem Store.slotOf_of_get (h : db.blocks.get k = some x) : db.slotOf k = x.slotNumber.toNat := by
  unfold Store.slotOf
  rw [h]
  rfl

theorem Store.parent_eq_some {p : Hash} (h : db.parent g k = some p) :
    k ≠ g.hash ∧ ∃ x, db.blocks.get k = some x ∧ x.parentHash = p := by
  unfold Store.parent at h
  split at h
  · cases h
  · exact ⟨‹_›, Option.map_eq_some_iff.1 h⟩

/-- Slots rank the blocks, so that no walk goes round. -/
theorem SlotsIncrease.slotOf_lt (h : SlotsIncrease g db) (k p : Hash)
    (hp : db.parent g k = some p) : db.slotOf p < db.slotOf k := by
  rcases Store.parent_eq_some hp with ⟨hk, x, hx, rfl⟩
  rcases h k x hx hk with ⟨y, hy, hlt⟩
  rw [Store.slotOf_of_get hx, Store.slotOf_of_get hy]
  exact UInt64.lt_iff_toNat_lt.1 hlt

variable (hi : Recalled ext g c)
include hi

theorem Recalled.record_parent {y : Block} (hx : c.db.blocks.get k = some x) (hk : k ≠ g.hash)
    (hy : c.db.blocks.get x.parentHash = some y) (hepoch : y.epoch = x.epoch)
    (he : c.db.getEpochMetaData x.slotNumber x.parentHash = .ok e) :
    c.db.getEpochMetaData y.slotNumber y.parentHash = .ok e := by
  rcases hi.slots k x hx hk with ⟨y', hy', hlt⟩
  rw [hy, Option.some.injEq] at hy'
  subst hy'
  rcases hi.sound.recorded _ y hy with ⟨r, hr, hparent, hslot⟩
  rcases Option.map_eq_some_iff.1 hr with ⟨bm, hget, rfl⟩
  have hread : c.db.getBlockMetaData x.parentHash = .ok bm := orFail_eq_ok.2 hget
  have hbs : bm.slotNumber = y.slotNumber := hslot
  have hbp : bm.parentHeaderHash = y.parentHash := hparent
  have hsame : epochOf y.slotNumber = epochOf x.slotNumber := hepoch
  unfold Store.getEpochMetaData at he ⊢
  rw [if_neg (slotNumber_ne_zero hlt)] at he
  rcases bind_eq_ok.1 he with ⟨last, hlast, he⟩
  unfold Store.walkFuel at hlast
  rw [Store.prevEpochLastHash, hread, ok_bind, hbs, hbp] at hlast
  by_cases hzero : y.slotNumber = 0
  · -- The parent is genesis, and the epoch is the first.
    have hfirst : epochOf x.slotNumber = 0 := by rw [← hsame, hzero]; rfl
    rw [if_pos hzero, if_pos hfirst, pure_eq_ok] at hlast
    rw [if_pos hzero, hlast, ← hfirst]
    exact he
  · rw [if_neg hzero, if_pos hsame] at hlast
    have hrefl : c.db.Extends c.db := ⟨fun _ _ h => h, fun _ _ h => h, fun _ _ h => h, Nat.le_refl _⟩
    rw [if_neg hzero, hsame]
    exact bind_eq_ok.2 ⟨last, hrefl.prevEpochLastHash (Nat.le_succ _) hlast, he⟩

/-- Blocks of one epoch on one branch share its record. -/
theorem Recalled.record_ancestor {k' : Hash} {x' : Block}
    (hdesc : Descends (c.db.parent g) k' k) (hx' : c.db.blocks.get k' = some x')
    (hx : c.db.blocks.get k = some x) (hepoch : x.epoch = x'.epoch)
    (he : c.db.getEpochMetaData x'.slotNumber x'.parentHash = .ok e) :
    c.db.getEpochMetaData x.slotNumber x.parentHash = .ok e := by
  induction hdesc using Relation.ReflTransGen.head_induction_on generalizing x' with
  | refl =>
    rw [hx, Option.some.injEq] at hx'
    rw [hx']
    exact he
  | head hstep hrest ih =>
    rename_i k₁ p
    rcases Store.parent_eq_some hstep with ⟨hk₁, x₁, hx₁, rfl⟩
    rw [hx', Option.some.injEq] at hx₁
    subst hx₁
    rcases hi.slots _ x' hx' hk₁ with ⟨y, hy, hlt⟩
    -- The parent's slot lies between the two, so its epoch is theirs.
    have hbelow : x.slotNumber.toNat ≤ y.slotNumber.toNat := by
      rw [← Store.slotOf_of_get hx, ← Store.slotOf_of_get hy]
      rcases Descends.eq_or_lt hi.slots.slotOf_lt hrest with heq | hless
      · rw [heq]
      · exact Nat.le_of_lt hless
    have hyx : y.epoch = x'.epoch := by
      have hlow := epochOf_mono hbelow
      have hhigh := epochOf_mono (Nat.le_of_lt (UInt64.lt_iff_toNat_lt.1 hlt))
      have hends : (epochOf x.slotNumber).toNat = (epochOf x'.slotNumber).toNat :=
        congrArg UInt64.toNat hepoch
      refine UInt64.toNat_inj.1 ?_
      unfold Block.epoch
      omega
    exact ih hy (hepoch.trans hyx.symm) (hi.record_parent hx' hk₁ hy hyx he)

omit hi in
theorem mem_epochPath {fuel : Nat} {bm : BlockMetaData}
    (h : Chain.epochPath db bm.epoch fuel bm = .ok path) : bm.headerHash ∈ path := by
  cases fuel with
  | zero => cases h
  | succ fuel =>
    rw [Chain.epochPath, if_pos (show epochOf bm.slotNumber = bm.epoch from rfl)] at h
    split at h
    · cases h
      exact List.mem_cons_self
    · rcases bind_eq_ok.1 h with ⟨pm, -, h⟩
      rcases bind_eq_ok.1 h with ⟨rest, -, h⟩
      rw [pure_eq_ok] at h
      rw [← h]
      exact List.mem_cons_self

/-- The path of an epoch has its blocks, newest first. -/
theorem Recalled.epochPath_spec {epoch : UInt64} {fuel : Nat} {bm : BlockMetaData}
    (hbm : Recorded c.db bm) (hstored : ∀ k ∈ path, ∃ x, c.db.blocks.get k = some x)
    (h : Chain.epochPath c.db epoch fuel bm = .ok path) :
    (∀ k ∈ path, ∃ x, c.db.blocks.get k = some x ∧ x.epoch = epoch ∧
        Descends (c.db.parent g) bm.headerHash k) ∧
      path.Pairwise (fun k k' => c.db.slotOf k' < c.db.slotOf k) := by
  induction fuel generalizing bm path with
  | zero => cases h
  | succ fuel ih =>
    rw [Chain.epochPath] at h
    split at h
    · rename_i hepoch
      -- The block itself, as it is stored.
      have hself : bm.headerHash ∈ path → ∃ x, c.db.blocks.get bm.headerHash = some x ∧
          x.slotNumber = bm.slotNumber ∧ x.parentHash = bm.parentHeaderHash := by
        intro hmem
        rcases hstored _ hmem with ⟨x, hx⟩
        rcases hi.sound.recorded _ x hx with ⟨r, hr, hparent, hslot⟩
        rw [hbm, Option.some.injEq] at hr
        subst hr
        exact ⟨x, hx, hslot.symm, hparent.symm⟩
      split at h
      · cases h
        refine ⟨?_, List.pairwise_singleton _ _⟩
        intro k hk
        rw [List.mem_singleton.1 hk]
        rcases hself List.mem_cons_self with ⟨x, hx, hslot, -⟩
        refine ⟨x, hx, ?_, Descends.refl _ _⟩
        unfold Block.epoch
        rw [hslot]
        exact hepoch
      · rename_i hzero
        rcases bind_eq_ok.1 h with ⟨pm, hpm, h⟩
        rcases bind_eq_ok.1 h with ⟨rest, hrest, h⟩
        rw [pure_eq_ok] at h
        subst h
        have hget := orFail_eq_ok.1 hpm
        rcases hself List.mem_cons_self with ⟨x, hx, hslot, hparent⟩
        rcases ih (recorded_of_get hi.sound.keyed hget)
          (fun k hk => hstored k (List.mem_cons_of_mem _ hk)) hrest with ⟨hall, hpairs⟩
        have hne : bm.headerHash ≠ g.hash := by
          intro heq
          rcases hi.genesis with ⟨x₀, hx₀, hslot₀, -⟩
          rw [← heq, hx, Option.some.injEq] at hx₀
          exact hzero (by rw [← hslot, hx₀, hslot₀])
        have hlink : c.db.parent g bm.headerHash = some pm.headerHash := by
          unfold Store.parent
          rw [if_neg hne, hx, Option.map_some, hparent, hi.sound.keyed _ _ hget]
        refine ⟨?_, List.pairwise_cons.2 ⟨?_, hpairs⟩⟩
        · intro k hk
          rcases List.mem_cons.1 hk with rfl | hk
          · refine ⟨x, hx, ?_, Descends.refl _ _⟩
            unfold Block.epoch
            rw [hslot]
            exact hepoch
          · rcases hall k hk with ⟨y, hy, hyepoch, hdesc⟩
            exact ⟨y, hy, hyepoch, Descends.of_parent hlink hdesc⟩
        · intro k hk
          rcases hall k hk with ⟨-, -, -, hdesc⟩
          have hlt := hi.slots.slotOf_lt _ _ hlink
          rcases Descends.eq_or_lt hi.slots.slotOf_lt hdesc with heq | hless
          · exact heq ▸ hlt
          · exact Nat.lt_trans hless hlt
    · cases h
      exact ⟨fun _ hk => absurd hk List.not_mem_nil, List.Pairwise.nil⟩

/-- So the blocks that close an epoch share its record. -/
theorem Recalled.record_path {s' : StateDB} {key : Hash}
    {pm first : BlockMetaData} {e' : EpochMetaData}
    (hc : Closed ext c.db s slot key s' e' pm first path e)
    (hk : k ∈ path) (hx : c.db.blocks.get k = some x) :
    c.db.getEpochMetaData x.slotNumber x.parentHash = .ok e := by
  have hget := orFail_eq_ok.1 hc.parent
  have hstored := (nextEpochMetaData_of_ok hc.next).1
  rcases hi.epochPath_spec (recorded_of_get hi.sound.keyed hget) hstored hc.walked with ⟨hall, -⟩
  rcases hc.oldest with ⟨oldest, holdest, hfirst⟩
  have hlast := List.mem_of_getLast? holdest
  rcases hall oldest hlast with ⟨y, hy, hyepoch, hydesc⟩
  rcases hall k hk with ⟨x', hx', hxepoch, hxdesc⟩
  rw [hx, Option.some.injEq] at hx'
  subst hx'
  -- The oldest block is the one the record was looked up for.
  have he : c.db.getEpochMetaData y.slotNumber y.parentHash = .ok e := by
    rcases hi.sound.recorded _ y hy with ⟨r, hr, hparent, hslot⟩
    rw [Store.core_of_get (orFail_eq_ok.1 hfirst), Option.some.injEq] at hr
    subst hr
    rw [← hparent, ← hslot]
    exact hc.record
  by_cases htop : pm.headerHash = g.hash
  · -- Nothing lies before genesis: both are genesis itself.
    have hroot : ∀ k, Descends (c.db.parent g) pm.headerHash k → k = g.hash := by
      intro k hdesc
      rcases Relation.ReflTransGen.cases_head hdesc with heq | ⟨p, hp, -⟩
      · rw [← heq, htop]
      · exact absurd htop (Store.parent_eq_some hp).1
    rw [hroot oldest hydesc] at hy
    rw [hroot k hxdesc, hy, Option.some.injEq] at hx
    rw [← hx]
    exact he
  · -- The newest block finds a record, and all its ancestors in the epoch find it.
    rcases hall _ (mem_epochPath hc.walked) with ⟨z, hz, hzepoch, -⟩
    rcases hi.found _ z hz htop with ⟨e₁, he₁⟩
    have hxe := hi.record_ancestor hxdesc hz hx (hxepoch.trans hzepoch.symm) he₁
    have hye := hi.record_ancestor hydesc hz hy (hyepoch.trans hzepoch.symm) he₁
    rw [hxe, ← hye, he]

end Branch

theorem toNat_stakes (n : Nat) (amount : UInt64) :
    (UInt64.ofNat n * amount).toNat = n * amount.toNat % 2 ^ 64 := by
  rw [UInt64.toNat_mul, UInt64.toNat_ofNat', Nat.mod_mul_mod]

theorem stakes_le {m n : Nat} {amount : UInt64} (hle : m ≤ n)
    (hfits : n * amount.toNat < 2 ^ 64) : UInt64.ofNat m * amount ≤ UInt64.ofNat n * amount := by
  have hmul := Nat.mul_le_mul_right amount.toNat hle
  rw [UInt64.le_iff_toNat_le, toNat_stakes, toNat_stakes, Nat.mod_eq_of_lt hfits,
    Nat.mod_eq_of_lt (Nat.lt_of_le_of_lt hmul hfits)]
  exact hmul

end Zond
