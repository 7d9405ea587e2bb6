import Zond.Theory.Finality
import Zond.Theory.Writes

/-!
# Block-Tree Bookkeeping

Each block is listed twice: as a child in the record of its parent, and under its
slot in the hash list of its epoch. Both lists are read, appended to and written
back, and neither append looks for the hash first. The one test there is compares
a byte slice with an array, which are never equal.

A block that comes again is listed again, and its own record is made anew, without the
children it had. A block in slot 0 is never listed as a child at all.

## Main definitions

* `Bookkeeping`: Every stored block is listed once in each place.

## Theorems

* `bookkeeping`: So it is after every run of blocks that do not come twice.
-/

namespace Zond

open Outcome

variable {ext : Externals} {g : Block} {preState : List (List UInt8 × UInt64)}
variable {c₀ c c' : Chain} {b : Block} {now : UInt64}

/-- The entry of a slot, where `AddHeaderHashBySlotNumber` looks for it. -/
def EpochBlockHashes.entry (e : EpochBlockHashes) (slot : UInt64) : Option (UInt64 × List Hash) :=
  e.blockHashesBySlotNumber[(slot - e.epoch * Config.blocksPerEpoch).toNat]?

/-- The hashes a record lists at some slot. -/
def EpochBlockHashes.Lists (e : EpochBlockHashes) (h : Hash) : Prop :=
  ∃ entry ∈ e.blockHashesBySlotNumber, h ∈ entry.2

theorem addHeaderHashBySlotNumber_spec {e e' : EpochBlockHashes} {k : Hash} {slot : UInt64}
    (h : e.addHeaderHashBySlotNumber k slot = .ok e') :
    e'.epoch = e.epoch ∧ epochOf slot = e.epoch ∧
      (∃ hashes, e.entry slot = some (slot, hashes) ∧
        e'.entry slot = some (slot, hashes ++ [k])) ∧
      (∀ s hashes, e.entry s = some (s, hashes) → s ≠ slot → e'.entry s = some (s, hashes)) ∧
      ∀ x, e'.Lists x ↔ x = k ∨ e.Lists x := by
  unfold EpochBlockHashes.addHeaderHashBySlotNumber at h
  rcases errorIf_bind_eq_ok.1 h with ⟨hepoch, h⟩
  dsimp only at h
  split at h
  · cases h
  rename_i slot' hashes hentry
  rcases errorIf_bind_eq_ok.1 h with ⟨hslot, h⟩
  rw [pure_eq_ok] at h
  have hsame : slot' = slot := not_not.1 hslot
  subst hsame h
  have hlt : (slot' - e.epoch * Config.blocksPerEpoch).toNat < e.blockHashesBySlotNumber.length :=
    (List.getElem?_eq_some_iff.1 hentry).1
  refine ⟨rfl, not_not.1 hepoch, ⟨hashes, hentry, ?_⟩, ?_, ?_⟩
  · exact List.getElem?_set_self hlt
  · intro s others hs hne
    unfold EpochBlockHashes.entry at *
    dsimp only
    rw [List.getElem?_set_ne, hs]
    -- Two slots at one index would share its slot number.
    intro hindex
    rw [← hindex, hentry, Option.some.injEq, Prod.mk.injEq] at hs
    exact hne hs.1.symm
  · intro x
    have hset : (slot', hashes ++ [k]) ∈ e.blockHashesBySlotNumber.set
        (slot' - e.epoch * Config.blocksPerEpoch).toNat (slot', hashes ++ [k]) :=
      List.mem_set hlt _
    constructor
    · rintro ⟨entry, hmem, hx⟩
      rcases List.mem_or_eq_of_mem_set hmem with hold | rfl
      · exact .inr ⟨entry, hold, hx⟩
      · rcases List.mem_append.1 hx with hold | hnew
        · exact .inr ⟨_, List.mem_of_getElem? hentry, hold⟩
        · exact .inl (List.mem_singleton.1 hnew)
    · rintro (rfl | ⟨entry, hmem, hx⟩)
      · exact ⟨_, hset, List.mem_append_right _ List.mem_cons_self⟩
      · rcases List.mem_iff_getElem?.1 hmem with ⟨i, hi⟩
        by_cases hindex : (slot' - e.epoch * Config.blocksPerEpoch).toNat = i
        · rw [← hindex, hentry, Option.some.injEq] at hi
          rw [← hi] at hx
          exact ⟨_, hset, List.mem_append_left _ hx⟩
        · refine ⟨entry, List.mem_of_getElem? (i := i) ?_, hx⟩
          rw [List.getElem?_set_ne hindex, hi]

theorem EpochBlockHashes.not_lists_new (epoch : UInt64) (k : Hash) :
    ¬(EpochBlockHashes.new epoch).Lists k := by
  rintro ⟨entry, hmem, hk⟩
  rcases List.mem_map.1 hmem with ⟨i, -, rfl⟩
  cases hk

/-- The lists of children, the lists of the epochs and the stored blocks say the same:
    a stored block other than genesis is a child of its parent once and stands under
    its slot once, and what is listed is stored. -/
structure Bookkeeping (g : Block) (db : Store) : Prop where
  child : ∀ h x, db.blocks.get h = some x → h ≠ g.hash →
    ∃ children, db.children x.parentHash = some children ∧ children.count h = 1
  slot : ∀ h x, db.blocks.get h = some x → h ≠ g.hash →
    ∃ e hashes, db.epochBlockHashes.get (epochOf x.slotNumber) = some e ∧
      e.entry x.slotNumber = some (x.slotNumber, hashes) ∧ hashes.count h = 1
  children : ∀ k children, db.children k = some children → ∀ h ∈ children,
    ∃ x, db.blocks.get h = some x
  listed : ∀ k e, db.epochBlockHashes.get k = some e → ∀ h, e.Lists h →
    ∃ x, db.blocks.get h = some x
  filed : ∀ k e, db.epochBlockHashes.get k = some e → e.epoch = k

theorem Bookkeeping.relinked {db db' : Store} (hi : Bookkeeping g db) (h : Relinked db db') :
    Bookkeeping g db' := by
  rcases hi with ⟨hchild, hslot, hchildren, hlisted, hfiled⟩
  refine ⟨?_, ?_, ?_, ?_, ?_⟩
  · simpa only [h.blocks, h.children] using hchild
  · simpa only [h.blocks, h.epochBlockHashes] using hslot
  · simpa only [h.blocks, h.children] using hchildren
  · simpa only [h.blocks, h.epochBlockHashes] using hlisted
  · simpa only [h.epochBlockHashes] using hfiled

section Write

variable {parentBlock : Block} {w : Pending} (hw : c.prepareBlock ext b parentBlock = .ok w)
include hw

theorem write_blocks_get (k : Hash) :
    (w.write c.db).blocks.get k = if b.hash = k then some w.block else c.db.blocks.get k := by
  rcases prepareBlock_of_ok hw with ⟨-, ⟨pbloom, bloom, hblock⟩, -⟩
  rw [w.write_eq c.db, show (w.block.hash = b.hash) by rw [hblock]; rfl]
  exact AssocMap.get_put _ _ _ _

theorem write_block_fields : w.block.parentHash = b.parentHash ∧
    w.block.slotNumber = b.slotNumber ∧ w.block.hash = b.hash := by
  rcases prepareBlock_of_ok hw with ⟨-, ⟨pbloom, bloom, hblock⟩, -⟩
  rw [hblock]
  exact ⟨rfl, rfl, rfl⟩

theorem write_children (hkeyed : c.db.Keyed) (hslot : b.slotNumber ≠ 0) (k : Hash) :
    (w.write c.db).children k = if b.parentHash = k then
        (c.db.children k).map (fun children => children ++ [b.hash])
      else if b.hash = k then some [] else c.db.children k := by
  rcases parent_of_prepareBlock hw hslot with ⟨pm, last, hpm, -, hparent, -, -⟩
  rcases prepareBlock_of_ok hw with ⟨-, -, -, -, -, -, -, hhash, -, -⟩
  have hkey : (pm.addChildHeaderHash b.hash).headerHash = b.parentHash := hkeyed _ pm hpm
  have hself : w.record.headerHash = b.hash := hhash
  unfold Store.children
  rw [w.write_eq c.db, hparent]
  dsimp only [Option.elim_some]
  rw [AssocMap.get_put, AssocMap.get_put, hkey, hself]
  by_cases hp : b.parentHash = k
  · rw [if_pos hp, if_pos hp, ← hp, hpm]
    rfl
  · rw [if_neg hp, if_neg hp]
    by_cases hk : b.hash = k
    · rw [if_pos hk, if_pos hk]
      rfl
    · rw [if_neg hk, if_neg hk]

theorem write_epochBlockHashes : (∀ k, (w.write c.db).epochBlockHashes.get k =
        if epochOf b.slotNumber = k then some w.hashes else c.db.epochBlockHashes.get k) ∧
      w.hashes.epoch = epochOf b.slotNumber ∧
      (c.db.getEpochBlockHashes (epochOf b.slotNumber)).addHeaderHashBySlotNumber b.hash
        b.slotNumber = .ok w.hashes := by
  rcases prepareBlock_of_ok hw with ⟨-, -, -, -, hadd, hslot, -, hhash, hcopy, -⟩
  rw [hcopy, hhash, hslot] at hadd
  rcases addHeaderHashBySlotNumber_spec hadd with ⟨hepoch, hsame, -⟩
  have hkey : w.hashes.epoch = epochOf b.slotNumber := hepoch.trans hsame.symm
  refine ⟨fun k => ?_, hkey, hadd⟩
  rw [w.write_eq c.db, ← hkey]
  exact AssocMap.get_put _ _ _ _

theorem stored_write {k : Hash} (h : ∃ x, c.db.blocks.get k = some x) :
    ∃ x, (w.write c.db).blocks.get k = some x := by
  rw [write_blocks_get hw]
  by_cases hk : b.hash = k
  · rw [if_pos hk]
    exact ⟨_, rfl⟩
  · rw [if_neg hk]
    exact h

end Write

theorem Bookkeeping.lists_copy (hi : Bookkeeping g c.db) {epoch : UInt64} {k : Hash}
    (h : (c.db.getEpochBlockHashes epoch).Lists k) : ∃ x, c.db.blocks.get k = some x := by
  unfold Store.getEpochBlockHashes at h
  cases hget : c.db.epochBlockHashes.get epoch with
  | none =>
    rw [hget] at h
    exact absurd h (EpochBlockHashes.not_lists_new epoch k)
  | some e =>
    rw [hget] at h
    exact hi.listed epoch e hget k h

theorem count_append_new {l : List Hash} {k : Hash} (h : k ∉ l) : (l ++ [k]).count k = 1 := by
  rw [List.count_append, List.count_eq_zero_of_not_mem h, List.count_singleton_self]

theorem count_append_other {l : List Hash} {k k' : Hash} (h : k' ≠ k) :
    (l ++ [k]).count k' = l.count k' := by
  rw [List.count_append, List.count_singleton, if_neg (by simpa using h.symm), Nat.add_zero]

section Step

variable {parentBlock : Block} {w : Pending} (hs : c.db.Sound) (hi : Bookkeeping g c.db)
variable (hnew : c.db.core b.hash = none) (hslot : b.slotNumber ≠ 0)
variable (hw : c.prepareBlock ext b parentBlock = .ok w)
include hs hnew

theorem not_stored_of_new (x : Block) : c.db.blocks.get b.hash ≠ some x := by
  intro hx
  rcases hs.recorded _ x hx with ⟨r, hr, -⟩
  rw [hnew] at hr
  cases hr

include hi hslot hw

theorem child_write (k : Hash) (x : Block) (hx : (w.write c.db).blocks.get k = some x)
    (hk : k ≠ g.hash) : ∃ children, (w.write c.db).children x.parentHash = some children ∧
      children.count k = 1 := by
  rw [write_blocks_get hw] at hx
  rw [write_children hw hs.keyed hslot]
  by_cases hself : b.hash = k
  · rw [if_pos hself, Option.some.injEq] at hx
    subst hx
    rcases parent_of_prepareBlock hw hslot with ⟨pm, last, hpm, -⟩
    have hchildren : c.db.children b.parentHash = some pm.childHeaderHashes := by
      unfold Store.children
      rw [hpm, Option.map_some]
    rw [(write_block_fields hw).1, if_pos rfl, hchildren, Option.map_some, ← hself]
    refine ⟨_, rfl, count_append_new (fun hmem => ?_)⟩
    rcases hi.children _ _ hchildren _ hmem with ⟨y, hy⟩
    exact not_stored_of_new hs hnew y hy
  · rw [if_neg hself] at hx
    rcases hi.child k x hx hk with ⟨children, hchildren, hcount⟩
    by_cases hp : b.parentHash = x.parentHash
    · rw [if_pos hp, hchildren, Option.map_some]
      exact ⟨_, rfl, (count_append_other (Ne.symm hself)).trans hcount⟩
    · have hne : b.hash ≠ x.parentHash := by
        intro heq
        unfold Store.children at hchildren
        unfold Store.core at hnew
        rw [← heq, Option.map_eq_none_iff.1 hnew] at hchildren
        cases hchildren
      rw [if_neg hp, if_neg hne]
      exact ⟨children, hchildren, hcount⟩

omit hslot in
theorem slot_write (k : Hash) (x : Block) (hx : (w.write c.db).blocks.get k = some x)
    (hk : k ≠ g.hash) : ∃ e hashes,
      (w.write c.db).epochBlockHashes.get (epochOf x.slotNumber) = some e ∧
      e.entry x.slotNumber = some (x.slotNumber, hashes) ∧ hashes.count k = 1 := by
  rcases write_epochBlockHashes hw with ⟨hget, -, hadd⟩
  rcases addHeaderHashBySlotNumber_spec hadd with ⟨-, -, ⟨hashes, hold, happended⟩, hothers, -⟩
  rw [write_blocks_get hw] at hx
  rw [hget]
  by_cases hself : b.hash = k
  · rw [if_pos hself, Option.some.injEq] at hx
    subst hx
    rw [(write_block_fields hw).2.1, if_pos rfl, ← hself]
    refine ⟨w.hashes, _, rfl, happended, count_append_new (fun hmem => ?_)⟩
    rcases hi.lists_copy ⟨_, List.mem_of_getElem? hold, hmem⟩ with ⟨y, hy⟩
    exact not_stored_of_new hs hnew y hy
  · rw [if_neg hself] at hx
    rcases hi.slot k x hx hk with ⟨e, others, he, hentry, hcount⟩
    by_cases hepoch : epochOf b.slotNumber = epochOf x.slotNumber
    · -- The record that was copied is the one the block is listed in.
      have hcopy : c.db.getEpochBlockHashes (epochOf b.slotNumber) = e := by
        unfold Store.getEpochBlockHashes
        rw [hepoch, he, Option.getD_some]
      rw [hcopy] at hold hothers
      rw [if_pos hepoch]
      by_cases hsame : x.slotNumber = b.slotNumber
      · rw [hsame, hold, Option.some.injEq, Prod.mk.injEq] at hentry
        rw [hsame]
        refine ⟨w.hashes, _, rfl, happended, ?_⟩
        rw [count_append_other (Ne.symm hself), hentry.2, hcount]
      · exact ⟨w.hashes, others, rfl, hothers _ _ hentry hsame, hcount⟩
    · rw [if_neg hepoch]
      exact ⟨e, others, he, hentry, hcount⟩

theorem Bookkeeping.write : Bookkeeping g (w.write c.db) := by
  rcases write_epochBlockHashes hw with ⟨hget, hepoch, hadd⟩
  rcases addHeaderHashBySlotNumber_spec hadd with ⟨-, -, -, -, hlists⟩
  have hblock : ∃ x, (w.write c.db).blocks.get b.hash = some x := by
    rw [write_blocks_get hw, if_pos rfl]
    exact ⟨_, rfl⟩
  refine ⟨child_write hs hi hnew hslot hw, slot_write hs hi hnew hw, ?_, ?_, ?_⟩
  · intro k children hk h hmem
    rw [write_children hw hs.keyed hslot] at hk
    by_cases hp : b.parentHash = k
    · rw [if_pos hp] at hk
      rcases Option.map_eq_some_iff.1 hk with ⟨before, hbefore, rfl⟩
      rcases List.mem_append.1 hmem with hold | hlast
      · exact stored_write hw (hi.children _ _ hbefore h hold)
      · rw [List.mem_singleton.1 hlast]
        exact hblock
    · rw [if_neg hp] at hk
      by_cases hself : b.hash = k
      · rw [if_pos hself, Option.some.injEq] at hk
        rw [← hk] at hmem
        cases hmem
      · rw [if_neg hself] at hk
        exact stored_write hw (hi.children _ _ hk h hmem)
  · intro k e he h hlisted
    rw [hget] at he
    by_cases hk : epochOf b.slotNumber = k
    · rw [if_pos hk, Option.some.injEq] at he
      rw [← he] at hlisted
      rcases (hlists h).1 hlisted with rfl | hold
      · exact hblock
      · exact stored_write hw (hi.lists_copy hold)
    · rw [if_neg hk] at he
      exact stored_write hw (hi.listed k e he h hlisted)
  · intro k e he
    rw [hget] at he
    by_cases hk : epochOf b.slotNumber = k
    · rw [if_pos hk, Option.some.injEq] at he
      rw [← he, hepoch, hk]
    · rw [if_neg hk] at he
      exact hi.filed k e he

end Step

/-- The parent of the block is stored and lies before the finalized block, or in its
    slot on another branch. -/
def BelowFinalized (c : Chain) (b : Block) : Prop :=
  ∃ m parent, c.db.mainChainMetaData = some m ∧ c.db.blocks.get b.parentHash = some parent ∧
    (parent.slotNumber < m.finalizedBlockSlotNumber ∨
      parent.slotNumber = m.finalizedBlockSlotNumber ∧ parent.hash ≠ m.finalizedBlockHeaderHash)

theorem addBlock_of_belowFinalized {added : Bool} (hb : BelowFinalized c b)
    (h : c.addBlock ext now b = .ok (added, c')) : c' = c := by
  rcases Chain.addBlock_cases h with ⟨-, hsame⟩ | ⟨-, parentBlock, p, hcheck, -, -⟩
  · exact hsame
  rcases hb with ⟨m, parent, hm, hparent, hbelow⟩
  unfold Chain.checkBlock at hcheck
  rcases bind_eq_ok.1 hcheck with ⟨expected, -, hcheck⟩
  split at hcheck
  · cases hcheck
  split at hcheck
  · cases hcheck
  rw [show c.db.getMainChainMetaData = .ok m from orFail_eq_ok.2 hm,
    show c.db.getBlock b.parentHash = .ok parent from orFail_eq_ok.2 hparent] at hcheck
  simp only [ok_bind] at hcheck
  rcases hbelow with hlt | ⟨heq, hne⟩
  · rw [if_pos hlt] at hcheck
    cases hcheck
  · rw [if_neg (by rw [heq]; exact UInt64.lt_irrefl _), if_pos ⟨heq, hne⟩] at hcheck
    cases hcheck

/-- The block has no record yet and a slot of its own, or it is refused because of its
    parent. -/
def Unrepeated (c : Chain) (b : Block) : Prop :=
  c.db.core b.hash = none ∧ b.slotNumber ≠ 0 ∨ BelowFinalized c b

theorem Bookkeeping.addBlock (hi : c.db.Sound ∧ Bookkeeping g c.db) (hu : Unrepeated c b)
    (h : c.addBlock ext now b = .ok (true, c')) : c'.db.Sound ∧ Bookkeeping g c'.db := by
  rcases hu with ⟨hnew, hslot⟩ | hbelow
  · have hundisputed : Undisputed c b := by
      intro r hr
      rw [hnew] at hr
      cases hr
    rcases added_of_addBlock hi.1 hslot h with ⟨a, ha⟩
    rcases writes_of_addBlock hi.1.keyed h with ⟨parentBlock, w, -, hw, hrelinked⟩
    exact ⟨ha.sound hi.1 hundisputed, (hi.2.write hi.1 hnew hslot hw).relinked hrelinked⟩
  · rw [addBlock_of_belowFinalized hbelow h]
    exact hi

theorem Bookkeeping.genesisChain (hg : g.slotNumber = 0)
    (h : genesisChain ext g preState = .ok c₀) : c₀.db.Sound ∧ Bookkeeping g c₀.db := by
  rcases genesisNode_of_ok hg h with ⟨e, trie, total, hnode⟩
  rcases genesis_lists hg h with ⟨hashes, -, hadd, hlist, -, -, -⟩
  rcases addHeaderHashBySlotNumber_spec hadd with ⟨hepoch, -, -, -, hlists⟩
  have hread : ∀ k e, c₀.db.epochBlockHashes.get k = some e → k = hashes.epoch ∧ e = hashes := by
    intro k e he
    rw [hlist, AssocMap.get_put] at he
    by_cases hk : hashes.epoch = k
    · rw [if_pos hk, Option.some.injEq] at he
      exact ⟨hk.symm, he.symm⟩
    · rw [if_neg hk] at he
      cases he
  refine ⟨hnode.sound hg, ?_, ?_, ?_, ?_, ?_⟩
  · intro k x hx hk
    exact absurd (hnode.block hx).1 hk
  · intro k x hx hk
    exact absurd (hnode.block hx).1 hk
  · intro k children hk x hx
    have hnone : children = [] := by
      unfold Store.children at hk
      rw [hnode.records, AssocMap.get_put, AssocMap.get_put] at hk
      by_cases hself : g.hash = k
      · rw [if_pos hself, Option.map_some, Option.some.injEq] at hk
        exact hk.symm
      · rw [if_neg hself] at hk
        by_cases hp : g.parentHash = k
        · rw [if_pos hp, Option.map_some, Option.some.injEq] at hk
          exact hk.symm
        · rw [if_neg hp] at hk
          cases hk
    rw [hnone] at hx
    cases hx
  · intro k e he x hx
    rw [(hread k e he).2] at hx
    rcases (hlists x).1 hx with rfl | hfresh
    · rcases hnode.blocks with ⟨pbloom, bloom, hblocks⟩
      rw [hblocks, AssocMap.get_put_self]
      exact ⟨_, rfl⟩
    · exact absurd hfresh (EpochBlockHashes.not_lists_new 0 x)
  · intro k e he
    rw [(hread k e he).2, (hread k e he).1]

/-- In every run whose blocks are new or are refused for their parent: each stored
    block but genesis is a child of its parent exactly once and stands exactly once
    under its slot, whatever is listed is stored, and a stored block that comes again
    leaves every record as it is. -/
theorem bookkeeping (hg : g.slotNumber = 0) (h₀ : genesisChain ext g preState = .ok c₀)
    (hrun : Run ext Unrepeated c₀ c) : Bookkeeping g c.db ∧ ∀ now b x added c', Unrepeated c b →
      c.db.blocks.get b.hash = some x → c.addBlock ext now b = .ok (added, c') →
      c'.db.blockMetaData = c.db.blockMetaData ∧
        c'.db.epochBlockHashes = c.db.epochBlockHashes := by
  have hall := hrun.invariant (fun c => c.db.Sound ∧ Bookkeeping g c.db)
    (fun hi hP hadd => Bookkeeping.addBlock hi hP hadd) (Bookkeeping.genesisChain hg h₀)
  refine ⟨hall.2, ?_⟩
  intro now b x added c' hu hx hadd
  rcases hu with ⟨hnew, -⟩ | hbelow
  · exact absurd hx (not_stored_of_new hall.1 hnew x)
  · rw [addBlock_of_belowFinalized hbelow hadd]
    exact ⟨rfl, rfl⟩

def unrepeated (c : Chain) (b : Block) : Bool :=
  (c.db.core b.hash).isNone && decide (b.slotNumber ≠ 0)

theorem unrepeated_of_test (c : Chain) (b : Block) (h : unrepeated c b = true) :
    Unrepeated c b := by
  unfold unrepeated at h
  rw [Bool.and_eq_true, decide_eq_true_eq] at h
  exact .inl ⟨Option.isNone_iff_eq_none.1 h.1, h.2⟩

theorem toyRun_unrepeated : ∃ c₀ c,
    genesisChain toyExternals toyGenesis toyPreState = .ok c₀ ∧
    Run toyExternals Unrepeated c₀ c ∧ c.db.blocks.size = 3 := by
  refine exists_run_of_check toyNow [toyFirst, toySecond] _ unrepeated_of_test ?_
  decide +kernel

theorem toyRun_bookkeeping : ∃ c₀ c,
    genesisChain toyExternals toyGenesis toyPreState = .ok c₀ ∧
    Run toyExternals Unrepeated c₀ c ∧ c.db.blocks.size = 3 ∧ Bookkeeping toyGenesis c.db := by
  rcases toyRun_unrepeated with ⟨c₀, c, h₀, hrun, hsize⟩
  exact ⟨c₀, c, h₀, hrun, hsize, (bookkeeping toyGenesis_slotNumber h₀ hrun).1⟩

/-- A block with a child comes again. Its parent now lists it twice, its slot lists it
    twice, and its own record has lost the child, which is still stored. -/
theorem bookkeeping_repeated : ∃ c₀ c,
    genesisChain toyExternals toyGenesis toyPreState = .ok c₀ ∧
    Run toyExternals (fun _ _ => True) c₀ c ∧
    c.db.children toyGenesis.hash = some [toyFirst.hash, toyFirst.hash] ∧
    ((c.db.epochBlockHashes.get (epochOf toyFirst.slotNumber)).bind
      (fun e => e.entry toyFirst.slotNumber)) =
        some (toyFirst.slotNumber, [toyFirst.hash, toyFirst.hash]) ∧
    c.db.children toyFirst.hash = some [] ∧
    (c.db.blocks.get toySecond.hash).map Block.parentHash = some toyFirst.hash := by
  refine exists_toyRun [toyFirst, toySecond, toyFirst] _ ?_
  decide +kernel

end Zond
