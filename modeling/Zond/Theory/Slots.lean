import Zond.Theory.Genesis

/-!
# Slots Along a Chain

Nothing in `AddBlock` compares the slot of a block with the slot of its parent: the
slot is checked against the clock and the parent's slot against the finalized
one. A proposer can therefore reuse a slot of the epoch it leads, or go back to
an earlier one.

## Main definitions

* `Ascending`: A block has a slot after its parent's.
* `SlotsIncrease`: Slots increase along every stored branch.

## Theorems

* `slots_increase`: They do in runs of ascending blocks, and epochs follow them.
-/

namespace Zond

variable {ext : Externals} {g : Block} {preState : List (List UInt8 × UInt64)} {c₀ c c' : Chain}

/-- The block has a slot after that of its stored parent. -/
def Ascending (c : Chain) (b : Block) : Prop :=
  Undisputed c b ∧ ∀ parent, c.db.blocks.get b.parentHash = some parent →
    parent.slotNumber < b.slotNumber

/-- Every stored block but genesis has a slot after that of its stored parent. -/
def SlotsIncrease (g : Block) (db : Store) : Prop :=
  ∀ k x, db.blocks.get k = some x → k ≠ g.hash →
    ∃ parent, db.blocks.get x.parentHash = some parent ∧ parent.slotNumber < x.slotNumber

theorem slotNumber_ne_zero {s t : UInt64} (h : s < t) : t ≠ 0 := by
  rintro rfl
  exact UInt64.not_lt_zero h

theorem SlotsIncrease.addBlock {now : UInt64} {b : Block} (hs : c.db.Sound)
    (hinc : SlotsIncrease g c.db) (hasc : Ascending c b)
    (h : c.addBlock ext now b = .ok (true, c')) : c'.db.Sound ∧ SlotsIncrease g c'.db := by
  rcases hasc with ⟨hu, hafter⟩
  rcases parent_of_addBlock h with ⟨parent, hparent⟩
  have hlt := hafter parent hparent
  have hslot := slotNumber_ne_zero hlt
  rcases added_of_addBlock hs hslot h with ⟨a, ha⟩
  refine ⟨ha.sound hs hu, ?_⟩
  intro k x hx hk
  -- The parent of a block, new or old, was stored before, and keeps its slot.
  have hold : ∃ p, c.db.blocks.get x.parentHash = some p ∧ p.slotNumber < x.slotNumber := by
    rcases ha.block_after hx with ⟨-, hxp, hxs, -⟩ | ⟨-, hx'⟩
    · rw [hxp, hxs]
      exact ⟨parent, hparent, hlt⟩
    · exact hinc k x hx' hk
  rcases hold with ⟨p, hp, hless⟩
  rcases ha.stored_after hs hu hp with ⟨p', hp', hsame⟩
  exact ⟨p', hp', hsame ▸ hless⟩

/-- In every run of ascending blocks from genesis, each stored block other than
    genesis has a slot strictly after its parent's; so its slot is not zero, and
    its epoch is not before its parent's. -/
theorem slots_increase (hg : g.slotNumber = 0) (h₀ : genesisChain ext g preState = .ok c₀)
    (hrun : Run ext Ascending c₀ c) :
    ∀ k x, c.db.blocks.get k = some x → k ≠ g.hash → x.slotNumber ≠ 0 ∧
      ∃ parent, c.db.blocks.get x.parentHash = some parent ∧
        parent.slotNumber < x.slotNumber ∧ parent.epoch ≤ x.epoch := by
  rcases genesisNode_of_ok hg h₀ with ⟨e, trie, total, hnode⟩
  have hstart : c₀.db.Sound ∧ SlotsIncrease g c₀.db :=
    ⟨hnode.sound hg, fun k x hx hk => absurd (hnode.block hx).1 hk⟩
  have hinv := hrun.invariant (fun c => c.db.Sound ∧ SlotsIncrease g c.db)
    (fun hi hP hadd => hi.2.addBlock hi.1 hP hadd) hstart
  intro k x hx hk
  rcases hinv.2 k x hx hk with ⟨parent, hparent, hlt⟩
  refine ⟨slotNumber_ne_zero hlt, parent, hparent, hlt, ?_⟩
  exact UInt64.le_iff_toNat_le.2 (epochOf_mono (Nat.le_of_lt (UInt64.lt_iff_toNat_lt.1 hlt)))

def ascendsFresh (c : Chain) (b : Block) : Bool :=
  (c.db.core b.hash).isNone &&
    (c.db.blocks.get b.parentHash).all (fun parent => parent.slotNumber < b.slotNumber)

theorem ascending_of_ascendsFresh (c : Chain) (b : Block) (h : ascendsFresh c b = true) :
    Ascending c b := by
  unfold ascendsFresh at h
  rw [Bool.and_eq_true] at h
  refine ⟨fun r hr => ?_, fun parent hparent => ?_⟩
  · rw [Option.isNone_iff_eq_none.1 h.1] at hr
    cases hr
  · have hall := h.2
    rw [hparent, Option.all_some] at hall
    exact of_decide_eq_true hall

theorem toyRun_ascending : ∃ c₀ c, genesisChain toyExternals toyGenesis toyPreState = .ok c₀ ∧
    Run toyExternals Ascending c₀ c ∧ (c.db.blocks.get toyFirst.hash).isSome = true := by
  refine exists_run_of_check toyNow [toyFirst, toySecond] _ ascending_of_ascendsFresh ?_
  decide +kernel

theorem toyRun_slots_increase :
    ∃ c₀ c x parent, genesisChain toyExternals toyGenesis toyPreState = .ok c₀ ∧
      Run toyExternals Ascending c₀ c ∧ c.db.blocks.get toyFirst.hash = some x ∧
      c.db.blocks.get x.parentHash = some parent ∧ parent.slotNumber < x.slotNumber := by
  rcases toyRun_ascending with ⟨c₀, c, h₀, hrun, hsome⟩
  rcases Option.isSome_iff_exists.1 hsome with ⟨x, hx⟩
  rcases slots_increase toyGenesis_slotNumber h₀ hrun _ x hx toyFirst_hash_ne with
    ⟨-, parent, hparent, hlt, -⟩
  exact ⟨c₀, c, x, parent, h₀, hrun, hx, hparent, hlt⟩

def toyRepeat : Block := toyBlock 1 100 toyFirst.hash [] 3

/-- `AddBlock` accepts a block in the slot of its parent: the leader of slot 100
    proposes there twice, the second time on top of the first. -/
theorem slot_reused : ∃ c₀ c, genesisChain toyExternals toyGenesis toyPreState = .ok c₀ ∧
    Run toyExternals (fun _ _ => True) c₀ c ∧ toyRepeat.hash ≠ toyGenesis.hash ∧
    ∃ x parent, c.db.blocks.get toyRepeat.hash = some x ∧
      c.db.blocks.get x.parentHash = some parent ∧ ¬parent.slotNumber < x.slotNumber := by
  have hrun := exists_toyRun [toyFirst, toyRepeat] (fun _ c =>
      toyRepeat.hash ≠ toyGenesis.hash ∧
      (c.db.blocks.get toyRepeat.hash).map (fun x => (x.parentHash, x.slotNumber))
        = some (toyFirst.hash, 100) ∧
      (c.db.blocks.get toyFirst.hash).map Block.slotNumber = some 100) (by decide +kernel)
  rcases hrun with ⟨c₀, c, h₀, hrun, hne, hx, hparent⟩
  rcases Option.map_eq_some_iff.1 hx with ⟨x, hx, hfields⟩
  rcases Option.map_eq_some_iff.1 hparent with ⟨parent, hparent, hslot⟩
  rw [Prod.mk.injEq] at hfields
  refine ⟨c₀, c, h₀, hrun, hne, x, parent, hx, hfields.1 ▸ hparent, ?_⟩
  rw [hfields.2, hslot]
  decide

end Zond
