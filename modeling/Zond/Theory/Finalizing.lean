import Zond.Theory.Chronicle
import Zond.Theory.Finality

/-!
# How Finalization Walks

The first block of an epoch that becomes the head tries to finalize everything up to
the last block before the two most recent epochs that have blocks. The test whether it
is time counts epochs by number, the walks count epochs that have blocks. When the last
block before those two epochs is the finalized block itself the path is empty, and
reading its last element stops the node. The shortest such chain has no block but
genesis in its first epoch.

## Main definitions

* `Spared`: The block to finalize is not finalized yet.
* `Rooted`: The records go down to genesis and what it hangs on.

## Theorems

* `finalization_returns`: In every run the attempt of a spared block returns.
-/

namespace Zond

open Ancestry Outcome

variable {k : Hash} {r : RecordCore} {p : Processed} {fuel : Nat} {b : Block} {db : Store}

/-- What a run keeps of the records at the bottom: genesis hangs on a record for the
    hash it names as its parent, that one on nothing; and every other record hangs on
    that of a block in an earlier slot. -/
structure Rooted (g : Block) (db : Store) : Prop where
  keyed : db.Keyed
  origin : ∃ r, db.core g.parentHash = some r ∧ r.parentHeaderHash = zeroHash ∧ r.slotNumber = 0
  bottom : db.core zeroHash = none
  genesis : ∃ r, db.core g.hash = some r ∧ r.parentHeaderHash = g.parentHash ∧ r.slotNumber = 0
  links : ∀ k r, db.core k = some r → k ≠ g.parentHash → k ≠ g.hash →
    ∃ p, db.core r.parentHeaderHash = some p ∧ r.parentHeaderHash ≠ g.parentHash ∧
      p.slotNumber < r.slotNumber
  unstored : db.blocks.get g.parentHash = none

section Walks

variable {g : Block} {db : Store}

/-- Slots above genesis, with room for the two records at the bottom. -/
def Store.height (g : Block) (db : Store) (k : Hash) : Nat :=
  if k = g.parentHash then 0 else if k = g.hash then 1
  else ((db.core k).map (fun r => r.slotNumber.toNat + 2)).getD 0

theorem Rooted.height_lt (hr : Rooted g db) {p : RecordCore}
    (hk : db.core k = some r) (hp : db.core r.parentHeaderHash = some p) :
    db.height g r.parentHeaderHash < db.height g k := by
  unfold Store.height
  by_cases horigin : k = g.parentHash
  · -- Nothing is stored below the bottom.
    rcases hr.origin with ⟨r', hr', hzero, -⟩
    rw [horigin, hr', Option.some.injEq] at hk
    rw [← hk, hzero, hr.bottom] at hp
    cases hp
  rw [if_neg horigin]
  by_cases hgenesis : k = g.hash
  · rcases hr.genesis with ⟨r', hr', hparent, -⟩
    rw [hgenesis, hr', Option.some.injEq] at hk
    rw [if_pos hgenesis, if_pos (hk ▸ hparent)]
    exact Nat.zero_lt_one
  rw [if_neg hgenesis, hk, Option.map_some, Option.getD_some]
  rcases hr.links k r hk horigin hgenesis with ⟨p', hp', hne, hlt⟩
  rw [hp, Option.some.injEq] at hp'
  subst hp'
  rw [if_neg hne, hp, Option.map_some, Option.getD_some]
  have hless := UInt64.lt_iff_toNat_lt.1 hlt
  split <;> omega

theorem Rooted.exists_rank (hr : Rooted g db) :
    ∃ rank : Hash → Nat, (∀ k r, db.core k = some r → rank k + 1 < db.walkFuel) ∧
      ∀ k r p, db.core k = some r → db.core r.parentHeaderHash = some p →
        rank r.parentHeaderHash < rank k := by
  rcases Ancestry.exists_rank db.blockMetaData.keys (db.height g) with ⟨rank, hbound, hlt⟩
  refine ⟨rank, fun k r hk => ?_, fun k r p hk hp => ?_⟩
  · rcases Option.map_eq_some_iff.1 hk with ⟨bm, hget, -⟩
    have hless := hbound k (AssocMap.mem_keys hget)
    have hsize : db.blockMetaData.keys.length = db.blockMetaData.size := List.length_map _
    unfold Store.walkFuel
    omega
  · rcases Option.map_eq_some_iff.1 hp with ⟨bm, hget, -⟩
    exact hlt k _ (AssocMap.mem_keys hget) (hr.height_lt hk hp)

theorem failsOnly_getBlockMetaData (k : Hash) :
    Outcome.FailsOnly Failure.Returned (db.getBlockMetaData k) :=
  failsOnly_orFail ⟨_, rfl⟩ _

variable {rank : Hash → Nat}
  (hrank : ∀ k r p, db.core k = some r → db.core r.parentHeaderHash = some p →
    rank r.parentHeaderHash < rank k)
include hrank

theorem failsOnly_epochFirstBlock (hkeyed : db.Keyed) {bm : BlockMetaData}
    (hbm : Recorded db bm) (hfuel : rank bm.headerHash < fuel) :
    Outcome.FailsOnly Failure.Returned (epochFirstBlock db fuel bm) := by
  induction fuel generalizing bm with
  | zero => exact absurd hfuel (Nat.not_lt_zero _)
  | succ fuel ih =>
    rw [epochFirstBlock]
    refine (failsOnly_getBlockMetaData _).bind fun parent hparent => ?_
    split
    · exact failsOnly_pure bm
    · have hget := orFail_eq_ok.1 hparent
      have hless := hrank _ _ _ hbm (Store.core_of_get hget)
      refine ih (recorded_of_get hkeyed hget) ?_
      rw [hkeyed _ _ hget]
      exact Nat.lt_of_lt_of_le hless (Nat.le_of_lt_succ hfuel)

/-- What is left of the fuel is enough for the parent. -/
theorem parent_fuel {bm : BlockMetaData} (hbm : db.getBlockMetaData k = .ok bm)
    (hfuel : ∀ r, db.core k = some r → rank k + 1 < fuel + 1) :
    0 < fuel ∧ ∀ r, db.core bm.parentHeaderHash = some r → rank bm.parentHeaderHash + 1 < fuel := by
  have hcore := Store.core_of_get (orFail_eq_ok.1 hbm)
  have hleft := hfuel _ hcore
  refine ⟨by omega, fun r hr => ?_⟩
  have hless : rank bm.parentHeaderHash < rank k := hrank _ _ _ hcore hr
  omega

theorem failsOnly_finalizationPath {finalized : Hash}
    (hpos : 0 < fuel) (hfuel : ∀ r, db.core k = some r → rank k + 1 < fuel) :
    Outcome.FailsOnly Failure.Returned (finalizationPath db finalized fuel k) := by
  induction fuel generalizing k with
  | zero => exact absurd hpos (Nat.lt_irrefl 0)
  | succ fuel ih =>
    refine (failsOnly_getBlockMetaData _).bind fun bm hbm => ?_
    rcases parent_fuel hrank hbm hfuel with ⟨hpos, hleft⟩
    split
    · exact failsOnly_pure _
    · exact Outcome.FailsOnly.bind (ih hpos hleft) fun rest _ => failsOnly_pure _

theorem failsOnly_prevEpochLastHash {epoch : UInt64}
    (hpos : 0 < fuel) (hfuel : ∀ r, db.core k = some r → rank k + 1 < fuel) :
    Outcome.FailsOnly Failure.Returned (db.prevEpochLastHash epoch fuel k) := by
  induction fuel generalizing k with
  | zero => exact absurd hpos (Nat.lt_irrefl 0)
  | succ fuel ih =>
    refine (failsOnly_getBlockMetaData _).bind fun bm hbm => ?_
    rcases parent_fuel hrank hbm hfuel with ⟨hpos, hleft⟩
    split
    · exact failsOnly_pure _
    · split
      · exact ih hpos hleft
      · exact failsOnly_pure _

end Walks

section Attempt

variable {g : Block} {db : Store}

theorem Store.walkFuel_pos (db : Store) : 0 < db.walkFuel := Nat.succ_pos _

theorem Rooted.failsOnly_getEpochMetaData (hr : Rooted g db) (slot : UInt64) (k : Hash) :
    Outcome.FailsOnly Failure.Returned (db.getEpochMetaData slot k) := by
  have hlookup : ∀ epoch h, Outcome.FailsOnly Failure.Returned (db.lookupEpochMetaData epoch h) :=
    fun _ _ => failsOnly_orFail ⟨_, rfl⟩ _
  rcases hr.exists_rank with ⟨rank, hbound, hrank⟩
  unfold Store.getEpochMetaData
  split
  · exact hlookup _ _
  · refine Outcome.FailsOnly.bind ?_ fun last _ => hlookup _ _
    exact failsOnly_prevEpochLastHash hrank db.walkFuel_pos (hbound k)

theorem eq_of_finalizationPath_nil (hkeyed : db.Keyed) {finalized : Hash}
    (h : finalizationPath db finalized fuel k = .ok []) : k = finalized := by
  cases fuel with
  | zero => cases h
  | succ fuel =>
    rw [finalizationPath] at h
    rcases bind_eq_ok.1 h with ⟨bm, hbm, h⟩
    split at h
    · rename_i hend
      rw [← hend, hkeyed _ _ (orFail_eq_ok.1 hbm)]
    · rcases bind_eq_ok.1 h with ⟨rest, -, h⟩
      rw [pure_eq_ok] at h
      cases h

theorem failsOnly_finalize {ctx : StateContext} {path : List BlockMetaData} (hne : path ≠ []) :
    Outcome.FailsOnly Failure.Returned (finalize db ctx path) := by
  unfold finalize
  rw [List.getLast?_eq_some_getLast hne, List.head?_eq_some_head hne]
  simp only [Outcome.orFail, ok_bind]
  refine (failsOnly_getBlockMetaData _).bind fun parent _ => ?_
  refine Outcome.FailsOnly.bind ?_ fun linked _ => failsOnly_pure _
  refine Outcome.failsOnly_foldlM _ (fun st bm => ?_) _
  unfold linkFinalized
  refine Outcome.FailsOnly.bind ?_ fun _ _ => failsOnly_pure _
  exact failsOnly_failIf fun _ => ⟨_, rfl⟩

/-- Two thirds of the stake were found in both epochs that close with the block. -/
def WellAttested (db : Store) (b : Block) (ctx : StateContext) : Prop :=
  ctx.epochMetaData.TwoThirds ∧ ∃ parent first e, db.getBlockMetaData b.parentHash = .ok parent ∧
    epochFirstBlock db db.walkFuel parent = .ok first ∧
    db.getEpochMetaData first.slotNumber first.parentHeaderHash = .ok e ∧ e.TwoThirds

theorem Rooted.failsOnly_updateFinalizedEpoch (hr : Rooted g db) {ctx : StateContext}
    (hspared : WellAttested db b ctx → ∀ last, ¬tooEarly ctx.mainChainMetaData b.epoch →
      db.LastBefore b.parentHash last →
      ¬db.LastBefore last ctx.mainChainMetaData.finalizedBlockHeaderHash) :
    Outcome.FailsOnly Failure.Returned (updateFinalizedEpoch db b ctx) := by
  rcases hr.exists_rank with ⟨rank, hbound, hrank⟩
  have hwalk : ∀ {k bm}, db.getBlockMetaData k = .ok bm →
      Outcome.FailsOnly Failure.Returned (epochFirstBlock db db.walkFuel bm) := by
    intro k bm hbm
    have hrec := recorded_of_get hr.keyed (orFail_eq_ok.1 hbm)
    refine failsOnly_epochFirstBlock hrank hr.keyed hrec ?_
    exact Nat.lt_of_succ_lt (hbound _ _ hrec)
  unfold updateFinalizedEpoch
  split
  · exact failsOnly_ok _
  rename_i hready
  refine (failsOnly_getBlockMetaData _).bind fun parent hparent => ?_
  split
  · exact failsOnly_pure _
  refine (hwalk hparent).bind fun first hfirst => ?_
  split
  · exact failsOnly_pure _
  refine (hr.failsOnly_getEpochMetaData _ _).bind fun e he => ?_
  split
  · exact failsOnly_pure _
  rename_i htwo
  refine (failsOnly_getBlockMetaData _).bind fun bm hbm => ?_
  refine (hwalk hbm).bind fun start hstart => ?_
  refine (failsOnly_finalizationPath hrank db.walkFuel_pos (hbound _)).bind fun path hpath => ?_
  refine failsOnly_finalize ?_
  rintro rfl
  -- An empty path means that the walks have ended at the finalized block.
  have hgetParent := orFail_eq_ok.1 hparent
  have hgetBm := orFail_eq_ok.1 hbm
  have hlast := (epochFirstBlock_spec hr.keyed (recorded_of_get hr.keyed hgetParent) hfirst).2.2
  have hfinal := (epochFirstBlock_spec hr.keyed (recorded_of_get hr.keyed hgetBm) hstart).2.2
  rw [hr.keyed _ _ hgetParent] at hlast
  rw [hr.keyed _ _ hgetBm, eq_of_finalizationPath_nil hr.keyed hpath] at hfinal
  rw [not_or, not_not] at hready
  exact hspared ⟨hready.1, parent, first, e, hparent, hfirst, he, not_not.1 htwo⟩ _ hready.2 hlast
    hfinal

end Attempt

/-- A block under a new hash that is not zero, after its parent. -/
structure Offered (c : Chain) (b : Block) : Prop extends Fresh c b where
  hash_ne : b.hash ≠ zeroHash

section Step

variable {ext : Externals} {g : Block} {c c' : Chain} {b : Block} {a : Addition}

theorem Executed.parent_ne (hs : c.db.Sound) (hv : Ascending c b) (ha : Executed ext c b a) :
    b.parentHash ≠ b.hash := by
  intro heq
  rcases hs.recorded _ _ ha.parentBlock with ⟨r, hr, -, hslot⟩
  have hlt := hv.2 _ ha.parentBlock
  rw [← hslot, (hv.1 r (heq ▸ hr)).2] at hlt
  exact UInt64.lt_irrefl _ hlt

theorem Executed.core_ascending (hs : c.db.Sound) (hv : Ascending c b) (ha : Executed ext c b a)
    (x : Hash) : a.committed.core x = if b.hash = x then some (a.core b) else c.db.core x := by
  have hne := ha.parent_ne hs hv
  rw [ha.core]
  by_cases hx : b.parentHash = x
  · rw [if_pos hx, if_neg (fun heq => hne (hx.trans heq.symm))]
  · rw [if_neg hx]

theorem Executed.core_kept (hs : c.db.Sound) (hv : Ascending c b) (ha : Executed ext c b a)
    (hk : c.db.core k = some r) : ∃ r', a.committed.core k = some r' ∧
      r'.parentHeaderHash = r.parentHeaderHash ∧ r'.slotNumber = r.slotNumber := by
  rw [ha.core_ascending hs hv]
  by_cases heq : b.hash = k
  · rcases hv.1 r (heq ▸ hk) with ⟨hparent, hslot⟩
    rw [if_pos heq]
    exact ⟨_, rfl, hparent.symm, hslot.symm⟩
  · rw [if_neg heq]
    exact ⟨r, hk, rfl, rfl⟩

theorem Rooted.hash_ne (hr : Rooted g c.db) (hs : c.db.Sound) (hv : Ascending c b)
    (ha : Executed ext c b a) : b.hash ≠ g.parentHash ∧ b.hash ≠ g.hash := by
  have hstored := ha.parentBlock
  constructor
  · -- Its parent would be zero, which is no block.
    intro heq
    rcases hr.origin with ⟨r, hk, hparent, -⟩
    rw [← (hv.1 r (heq ▸ hk)).1, hparent] at hstored
    rcases hs.recorded _ _ hstored with ⟨r', hr', -⟩
    rw [hr.bottom] at hr'
    cases hr'
  · intro heq
    rcases hr.genesis with ⟨r, hk, hparent, -⟩
    rw [← (hv.1 r (heq ▸ hk)).1, hparent, hr.unstored] at hstored
    cases hstored

theorem Rooted.executed (hr : Rooted g c.db) (hs : c.db.Sound) (hv : Ascending c b)
    (hzero : b.hash ≠ zeroHash) (ha : Executed ext c b a) : Rooted g a.committed := by
  refine ⟨ha.keyed, ?_, ?_, ?_, ?_, ?_⟩
  · rcases hr.origin with ⟨r, hk, hparent, hslot⟩
    rcases ha.core_kept hs hv hk with ⟨r', hk', hparent', hslot'⟩
    exact ⟨r', hk', hparent'.trans hparent, hslot'.trans hslot⟩
  · rw [ha.core_ascending hs hv, if_neg hzero]
    exact hr.bottom
  · rcases hr.genesis with ⟨r, hk, hparent, hslot⟩
    rcases ha.core_kept hs hv hk with ⟨r', hk', hparent', hslot'⟩
    exact ⟨r', hk', hparent'.trans hparent, hslot'.trans hslot⟩
  · intro k r hk horigin hgenesis
    rw [ha.core_ascending hs hv] at hk
    by_cases heq : b.hash = k
    · rw [if_pos heq, Option.some.injEq] at hk
      subst hk
      rcases hs.recorded _ _ ha.parentBlock with ⟨p, hp, -, hpslot⟩
      rcases ha.core_kept hs hv hp with ⟨p', hp', -, hslot'⟩
      refine ⟨p', hp', ?_, ?_⟩
      · -- The parent is a stored block, unlike what genesis hangs on.
        intro hsame
        have hstored := ha.parentBlock
        rw [show b.parentHash = g.parentHash from hsame, hr.unstored] at hstored
        cases hstored
      · rw [hslot', hpslot]
        exact hv.2 _ ha.parentBlock
    · rw [if_neg heq] at hk
      rcases hr.links k r hk horigin hgenesis with ⟨p, hp, hne, hlt⟩
      rcases ha.core_kept hs hv hp with ⟨p', hp', -, hslot'⟩
      exact ⟨p', hp', hne, hslot' ▸ hlt⟩
  · rcases ha.blocks with ⟨pbloom, bloom, hblocks⟩
    rw [hblocks, AssocMap.get_put_ne _ _ (hr.hash_ne hs hv ha).1]
    exact hr.unstored

theorem Rooted.sameTree {db' : Store} (hr : Rooted g db) (h : SameTree db db') : Rooted g db' := by
  refine ⟨h.keyed, ?_, ?_, ?_, ?_, ?_⟩
  · simpa only [h.core] using hr.origin
  · rw [h.core]
    exact hr.bottom
  · simpa only [h.core] using hr.genesis
  · simpa only [h.core] using hr.links
  · rw [h.blocks]
    exact hr.unstored

theorem Rooted.addBlock {now : UInt64} (hr : Rooted g c.db) (hs : c.db.Sound) (hv : Ascending c b)
    (hzero : b.hash ≠ zeroHash) (h : c.addBlock ext now b = .ok (true, c')) : Rooted g c'.db := by
  rcases parent_of_addBlock h with ⟨parent, hparent⟩
  have hslot := slotNumber_ne_zero (hv.2 parent hparent)
  rcases added_of_addBlock hs hslot h with ⟨a, ha⟩
  exact (hr.executed hs hv hzero ha.toExecuted).sameTree ha.sameTree

/-- The hashes at the bottom: genesis, what it hangs on, and zero. -/
structure Grounded (g : Block) : Prop where
  slot : g.slotNumber = 0
  parent_ne : g.parentHash ≠ zeroHash
  hash_ne : g.hash ≠ zeroHash
  apart : g.hash ≠ g.parentHash

theorem Rooted.genesisChain {preState : List (List UInt8 × UInt64)} {c₀ : Chain}
    (hg : Grounded g) (h₀ : genesisChain ext g preState = .ok c₀) : Rooted g c₀.db := by
  rcases genesisNode_of_ok hg.slot h₀ with ⟨e, trie, total, hnode⟩
  refine ⟨(hnode.sound hg.slot).keyed, ?_, ?_, ?_, ?_, ?_⟩
  · rw [hnode.core, if_neg hg.apart, if_pos rfl]
    exact ⟨_, rfl, rfl, rfl⟩
  · rw [hnode.core, if_neg hg.hash_ne, if_neg hg.parent_ne]
  · rw [hnode.core, if_pos rfl]
    exact ⟨_, rfl, rfl, rfl⟩
  · intro k r hk horigin hgenesis
    rw [hnode.core, if_neg (Ne.symm hgenesis), if_neg (Ne.symm horigin)] at hk
    cases hk
  · cases hget : c₀.db.blocks.get g.parentHash with
    | none => rfl
    | some x => exact absurd (hnode.block hget).1.symm hg.apart

theorem rooted_of_run {preState : List (List UInt8 × UInt64)} {c₀ : Chain} (hg : Grounded g)
    (h₀ : Zond.genesisChain ext g preState = .ok c₀) (hrun : Run ext Offered c₀ c) :
    Recalled ext g c ∧ Rooted g c.db := by
  refine hrun.invariant (fun c => Recalled ext g c ∧ Rooted g c.db) ?_
    ⟨Recalled.genesisChain hg.slot h₀, Rooted.genesisChain hg h₀⟩
  intro c c' now b hinv hv hadd
  exact ⟨hinv.1.addBlock hv.toFresh hadd,
    hinv.2.addBlock hinv.1.sound hv.toFresh.ascending hv.hash_ne hadd⟩

theorem Rooted.recorded_or_zero (hr : Rooted g db) (hk : db.core k = some r) :
    (∃ p, db.core r.parentHeaderHash = some p) ∨ r.parentHeaderHash = zeroHash := by
  by_cases horigin : k = g.parentHash
  · rcases hr.origin with ⟨r', hr', hzero, -⟩
    rw [horigin, hr', Option.some.injEq] at hk
    exact .inr (hk ▸ hzero)
  by_cases hgenesis : k = g.hash
  · rcases hr.genesis with ⟨r', hr', hparent, -⟩
    rw [hgenesis, hr', Option.some.injEq] at hk
    rcases hr.origin with ⟨r₀, hr₀, -⟩
    rw [← hk, hparent]
    exact .inl ⟨r₀, hr₀⟩
  · rcases hr.links k r hk horigin hgenesis with ⟨p, hp, -⟩
    exact .inl ⟨p, hp⟩

theorem Rooted.core_below (hr : Rooted g c.db) (hv : Offered c b) (ha : Executed ext c b a)
    {x : Hash} (hk : ∃ r, c.db.core k = some r) (h : Descends a.committed.link k x) :
    c.db.core x = a.committed.core x := by
  have hsame : ∀ x, b.hash ≠ x → c.db.core x = a.committed.core x := by
    intro x hx
    rw [ha.core_fresh hv.toFresh, if_neg hx]
  have hrec : (∃ r, c.db.core x = some r) ∨ x = zeroHash := by
    induction h with
    | refl => exact .inl hk
    | @tail y z _ hstep ih =>
      unfold Store.link at hstep
      rcases ih with ⟨r, hy⟩ | rfl
      · have hne : b.hash ≠ y := by
          rintro rfl
          rw [hv.fresh] at hy
          cases hy
        rw [← hsame y hne, hy, Option.map_some, Option.some.injEq] at hstep
        rw [← hstep]
        exact hr.recorded_or_zero hy
      · rw [← hsame _ hv.hash_ne, hr.bottom] at hstep
        cases hstep
  rcases hrec with ⟨r, hx⟩ | rfl
  · refine hsame x ?_
    rintro rfl
    rw [hv.fresh] at hx
    cases hx
  · exact hsame _ hv.hash_ne

theorem Rooted.lastBefore_below (hr : Rooted g c.db) (hv : Offered c b) (ha : Executed ext c b a)
    {last : Hash} (hk : ∃ r, c.db.core k = some r) (h : a.committed.LastBefore k last) :
    c.db.LastBefore k last :=
  h.congr (fun _ hdesc => hr.core_below hv ha hk hdesc)

/-- If it is time to finalize, the last block before the two epochs that close with
    the block is not finalized yet. -/
def Spared (c : Chain) (b : Block) : Prop :=
  ∀ m last, c.db.mainChainMetaData = some m → ¬tooEarly m b.epoch →
    c.db.LastBefore b.parentHash last → ¬c.db.LastBefore last m.finalizedBlockHeaderHash

theorem tooEarly_head (ha : Executed ext c b a) (e : UInt64) :
    (tooEarly a.head e ↔ tooEarly a.main e) ∧
      a.head.finalizedBlockHeaderHash = a.main.finalizedBlockHeaderHash ∧
      a.head.finalizedBlockSlotNumber = a.main.finalizedBlockSlotNumber := by
  rcases ha.choice with ⟨-, hhead⟩ | ⟨-, hhead⟩
  · rw [hhead]
    exact ⟨Iff.rfl, rfl, rfl⟩
  · rw [hhead]
    exact ⟨Iff.rfl, rfl, rfl⟩

end Step

section Returns

variable {ext : Externals} {g : Block} {preState : List (List UInt8 × UInt64)} {c₀ c : Chain}

theorem Chain.finishBlock_returns (c : Chain) (parent : Block)
    (h : Outcome.FailsOnly Failure.Returned (updateFinalizedEpoch p.db p.block p.ctx)) :
    ∃ c', finishBlock c parent p = .ok c' := by
  unfold finishBlock
  split
  · exact ⟨_, rfl⟩
  · dsimp only
    split
    · split
      · exact ⟨_, rfl⟩
      · exact ⟨_, rfl⟩
      · rename_i f hnot hf
        rcases h f hf with ⟨e, rfl⟩
        exact absurd rfl (hnot e)
    · exact ⟨_, rfl⟩

theorem failsOnly_of_spared (hi : Recalled ext g c) (hr : Rooted g c.db) {parent : Block}
    (hv : Offered c b) (hspared : WellAttested p.db p.block p.ctx → Spared c b)
    (hparent : c.db.blocks.get b.parentHash = some parent)
    (hprocess : c.processBlock ext b parent = .ok p) :
    Outcome.FailsOnly Failure.Returned (updateFinalizedEpoch p.db p.block p.ctx) := by
  have hafter := hv.after parent hparent
  rcases executed_of_processBlock hi.sound.keyed hparent (slotNumber_ne_zero hafter) hprocess with
    ⟨a, ha, hdb, hhead, -, hphash, -, hslot, -⟩
  rcases tooEarly_head ha b.epoch with ⟨hearly, hfinal, -⟩
  have hepoch : p.block.epoch = b.epoch := congrArg epochOf hslot
  rw [hdb] at hspared ⊢
  refine (hr.executed hi.sound hv.toFresh.ascending hv.hash_ne ha).failsOnly_updateFinalizedEpoch
    fun hstake last hlate hlast => ?_
  rw [hhead, hepoch, hearly] at hlate
  rw [hphash] at hlast
  rw [hhead, hfinal]
  intro htarget
  -- The walks run in the store before the block.
  have hknown : ∃ r, c.db.core b.parentHash = some r := ⟨_, Store.core_of_get ha.parent⟩
  have hlast' := hr.lastBefore_below hv ha hknown hlast
  rcases hlast' with ⟨first, e, e', hwalk, hlink, he, he', hne⟩
  rcases Option.map_eq_some_iff.1 he' with ⟨r, hr', -⟩
  exact hspared hstake _ last ha.main hlate ⟨first, e, e', hwalk, hlink, he, he', hne⟩
    (hr.lastBefore_below hv ha ⟨r, hr'⟩ htarget)

theorem Chain.addBlock_of_stages {now : UInt64} {parent : Block} {c' : Chain}
    (hcheck : c.checkBlock ext now b = .ok (some parent))
    (hprocess : c.processBlock ext b parent = .ok p)
    (hfinish : finishBlock c parent p = .ok c') : c.addBlock ext now b = .ok (true, c') := by
  unfold addBlock
  rw [hcheck, rejectOnError, ok_bind]
  dsimp only
  rw [hprocess, rejectOnError, ok_bind]
  dsimp only
  rw [hfinish]
  rfl

/-- In every run of offered blocks, the attempt to finalize that the first block of
    an epoch makes returns, if the block it would finalize, with the stake of both epochs
    found, is not finalized yet. The finalized epoch is not after the block's, and
    `AddBlock` returns too. -/
theorem finalization_returns (hg : Grounded g) (h₀ : genesisChain ext g preState = .ok c₀)
    (hrun : Run ext Offered c₀ c) {now : UInt64} {b parent : Block} {p : Processed}
    (hv : Offered c b) (hspared : WellAttested p.db p.block p.ctx → Spared c b)
    (hcheck : c.checkBlock ext now b = .ok (some parent))
    (hprocess : c.processBlock ext b parent = .ok p) :
    epochOf p.ctx.mainChainMetaData.finalizedBlockSlotNumber ≤ p.block.epoch ∧
      Outcome.FailsOnly Failure.Returned (updateFinalizedEpoch p.db p.block p.ctx) ∧
      ∃ c', c.addBlock ext now b = .ok (true, c') := by
  rcases rooted_of_run hg h₀ hrun with ⟨hi, hr⟩
  rcases Chain.checkBlock_of_some hcheck with ⟨-, -, m, hm, hparent, hfinalized⟩
  have hreturns := failsOnly_of_spared hi hr hv hspared hparent hprocess
  refine ⟨?_, hreturns, ?_⟩
  · have hafter := hv.after parent hparent
    rcases executed_of_processBlock hi.sound.keyed hparent (slotNumber_ne_zero hafter) hprocess with
      ⟨a, ha, -, hhead, -, -, -, hslot, -⟩
    have hmain : m = a.main := Option.some.inj (hm.symm.trans ha.main)
    have hepoch : p.block.epoch = b.epoch := congrArg epochOf hslot
    rw [hhead, (tooEarly_head ha b.epoch).2.2, hepoch, ← hmain]
    refine UInt64.le_iff_toNat_le.2 (epochOf_mono ?_)
    have hbefore := UInt64.le_iff_toNat_le.1 hfinalized
    have hless := UInt64.lt_iff_toNat_lt.1 hafter
    omega
  · rcases Chain.finishBlock_returns c parent hreturns with ⟨c', hfinish⟩
    exact ⟨c', Chain.addBlock_of_stages hcheck hprocess hfinish⟩

end Returns

def offered (c : Chain) (b : Block) : Bool :=
  ascendsFresh c b && decide (b.hash ≠ zeroHash)

theorem offered_of_test (c : Chain) (b : Block) (h : offered c b = true) : Offered c b := by
  unfold offered at h
  rw [Bool.and_eq_true] at h
  exact ⟨fresh_of_ascendsFresh c b h.1, of_decide_eq_true h.2⟩

/-- The last block before two epochs, as an attempt to finalize walks to it. -/
def Store.lastBeforeTwo (db : Store) (k : Hash) : Go Hash := do
  let bm ← db.getBlockMetaData k
  let first ← epochFirstBlock db db.walkFuel bm
  let bm ← db.getBlockMetaData first.parentHeaderHash
  let start ← epochFirstBlock db db.walkFuel bm
  pure start.parentHeaderHash

theorem lastBefore_of_lastBeforeTwo (hkeyed : db.Keyed) {final : Hash}
    (h : db.lastBeforeTwo k = .ok final) :
    ∃ last, db.LastBefore k last ∧ db.LastBefore last final := by
  unfold Store.lastBeforeTwo at h
  rcases bind_eq_ok.1 h with ⟨bm, hbm, h⟩
  rcases bind_eq_ok.1 h with ⟨first, hfirst, h⟩
  rcases bind_eq_ok.1 h with ⟨bm', hbm', h⟩
  rcases bind_eq_ok.1 h with ⟨start, hstart, h⟩
  rw [pure_eq_ok] at h
  subst h
  have hget := orFail_eq_ok.1 hbm
  have hget' := orFail_eq_ok.1 hbm'
  have hlast := (epochFirstBlock_spec hkeyed (recorded_of_get hkeyed hget) hfirst).2.2
  have hfinal := (epochFirstBlock_spec hkeyed (recorded_of_get hkeyed hget') hstart).2.2
  rw [hkeyed _ _ hget] at hlast
  rw [hkeyed _ _ hget'] at hfinal
  exact ⟨_, hlast, hfinal⟩

theorem spared_of_lastBeforeTwo {c : Chain} {m : MainChainMetaData} {final : Hash}
    (hkeyed : c.db.Keyed) (hm : c.db.mainChainMetaData = some m)
    (h : c.db.lastBeforeTwo b.parentHash = .ok final)
    (hne : final ≠ m.finalizedBlockHeaderHash) : Spared c b := by
  intro m' last hm' _ hlast hfinal
  rcases lastBefore_of_lastBeforeTwo hkeyed h with ⟨last', hlast', hfinal'⟩
  rw [hm, Option.some.injEq] at hm'
  subst hm'
  have hsame := hlast.unique hlast'
  subst hsame
  exact hne (hfinal'.unique hfinal)

theorem toyGenesis_grounded : Grounded toyGenesis :=
  ⟨by decide +kernel, by decide +kernel, by decide +kernel, by decide +kernel⟩

def toyFinalizer : Block := (toyFinalizing.getLast?).getD toyGenesis

theorem toyRun_offered : ∃ c₀ c, genesisChain toyExternals toyGenesis toyPreState = .ok c₀ ∧
    Run toyExternals Offered c₀ c ∧ offered c toyFinalizer = true ∧
    c.db.mainChainMetaData.map MainChainMetaData.finalizedBlockHeaderHash
      = some toyGenesis.hash ∧
    c.db.lastBeforeTwo toyFinalizer.parentHash = .ok (firstHash toyFinalizing) ∧
    firstHash toyFinalizing ≠ toyGenesis.hash ∧
    (c.addBlock toyExternals toyNow toyFinalizer).map Prod.fst = .ok true := by
  refine exists_run_of_check toyNow toyFinalizing.dropLast _ offered_of_test ?_
  decide +kernel

theorem toyRun_finalization_returns : ∃ c₀ c parent p,
    genesisChain toyExternals toyGenesis toyPreState = .ok c₀ ∧ Run toyExternals Offered c₀ c ∧
    c.checkBlock toyExternals toyNow toyFinalizer = .ok (some parent) ∧
    c.processBlock toyExternals toyFinalizer parent = .ok p ∧
    Outcome.FailsOnly Failure.Returned (updateFinalizedEpoch p.db p.block p.ctx) := by
  rcases toyRun_offered with ⟨c₀, c, h₀, hrun, hoffered, hm, hwalk, hne, hadd⟩
  rcases Option.map_eq_some_iff.1 hm with ⟨m, hm, hfinal⟩
  rcases map_eq_ok.1 hadd with ⟨⟨added, c'⟩, hadd, hadded⟩
  rcases Chain.addBlock_cases hadd with ⟨hfalse, -⟩ | ⟨-, parent, p, hcheck, hprocess, -⟩
  · exact absurd (hadded.symm.trans hfalse) Bool.false_ne_true.symm
  · have hkeyed := (rooted_of_run toyGenesis_grounded h₀ hrun).2.keyed
    have hspared := spared_of_lastBeforeTwo hkeyed hm hwalk (hfinal ▸ hne)
    exact ⟨c₀, c, parent, p, h₀, hrun, hcheck, hprocess,
      (finalization_returns toyGenesis_grounded h₀ hrun (offered_of_test _ _ hoffered)
        (fun _ => hspared) hcheck hprocess).2.1⟩

def toySkipping : List Block :=
  toyBranch toyGenesis.hash [(1, 100, 2), (2, 101, 1), (1, 200, 3), (2, 201, 2)]

def toyStopper : Block := toyBlock 1 300 (lastHash toySkipping) [] 4

/-- On that branch the last block before the two closed epochs is genesis. The block
    that opens the fourth epoch stops the node. -/
theorem finalization_crashes : ∃ c₀ c,
    genesisChain toyExternals toyGenesis toyPreState = .ok c₀ ∧
    Run toyExternals Offered c₀ c ∧ Offered c toyStopper ∧
    c.addBlock toyExternals toyNow toyStopper = .error (.panic .indexOutOfRange) := by
  have hrun : ∃ c₀ c, genesisChain toyExternals toyGenesis toyPreState = .ok c₀ ∧
      Run toyExternals Offered c₀ c ∧ offered c toyStopper = true ∧
      (c.addBlock toyExternals toyNow toyStopper).map Prod.fst
        = .error (.panic .indexOutOfRange) := by
    refine exists_run_of_check toyNow toySkipping _ offered_of_test ?_
    decide +kernel
  rcases hrun with ⟨c₀, c, h₀, hrun, hoffered, hstop⟩
  refine ⟨c₀, c, h₀, hrun, offered_of_test _ _ hoffered, ?_⟩
  cases hadd : c.addBlock toyExternals toyNow toyStopper with
  | error f =>
    rw [hadd] at hstop
    exact congrArg _ (Except.error.inj hstop)
  | ok next =>
    rw [hadd] at hstop
    cases hstop

end Zond
