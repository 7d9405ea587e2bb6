import Zond.Lib.Ancestry
import Zond.Theory.Step

/-!
# What a Block Writes

## Main definitions

* `RecordCore`: The part of a record that parent links are read along: only the list of children
  and the finalized child of a record ever change.
* `Finalization`: The stages of a finalization.

## Theorems

* `Committed.core`: One added block changes the core of its own record alone.
-/

namespace Zond

open Outcome

variable {db : Store} {h k last : Hash} {bm : BlockMetaData} {b : Block}

structure RecordCore where
  parentHeaderHash : Hash
  headerHash : Hash
  slotNumber : UInt64
  totalStakeAmount : Int
  trieRoot : Hash

def BlockMetaData.core (bm : BlockMetaData) : RecordCore :=
  { parentHeaderHash := bm.parentHeaderHash, headerHash := bm.headerHash
    slotNumber := bm.slotNumber, totalStakeAmount := bm.totalStakeAmount
    trieRoot := bm.trieRoot }

namespace Store

def core (db : Store) (h : Hash) : Option RecordCore :=
  (db.blockMetaData.get h).map BlockMetaData.core

def link (db : Store) (h : Hash) : Option Hash :=
  (db.core h).map RecordCore.parentHeaderHash

def Keyed (db : Store) : Prop :=
  ∀ h bm, db.blockMetaData.get h = some bm → bm.headerHash = h

theorem core_of_get (hget : db.blockMetaData.get h = some bm) : db.core h = some bm.core := by
  unfold core
  rw [hget, Option.map_some]

theorem core_putBlockMetaData (db : Store) (bm : BlockMetaData) (h : Hash) :
    (db.putBlockMetaData bm).core h = if bm.headerHash = h then some bm.core else db.core h := by
  unfold core putBlockMetaData
  rw [AssocMap.get_put]
  by_cases heq : bm.headerHash = h
  · rw [if_pos heq, if_pos heq, Option.map_some]
  · rw [if_neg heq, if_neg heq]

theorem Keyed.putBlockMetaData (hk : db.Keyed) (bm : BlockMetaData) :
    (db.putBlockMetaData bm).Keyed := by
  intro h bm' hget
  unfold Store.putBlockMetaData at hget
  rw [AssocMap.get_put] at hget
  by_cases heq : bm.headerHash = h
  · rw [if_pos heq, Option.some.injEq] at hget
    rw [← hget, heq]
  · rw [if_neg heq] at hget
    exact hk h bm' hget

theorem core_putBlockMetaData_of_core (hcore : db.core bm.headerHash = some bm.core) (h : Hash) :
    (db.putBlockMetaData bm).core h = db.core h := by
  rw [core_putBlockMetaData]
  by_cases heq : bm.headerHash = h
  · rw [if_pos heq, ← heq, hcore]
  · rw [if_neg heq]

end Store

def newRecord (ctx : StateContext) (pm : BlockMetaData) (trieRoot : Hash) : BlockMetaData :=
  BlockMetaData.new ctx.parentBlockHeaderHash ctx.blockHeaderHash ctx.slotNumber
    (pm.totalStakeAmount + ctx.currentBlockTotalStakeAmount) trieRoot

/-- What `Commit` writes for a block with a slot of its own: its record, the new
    child in the parent's, the block, the record of a new epoch, and the head if
    the block has more stake behind it. -/
structure Committed (ctx ctx' : StateContext) (b : Block) (trieRoot : Hash)
    (pm last : BlockMetaData) (db db' : Store) : Prop where
  parent : db.blockMetaData.get ctx.parentBlockHeaderHash = some pm
  head : db.blockMetaData.get ctx.mainChainMetaData.lastBlockHeaderHash = some last
  records : db'.blockMetaData = (db.blockMetaData.put ctx.blockHeaderHash
    (newRecord ctx pm trieRoot)).put pm.headerHash (pm.addChildHeaderHash ctx.blockHeaderHash)
  blocks : db'.blocks = db.blocks.put b.hash b
  epochs : db'.epochMetaData = if epochOf ctx.slotNumber ≠ pm.epoch
    then (db.putEpochMetaData ctx.epochMetaData).epochMetaData else db.epochMetaData
  choice : last.totalStakeAmount < (newRecord ctx pm trieRoot).totalStakeAmount ∧
      ctx' = ctx.markLast ∧ db'.mainChainMetaData = some ctx'.mainChainMetaData ∨
    (newRecord ctx pm trieRoot).totalStakeAmount ≤ last.totalStakeAmount ∧
      ctx' = ctx ∧ db'.mainChainMetaData = db.mainChainMetaData

theorem putBlockRecords_spec (ctx : StateContext) (b : Block) (bm pm : BlockMetaData)
    (hashes : EpochBlockHashes) (preceipts receipts : List Receipt) (db : Store) :
    let db' := putBlockRecords ctx b bm (some pm) hashes preceipts receipts db
    db'.blockMetaData = (db.blockMetaData.put bm.headerHash bm).put pm.headerHash pm ∧
      db'.blocks = db.blocks.put b.hash b ∧
      db'.epochMetaData = (if bm.epoch ≠ pm.epoch
        then (db.putEpochMetaData ctx.epochMetaData).epochMetaData else db.epochMetaData) ∧
      db'.mainChainMetaData = db.mainChainMetaData := by
  unfold putBlockRecords
  by_cases hepoch : bm.epoch ≠ pm.epoch
  · simp only [if_pos hepoch]
    exact ⟨rfl, rfl, rfl, rfl⟩
  · simp only [if_neg hepoch]
    exact ⟨rfl, rfl, rfl, rfl⟩

theorem commit_of_ok {ctx ctx' : StateContext} {preceipts receipts : List Receipt}
    {trieRoot : Hash} {db' : Store} (hslot : ctx.slotNumber ≠ 0)
    (h : commit ctx b preceipts receipts trieRoot false db = .ok (ctx', db')) :
    ∃ pm last, Committed ctx ctx' b trieRoot pm last db db' := by
  unfold commit at h
  rcases bind_eq_ok.1 h with ⟨⟨parent, parentTotal, lastTotal⟩, hbase, h⟩
  unfold commitBase at hbase
  rw [if_neg hslot] at hbase
  rcases bind_eq_ok.1 hbase with ⟨pm, hpm, hbase⟩
  rcases bind_eq_ok.1 hbase with ⟨last, hlast, hbase⟩
  simp only [pure_eq_ok, Prod.mk.injEq] at hbase
  rcases hbase with ⟨rfl, rfl, rfl⟩
  rcases bind_eq_ok.1 h with ⟨hashes, -, h⟩
  simp only [Bool.false_eq_true, if_false, hslot, false_or] at h
  have hwrites := putBlockRecords_spec ctx b (newRecord ctx pm trieRoot)
    (pm.addChildHeaderHash ctx.blockHeaderHash) hashes preceipts receipts db
  rcases hwrites with ⟨hrecords, hblocks, hepochs, hmain⟩
  refine ⟨pm, last, ?_⟩
  -- Becoming the head adds writes, none of them to the block tree.
  by_cases hmore : last.totalStakeAmount < pm.totalStakeAmount + ctx.currentBlockTotalStakeAmount
  · rw [if_pos hmore] at h
    simp only [pure_eq_ok, Prod.mk.injEq] at h
    rcases h with ⟨rfl, rfl⟩
    exact ⟨orFail_eq_ok.1 hpm, orFail_eq_ok.1 hlast, hrecords, hblocks, hepochs,
      .inl ⟨hmore, rfl, rfl⟩⟩
  · rw [if_neg hmore] at h
    simp only [pure_eq_ok, Prod.mk.injEq] at h
    rcases h with ⟨rfl, rfl⟩
    exact ⟨orFail_eq_ok.1 hpm, orFail_eq_ok.1 hlast, hrecords, hblocks, hepochs,
      .inr ⟨Int.not_lt.1 hmore, rfl, hmain⟩⟩

section Cores

variable {ctx ctx' : StateContext} {b : Block} {trieRoot : Hash} {pm last : BlockMetaData}
variable {db db' : Store}

/-- Committing changes the core of the block's own record, and that only if the
    block is not its own parent. -/
theorem Committed.core (h : Committed ctx ctx' b trieRoot pm last db db') (hkeyed : db.Keyed)
    (x : Hash) : db'.core x = if ctx.parentBlockHeaderHash = x then db.core x
      else if ctx.blockHeaderHash = x then some (newRecord ctx pm trieRoot).core
      else db.core x := by
  have hparent : pm.headerHash = ctx.parentBlockHeaderHash := hkeyed _ _ h.parent
  unfold Store.core
  rw [h.records, AssocMap.get_put, AssocMap.get_put, hparent]
  by_cases hx : ctx.parentBlockHeaderHash = x
  · rw [if_pos hx, if_pos hx, ← hx, h.parent]
    rfl
  · rw [if_neg hx, if_neg hx]
    by_cases hself : ctx.blockHeaderHash = x
    · rw [if_pos hself, if_pos hself]
      rfl
    · rw [if_neg hself, if_neg hself]

theorem Committed.keyed (h : Committed ctx ctx' b trieRoot pm last db db') (hkeyed : db.Keyed) :
    db'.Keyed := by
  have hput := (hkeyed.putBlockMetaData (newRecord ctx pm trieRoot)).putBlockMetaData
    (pm.addChildHeaderHash ctx.blockHeaderHash)
  intro x bm hget
  rw [h.records] at hget
  exact hput x bm hget

end Cores

open Ancestry

namespace Store

def epochAt (db : Store) (k : Hash) : Option UInt64 :=
  (db.core k).map (fun r => epochOf r.slotNumber)

def SameEpoch (db : Store) (x y : Hash) : Prop :=
  db.link x = some y ∧ ∃ e, db.epochAt x = some e ∧ db.epochAt y = some e

/-- The last block before the epoch of `k`, on the branch of `k`: the parent of the
    first block of that epoch. -/
def LastBefore (db : Store) (k last : Hash) : Prop :=
  ∃ first e e', Relation.ReflTransGen db.SameEpoch k first ∧ db.link first = some last ∧
    db.epochAt first = some e ∧ db.epochAt last = some e' ∧ e' ≠ e

variable {db db' : Store}

theorem epochAt_of_core {r : RecordCore} (h : db.core k = some r) :
    db.epochAt k = some (epochOf r.slotNumber) := by
  unfold epochAt
  rw [h, Option.map_some]

theorem epochAt_of_get (h : db.blockMetaData.get k = some bm) : db.epochAt k = some bm.epoch :=
  epochAt_of_core (core_of_get h)

theorem epochAt_of_sameEpoch {x y : Hash} (h : Relation.ReflTransGen db.SameEpoch x y) :
    db.epochAt y = db.epochAt x := by
  induction h with
  | refl => rfl
  | tail _ hstep ih =>
    rcases hstep with ⟨-, e, hx, hy⟩
    rw [hy, ← ih, hx]

theorem descends_of_sameEpoch {x y : Hash} (h : Relation.ReflTransGen db.SameEpoch x y) :
    Descends db.link x y :=
  Relation.ReflTransGen.mono (fun _ _ hstep => hstep.1) _ _ h

theorem LastBefore.descends (h : db.LastBefore k last) : Descends db.link k last := by
  rcases h with ⟨first, e, e', hwalk, hlink, -⟩
  exact (descends_of_sameEpoch hwalk).trans (Descends.parent hlink)

theorem LastBefore.unique {last' : Hash} (h : db.LastBefore k last)
    (h' : db.LastBefore k last') : last = last' := by
  rcases h with ⟨first, e, f, hwalk, hlink, he, hf, hne⟩
  rcases h' with ⟨first', e', f', hwalk', hlink', he', hf', hne'⟩
  -- Neither walk can go on past the other's end.
  have hstuck : ∀ {x y : Hash} {e f : UInt64}, db.link x = some y → db.epochAt x = some e →
      db.epochAt y = some f → f ≠ e → ∀ z, Relation.ReflTransGen db.SameEpoch x z → z = x := by
    intro x y e f hl hx hy hxy z hz
    rcases Relation.ReflTransGen.cases_head hz with heq | ⟨w, ⟨hlw, e₁, hx₁, hw₁⟩, -⟩
    · exact heq.symm
    · rw [hl, Option.some.injEq] at hlw
      subst hlw
      rw [hx, Option.some.injEq] at hx₁
      rw [hy, Option.some.injEq] at hw₁
      exact absurd (hw₁.trans hx₁.symm) hxy
  have hfirst : first = first' := by
    have hright : Relator.RightUnique db.SameEpoch :=
      fun _ _ _ hy hz => Option.some.inj (hy.1.symm.trans hz.1)
    rcases Relation.ReflTransGen.total_of_right_unique hright hwalk hwalk' with hab | hba
    · exact (hstuck hlink he hf hne _ hab).symm
    · exact hstuck hlink' he' hf' hne' _ hba
  subst hfirst
  exact Option.some.inj (hlink.symm.trans hlink')

theorem LastBefore.congr
    (hcore : ∀ x, Descends db.link k x → db'.core x = db.core x) (h : db.LastBefore k last) :
    db'.LastBefore k last := by
  have hlink : ∀ x y, Descends db.link k x → db.link x = some y → db'.link x = some y := by
    intro x y hx hxy
    unfold link at *
    rw [hcore x hx]
    exact hxy
  have hepoch : ∀ x e, Descends db.link k x → db.epochAt x = some e → db'.epochAt x = some e := by
    intro x e hx he
    unfold epochAt at *
    rw [hcore x hx]
    exact he
  rcases h with ⟨first, e, f, hwalk, hl, he, hf, hne⟩
  have hdesc := descends_of_sameEpoch hwalk
  refine ⟨first, e, f, ?_, hlink _ _ hdesc hl, hepoch _ _ hdesc he,
    hepoch _ _ (hdesc.trans (Descends.parent hl)) hf, hne⟩
  clear hl he hdesc
  induction hwalk with
  | refl => exact .refl
  | tail hrest hstep ih =>
    rcases hstep with ⟨hxy, d, hx, hy⟩
    have hdesc := descends_of_sameEpoch hrest
    exact ih.tail ⟨hlink _ _ hdesc hxy, d, hepoch _ _ hdesc hx,
      hepoch _ _ (hdesc.trans (Descends.parent hxy)) hy⟩

end Store

section Finalization

variable {db db' : Store} {ctx : StateContext}

def Recorded (db : Store) (bm : BlockMetaData) : Prop := db.core bm.headerHash = some bm.core

theorem recorded_of_get (hkeyed : db.Keyed)
    (hget : db.blockMetaData.get h = some bm) : Recorded db bm := by
  unfold Recorded
  rw [hkeyed h bm hget]
  exact Store.core_of_get hget

theorem Recorded.link (h : Recorded db bm) : db.link bm.headerHash = some bm.parentHeaderHash := by
  unfold Store.link
  rw [h]
  rfl

theorem epochAt_of_recorded (h : Recorded db bm) : db.epochAt bm.headerHash = some bm.epoch :=
  Store.epochAt_of_core h

theorem epochFirstBlock_spec (hkeyed : db.Keyed) {fuel : Nat} {first : BlockMetaData}
    (hbm : Recorded db bm) (h : epochFirstBlock db fuel bm = .ok first) :
    Recorded db first ∧ Relation.ReflTransGen db.SameEpoch bm.headerHash first.headerHash ∧
      db.LastBefore bm.headerHash first.parentHeaderHash := by
  induction fuel generalizing bm with
  | zero => cases h
  | succ fuel ih =>
    rw [epochFirstBlock] at h
    rcases bind_eq_ok.1 h with ⟨parent, hparent, h⟩
    have hget := orFail_eq_ok.1 hparent
    have hkey := hkeyed _ _ hget
    split at h
    · rename_i hne
      rw [pure_eq_ok] at h
      subst h
      exact ⟨hbm, .refl, bm.headerHash, bm.epoch, parent.epoch, .refl, hbm.link,
        epochAt_of_recorded hbm, Store.epochAt_of_get hget, fun heq => hne heq.symm⟩
    · rename_i hsame
      have hepoch : bm.epoch = parent.epoch := not_not.1 hsame
      rcases ih (recorded_of_get hkeyed hget) h with ⟨hfirst, hwalk, hlast⟩
      have hstep : db.SameEpoch bm.headerHash parent.headerHash := by
        refine ⟨?_, bm.epoch, epochAt_of_recorded hbm, ?_⟩
        · rw [hkey]
          exact hbm.link
        · rw [hepoch, hkey]
          exact Store.epochAt_of_get hget
      refine ⟨hfirst, .head hstep hwalk, ?_⟩
      rcases hlast with ⟨x, e, e', hx, hrest⟩
      exact ⟨x, e, e', .head hstep hx, hrest⟩

theorem finalizationPath_spec (hkeyed : db.Keyed) {finalized : Hash} {fuel : Nat}
    {path : List BlockMetaData} (hpath : finalizationPath db finalized fuel h = .ok path) :
    (∀ bm ∈ path, Recorded db bm) ∧ (∀ newest, path.head? = some newest →
      newest.headerHash = h ∧ h ≠ finalized) ∧ Descends db.link h finalized := by
  induction fuel generalizing h path with
  | zero => cases hpath
  | succ fuel ih =>
    rw [finalizationPath] at hpath
    rcases bind_eq_ok.1 hpath with ⟨bm, hbm, hpath⟩
    have hget := orFail_eq_ok.1 hbm
    have hkey := hkeyed _ _ hget
    split at hpath
    · rename_i hend
      rw [pure_eq_ok] at hpath
      rw [← hpath, ← hend, hkey]
      exact ⟨fun _ hmem => (nomatch hmem), fun _ hhead => (nomatch hhead), Descends.refl _ _⟩
    · rename_i hne
      rcases bind_eq_ok.1 hpath with ⟨rest, hrest, hpath⟩
      rw [pure_eq_ok] at hpath
      rcases ih hrest with ⟨hall, -, hdesc⟩
      have hrec := recorded_of_get hkeyed hget
      rw [← hpath]
      refine ⟨?_, ?_, ?_⟩
      · intro x hx
        rcases List.mem_cons.1 hx with rfl | hx
        · exact hrec
        · exact hall x hx
      · intro newest hnewest
        rw [List.head?_cons, Option.some.injEq] at hnewest
        rw [← hnewest]
        exact ⟨hkey, hkey ▸ hne⟩
      · have hlink := hrec.link
        rw [hkey] at hlink
        exact Descends.of_parent hlink hdesc

/-- What finalization leaves as it was. -/
structure SameTree (db db' : Store) : Prop where
  core : ∀ x, db'.core x = db.core x
  keyed : db'.Keyed
  blocks : db'.blocks = db.blocks
  epochs : db'.epochMetaData = db.epochMetaData
  size : db.blockMetaData.size ≤ db'.blockMetaData.size

theorem SameTree.refl (hkeyed : db.Keyed) : SameTree db db :=
  ⟨fun _ => rfl, hkeyed, rfl, rfl, Nat.le_refl _⟩

theorem SameTree.link (h : SameTree db db') (x : Hash) : db'.link x = db.link x := by
  unfold Store.link
  rw [h.core]

theorem linkFinalized_spec {st st' : Store × BlockMetaData}
    (hsame : SameTree db st.1) (hlast : Recorded db st.2) (hbm : Recorded db bm)
    (h : linkFinalized st bm = .ok st') : SameTree db st'.1 ∧ Recorded db st'.2 := by
  unfold linkFinalized at h
  rcases errorIf_bind_eq_ok.1 h with ⟨-, h⟩
  rw [pure_eq_ok] at h
  subst h
  refine ⟨⟨fun x => ?_, ?_, hsame.blocks, hsame.epochs, ?_⟩, hbm⟩
  · rw [← hsame.core x]
    refine Store.core_putBlockMetaData_of_core ?_ x
    exact (hsame.core st.2.headerHash).trans hlast
  · exact hsame.keyed.putBlockMetaData _
  · exact Nat.le_succ_of_le hsame.size

theorem finalize_spec (hkeyed : db.Keyed) {path : List BlockMetaData}
    (hpath : ∀ bm ∈ path, Recorded db bm) (h : finalize db ctx path = .ok db') :
    SameTree db db' ∧ ∃ newest, path.head? = some newest ∧ db'.mainChainMetaData =
      some (ctx.mainChainMetaData.updateFinalizedBlockData newest.headerHash
        newest.slotNumber) := by
  unfold finalize at h
  rcases bind_eq_ok.1 h with ⟨oldest, -, h⟩
  rcases bind_eq_ok.1 h with ⟨newest, hnewest, h⟩
  rcases bind_eq_ok.1 h with ⟨parent, hparent, h⟩
  rcases bind_eq_ok.1 h with ⟨⟨linked, final⟩, hfold, h⟩
  rw [pure_eq_ok] at h
  subst h
  have hstart := SameTree.refl hkeyed
  have hrec : Recorded db parent := recorded_of_get hkeyed (orFail_eq_ok.1 hparent)
  have hlinked := foldlM_invariant
    (fun st : Store × BlockMetaData => SameTree db st.1 ∧ Recorded db st.2) path.reverse
    (fun a bm b hmem ha hstep =>
      linkFinalized_spec ha.1 ha.2 (hpath bm (List.mem_reverse.1 hmem)) hstep)
    ⟨hstart, hrec⟩ hfold
  refine ⟨⟨hlinked.1.core, hlinked.1.keyed, hlinked.1.blocks, hlinked.1.epochs, hlinked.1.size⟩,
    newest, orFail_eq_ok.1 hnewest, rfl⟩

/-- The stages of a finalization of `final` by the block `b`: the closed epoch has the
    support, the last block before it is `last`, the record of the epoch that follows
    `last` says that its epoch has it too, and `final` is the last block before that. -/
structure Finalization (db : Store) (b : Block) (ctx : StateContext) (db' : Store)
    (last final : Hash) (e : EpochMetaData) : Prop where
  enough : ctx.epochMetaData.TwoThirds
  late : ¬tooEarly ctx.mainChainMetaData b.epoch
  later : db.epochAt b.parentHash ≠ some 0
  opened : db.LastBefore b.parentHash last
  record : ∃ slot, db.epochAt b.parentHash = some (epochOf slot) ∧
    db.getEpochMetaData slot last = .ok e
  enough' : e.TwoThirds
  before : db.LastBefore last final
  moves : final ≠ ctx.mainChainMetaData.finalizedBlockHeaderHash
  onward : Descends db.link final ctx.mainChainMetaData.finalizedBlockHeaderHash
  tree : SameTree db db'
  main : ∃ slot, db'.mainChainMetaData =
    some (ctx.mainChainMetaData.updateFinalizedBlockData final slot)

theorem updateFinalizedEpoch_of_ok (hkeyed : db.Keyed)
    (h : updateFinalizedEpoch db b ctx = .ok db') :
    db' = db ∨ ∃ last final e, Finalization db b ctx db' last final e := by
  unfold updateFinalizedEpoch at h
  split at h
  · cases h
    exact .inl rfl
  rename_i hready
  rw [not_or, not_not] at hready
  rcases bind_eq_ok.1 h with ⟨parent, hparent, h⟩
  split at h
  · exact .inl (pure_eq_ok.1 h).symm
  rename_i hlater
  rcases bind_eq_ok.1 h with ⟨first, hfirst, h⟩
  split at h
  · exact .inl (pure_eq_ok.1 h).symm
  rcases bind_eq_ok.1 h with ⟨e, he, h⟩
  split at h
  · exact .inl (pure_eq_ok.1 h).symm
  rename_i henough
  rcases bind_eq_ok.1 h with ⟨bm, hbm, h⟩
  rcases bind_eq_ok.1 h with ⟨start, hstart, h⟩
  rcases bind_eq_ok.1 h with ⟨path, hpath, h⟩
  -- The walk goes from the parent back over two epochs, link by link.
  have hgetParent := orFail_eq_ok.1 hparent
  have hgetBm := orFail_eq_ok.1 hbm
  rcases epochFirstBlock_spec hkeyed (recorded_of_get hkeyed hgetParent) hfirst with
    ⟨hrecFirst, hwalkFirst, hlastFirst⟩
  rcases epochFirstBlock_spec hkeyed (recorded_of_get hkeyed hgetBm) hstart with
    ⟨-, -, hlastStart⟩
  rcases finalizationPath_spec hkeyed hpath with ⟨hall, hnewest, hdescFinal⟩
  rcases finalize_spec hkeyed hall h with ⟨hsame, newest, hhead, hmain⟩
  rcases hnewest newest hhead with ⟨hkey, hne⟩
  rw [hkey] at hmain
  rw [hkeyed _ _ hgetParent] at hwalkFirst hlastFirst
  rw [hkeyed _ _ hgetBm] at hlastStart
  have hepoch : db.epochAt b.parentHash = some (epochOf first.slotNumber) := by
    rw [← Store.epochAt_of_sameEpoch hwalkFirst]
    exact epochAt_of_recorded hrecFirst
  refine .inr ⟨_, _, e, hready.1, hready.2, ?_, hlastFirst, ⟨_, hepoch, he⟩, not_not.1 henough,
    hlastStart, hne, hdescFinal, hsame, _, hmain⟩
  rw [Store.epochAt_of_get hgetParent]
  exact fun hzero => hlater (Option.some.inj hzero)

theorem updateFinalizedEpoch_spec (hkeyed : db.Keyed)
    (h : updateFinalizedEpoch db b ctx = .ok db') :
    db' = db ∨ SameTree db db' ∧ ∃ finalized slot, db'.mainChainMetaData =
        some (ctx.mainChainMetaData.updateFinalizedBlockData finalized slot) ∧
      Descends db.link b.parentHash finalized ∧
      Descends db.link finalized ctx.mainChainMetaData.finalizedBlockHeaderHash := by
  rcases updateFinalizedEpoch_of_ok hkeyed h with hsame | ⟨last, final, e, hf⟩
  · exact .inl hsame
  · rcases hf.main with ⟨slot, hmain⟩
    exact .inr ⟨hf.tree, final, slot, hmain, hf.opened.descends.trans hf.before.descends,
      hf.onward⟩

end Finalization

end Zond
