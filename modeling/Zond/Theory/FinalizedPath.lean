import Zond.Core.Peer
import Zond.Lib.Pointers
import Zond.Theory.Branch
import Zond.Theory.Finalizing
import Zond.Theory.Head

/-!
# The Finalized Path

`Finalize` leaves in the record of each block it passes the hash of the child it came from.
Ordinary commits rewrite the same records: that of the parent, with one more child, and that of
the block, from nothing. Neither touches a block on the path. The parent of a block that is
accepted does not lie below the finalized block, so a block that comes again is not on the path
either, unless it is its end.

## Main definitions

* `Pointed`: The pointers lead from genesis to the finalized block.

## Theorems

* `finalized_pointers`: They do in every run, and a peer that asks for a hash is told that it is
  finalized exactly if it is on this path.
-/

namespace Zond

open Ancestry Outcome

def Store.finalChild (db : Store) (k : Hash) : Option Hash :=
  (db.blockMetaData.get k).bind BlockMetaData.finalizedChildHeaderHash

def Rises (c : Chain) (b : Block) : Prop :=
  ∀ parent, c.db.blocks.get b.parentHash = some parent → parent.slotNumber < b.slotNumber

/-- No block of a set hashes to zero, or to the hash genesis hangs on. -/
def HashesApart (c : Crypto) (g : Block) (B : Set Block) : Prop :=
  ∀ b ∈ B, ∀ h, b.computeBlockHash c = .ok h → h ≠ zeroHash ∧ h ≠ g.parentHash

/-- What a run keeps: the blocks and records that go back to genesis, the finalized block, and
    the pointers that lead to it. -/
structure Pointed (ext : Externals) (g : Block) (B : Set Block) (c : Chain) : Prop where
  known : Known ext.toCrypto B c.db
  sound : c.db.Sound
  slots : SlotsIncrease g c.db
  rooted : Rooted g c.db
  stored : ∀ k r, c.db.core k = some r → k ≠ g.parentHash → ∃ x, c.db.blocks.get k = some x
  marked : ∃ m x, c.db.mainChainMetaData = some m ∧
    c.db.blocks.get m.finalizedBlockHeaderHash = some x ∧
    x.slotNumber = m.finalizedBlockSlotNumber ∧
    Points (c.db.parent g) c.db.finalChild m.finalizedBlockHeaderHash

section Stores

variable {g : Block} {db db' : Store} {ctx : StateContext}

theorem Store.finalChild_putBlockMetaData (db : Store) (bm : BlockMetaData) (k : Hash) :
    (db.putBlockMetaData bm).finalChild k =
      if bm.headerHash = k then bm.finalizedChildHeaderHash else db.finalChild k := by
  unfold finalChild putBlockMetaData
  rw [AssocMap.get_put]
  by_cases hk : bm.headerHash = k
  · rw [if_pos hk, if_pos hk]
    rfl
  · rw [if_neg hk, if_neg hk]

theorem SlotsIncrease.parent_stored (h : SlotsIncrease g db) (y z : Hash)
    (hlink : db.parent g y = some z) : ∃ x, db.blocks.get z = some x := by
  rcases Store.parent_eq_some hlink with ⟨hne, x, hx, rfl⟩
  rcases h y x hx hne with ⟨p, hp, -⟩
  exact ⟨p, hp⟩

theorem finalizationPath_blocks (hkeyed : db.Keyed) {finalized : Hash} {fuel : Nat} {h : Hash}
    {path : List BlockMetaData} (hpath : finalizationPath db finalized fuel h = .ok path) :
    (path = [] → h = finalized) ∧
    (∀ oldest, path.getLast? = some oldest → oldest.parentHeaderHash = finalized) ∧
    ∀ bm ∈ path, Recorded db bm ∧ bm.headerHash ≠ finalized ∧
      Descends db.link bm.headerHash finalized := by
  induction fuel generalizing h path with
  | zero => cases hpath
  | succ fuel ih =>
    have hdesc := (finalizationPath_spec hkeyed hpath).2.2
    rw [finalizationPath] at hpath
    rcases bind_eq_ok.1 hpath with ⟨bm, hbm, hpath⟩
    have hget := orFail_eq_ok.1 hbm
    have hkey := hkeyed _ _ hget
    by_cases hend : bm.headerHash = finalized
    · rw [if_pos hend, pure_eq_ok] at hpath
      rw [← hpath]
      exact ⟨fun _ => hkey.symm.trans hend, fun _ hnone => (by cases hnone),
        fun _ hmem => absurd hmem List.not_mem_nil⟩
    · rw [if_neg hend] at hpath
      rcases bind_eq_ok.1 hpath with ⟨rest, hrest, hpath⟩
      rw [pure_eq_ok] at hpath
      subst hpath
      rcases ih hrest with ⟨hnil, holdest, hall⟩
      refine ⟨fun hcons => absurd hcons (List.cons_ne_nil _ _), ?_, ?_⟩
      · intro oldest hlast
        cases rest with
        | nil =>
          rw [List.getLast?_singleton, Option.some.injEq] at hlast
          rw [← hlast]
          exact hnil rfl
        | cons y ys =>
          rw [List.getLast?_cons_cons] at hlast
          exact holdest oldest hlast
      · intro x hx
        rcases List.mem_cons.1 hx with rfl | hx
        · exact ⟨recorded_of_get hkeyed hget, hend, hkey ▸ hdesc⟩
        · exact hall x hx

theorem Rooted.not_descends (hr : Rooted g db) (hs : db.Sound) {f : Hash} {x : Block}
    (hf : db.blocks.get f = some x) : ¬Descends db.link g.parentHash f := by
  intro hdesc
  rcases Relation.ReflTransGen.cases_head hdesc with heq | ⟨p, hp, hrest⟩
  · rw [← heq, hr.unstored] at hf
    cases hf
  · rcases hr.origin with ⟨r, hk, hparent, -⟩
    have hzero : p = zeroHash := by
      unfold Store.link at hp
      rw [hk, Option.map_some, hparent, Option.some.injEq] at hp
      exact hp.symm
    rw [hzero] at hrest
    have hbottom : db.link zeroHash = none := by
      unfold Store.link
      rw [hr.bottom]
      rfl
    rcases Relation.ReflTransGen.cases_head hrest with heq | ⟨q, hq, -⟩
    · rcases hs.recorded f x hf with ⟨r', hr', -⟩
      rw [← heq, hr.bottom] at hr'
      cases hr'
    · rw [hbottom] at hq
      cases hq

theorem parent_of_descends (hr : Rooted g db) (hs : db.Sound)
    (hstored : ∀ k r, db.core k = some r → k ≠ g.parentHash → ∃ x, db.blocks.get k = some x)
    {f : Hash} {x : Block} (hf : db.blocks.get f = some x) {bm : BlockMetaData}
    (hbm : Recorded db bm) (hne : bm.headerHash ≠ f) (hdesc : Descends db.link bm.headerHash f) :
    db.parent g bm.headerHash = some bm.parentHeaderHash := by
  have horigin : bm.headerHash ≠ g.parentHash := by
    intro heq
    exact hr.not_descends hs hf (heq ▸ hdesc)
  have hgenesis : bm.headerHash ≠ g.hash := by
    intro heq
    rcases Relation.ReflTransGen.cases_head hdesc with hsame | ⟨p, hp, hrest⟩
    · exact hne hsame
    · rcases hr.genesis with ⟨r, hk, hparent, -⟩
      rw [heq] at hp
      unfold Store.link at hp
      rw [hk, Option.map_some, hparent, Option.some.injEq] at hp
      exact hr.not_descends hs hf (hp ▸ hrest)
  rcases hstored _ _ hbm horigin with ⟨y, hy⟩
  rcases hs.recorded _ y hy with ⟨r, hcore, hparent, -⟩
  rw [hbm, Option.some.injEq] at hcore
  subst hcore
  unfold Store.parent
  rw [if_neg hgenesis, hy, Option.map_some]
  exact congrArg some hparent.symm

theorem points_of_finalize (hr : Rooted g db) (hs : db.Sound) (hslots : SlotsIncrease g db)
    (hstored : ∀ k r, db.core k = some r → k ≠ g.parentHash → ∃ x, db.blocks.get k = some x)
    {f k : Hash} {x : Block} (hf : db.blocks.get f = some x)
    (hpoints : Points (db.parent g) db.finalChild f) {path : List BlockMetaData}
    (hpath : finalizationPath db f db.walkFuel k = .ok path) (h : finalize db ctx path = .ok db') :
    ∃ (newest : BlockMetaData) (y : Block), db'.mainChainMetaData = some
        (ctx.mainChainMetaData.updateFinalizedBlockData newest.headerHash newest.slotNumber) ∧
      db'.blocks = db.blocks ∧
      db.blocks.get newest.headerHash = some y ∧ y.slotNumber = newest.slotNumber ∧
      Points (db.parent g) db'.finalChild newest.headerHash := by
  rcases finalizationPath_blocks hs.keyed hpath with ⟨-, holdest, hall⟩
  have hparents : ∀ bm ∈ path, db.parent g bm.headerHash = some bm.parentHeaderHash := by
    intro bm hbm
    rcases hall bm hbm with ⟨hrec, hne, hdesc⟩
    exact parent_of_descends hr hs hstored hf hrec hne hdesc
  unfold finalize at h
  rcases bind_eq_ok.1 h with ⟨oldest, hlast, h⟩
  rcases bind_eq_ok.1 h with ⟨newest, hnewest, h⟩
  rcases bind_eq_ok.1 h with ⟨parent, hparent, h⟩
  rcases bind_eq_ok.1 h with ⟨⟨linked, final⟩, hfold, h⟩
  rw [pure_eq_ok] at h
  subst h
  have hstart : parent.headerHash = f := by
    rw [hs.keyed _ _ (orFail_eq_ok.1 hparent)]
    exact holdest oldest (orFail_eq_ok.1 hlast)
  -- The line grows by one block with each pass; what is linked so far is its end.
  have hgrown := foldlM_prefix
    (fun (done : List BlockMetaData) (st : Store × BlockMetaData) =>
      (∀ bm ∈ done, bm ∈ path) → st.1.blocks = db.blocks ∧
        st.2 = (done.getLast?).getD parent ∧
        Points (db.parent g) st.1.finalChild st.2.headerHash) path.reverse ?_ ?_ hfold
  · rcases hgrown (fun bm hbm => List.mem_reverse.1 hbm) with ⟨hblocks, hend, hmarked⟩
    have hhead := orFail_eq_ok.1 hnewest
    rw [List.getLast?_reverse, hhead, Option.getD_some] at hend
    subst hend
    have hmem : final ∈ path := List.mem_of_mem_head? hhead
    have hlink := hparents final hmem
    rcases Store.parent_eq_some hlink with ⟨-, y, hy, -⟩
    rcases hs.recorded _ y hy with ⟨r, hcore, -, hslot⟩
    rw [(hall final hmem).1, Option.some.injEq] at hcore
    subst hcore
    exact ⟨final, y, rfl, hblocks, hy, hslot.symm, hmarked⟩
  · intro done st bm st' hdone hstep hmem
    rcases hdone (fun x hx => hmem x (List.mem_append_left _ hx)) with ⟨hblocks, -, hmarked⟩
    unfold linkFinalized at hstep
    rcases errorIf_bind_eq_ok.1 hstep with ⟨hcheck, hstep⟩
    rw [pure_eq_ok] at hstep
    subst hstep
    refine ⟨hblocks, by rw [List.getLast?_concat]; rfl, ?_⟩
    refine hmarked.extend hslots.slotOf_lt ?_ (fun k => ?_)
    · rw [Decidable.not_not.1 hcheck]
      exact hparents bm (hmem bm (List.mem_append_right _ List.mem_cons_self))
    · exact Store.finalChild_putBlockMetaData _ _ _
  · intro _
    refine ⟨rfl, rfl, ?_⟩
    show Points (db.parent g) db.finalChild parent.headerHash
    rw [hstart]
    exact hpoints

end Stores

section Step

variable {ext : Externals} {g : Block} {B : Set Block} {c c' : Chain} {b parentBlock : Block}
variable {p : Processed} {now : UInt64}

theorem records_of_processBlock (hkeyed : c.db.Keyed) (hslot : b.slotNumber ≠ 0)
    (h : Chain.processBlock ext c b parentBlock = .ok p) : ∃ parent own,
      c.db.blockMetaData.get b.parentHash = some parent ∧ own.finalizedChildHeaderHash = none ∧
      p.db.blockMetaData = (c.db.blockMetaData.put b.hash own).put b.parentHash
        (parent.addChildHeaderHash b.hash) := by
  rcases Chain.processBlock_of_ok h with
    ⟨pm, s, s₁, e, validators, partialHash, signingHash, ctx, -, -, -, hnew, hprocess⟩
  rcases StateContext.new_of_ok hnew with ⟨hcs, hcp, hch, -, -, -, -⟩
  rcases process_of_ok hprocess with ⟨env, st₀, st, -, -, hst₀, -, hloops, hseal⟩
  subst hst₀
  have hframe := (counted_of_ok (hcs ▸ hslot) hloops).frame
  have hfs : st.ctx.slotNumber = b.slotNumber := by rw [hframe, ← hcs]
  have hfp : st.ctx.parentBlockHeaderHash = b.parentHash := by rw [hframe, ← hcp]
  have hfh : st.ctx.blockHeaderHash = b.hash := by rw [hframe, ← hch]
  rcases sealBlock_of_ok hseal with ⟨-, -, -, -, -, hcommit⟩
  rcases commit_of_ok (hfs ▸ hslot) hcommit with ⟨parent, last, hwrites⟩
  have hparent := hwrites.parent
  have hrecords := hwrites.records
  rw [hfp] at hparent
  rw [hkeyed _ _ hparent, hfh] at hrecords
  exact ⟨parent, newRecord st.ctx parent p.trieRoot, hparent, rfl, hrecords⟩

theorem Pointed.ascending (hi : Pointed ext g B c) (hfree : CollisionFreeOn ext.toCrypto B)
    (hapart : HashesApart ext.toCrypto g B) (hb : b ∈ B) (hrises : Rises c b)
    (hcheck : Chain.checkBlock ext c now b = .ok (some parentBlock)) : Ascending c b := by
  rcases Chain.checkBlock_of_some hcheck with ⟨hcomputed, hmax, -⟩
  have hlt : b.slotNumber.toNat < 2 ^ 63 :=
    Nat.lt_of_le_of_lt (UInt64.le_iff_toNat_le.1 hmax) (getMaxPossibleSlotNumber_lt now)
  refine ⟨fun r hr => ?_, hrises⟩
  rcases hi.stored _ r hr (hapart b hb _ hcomputed).2 with ⟨x, hx⟩
  rcases hi.known.slot_eq hfree hb hcomputed hlt hx with ⟨hparent, hslot⟩
  rcases hi.sound.recorded _ x hx with ⟨r', hr', hparent', hslot'⟩
  rw [hr, Option.some.injEq] at hr'
  subst hr'
  exact ⟨hparent'.trans hparent, hslot'.trans hslot⟩

theorem finalChild_of_processBlock (hi : Pointed ext g B c) (hv : Ascending c b)
    (hcheck : Chain.checkBlock ext c now b = .ok (some parentBlock))
    (h : Chain.processBlock ext c b parentBlock = .ok p) (k : Hash) :
    p.db.finalChild k = c.db.finalChild k := by
  rcases Chain.checkBlock_of_some hcheck with ⟨-, -, m, hm, hparent, hfinal⟩
  have hlt := hv.2 _ hparent
  rcases records_of_processBlock hi.sound.keyed (slotNumber_ne_zero hlt) h with
    ⟨pm, own, hpm, hown, hrecords⟩
  unfold Store.finalChild
  rw [hrecords, AssocMap.get_put]
  by_cases hk : b.parentHash = k
  · rw [if_pos hk, ← hk, hpm]
    rfl
  rw [if_neg hk, AssocMap.get_put]
  by_cases hself : b.hash = k
  · rw [if_pos hself, ← hself]
    show own.finalizedChildHeaderHash = c.db.finalChild b.hash
    rw [hown]
    cases hnext : c.db.finalChild b.hash with
    | none => rfl
    | some y =>
      -- The block would lie below the finalized one, and its parent with it.
      exfalso
      rcases hi.marked with ⟨m', x, hm', hx, hxslot, hpoints⟩
      rw [hm, Option.some.injEq] at hm'
      subst hm'
      rcases (hpoints _ y).1 hnext with ⟨hdesc, hlink⟩
      rcases hi.slots.parent_stored y _ hlink with ⟨z, hz⟩
      have hzslot : z.slotNumber = b.slotNumber := by
        rcases hi.sound.recorded _ z hz with ⟨r, hr, -, hslot⟩
        rw [← hslot]
        exact (hv.1 r hr).2
      have hlow := hi.slots.slotOf_lt y _ hlink
      have hhigh : c.db.slotOf y ≤ c.db.slotOf m.finalizedBlockHeaderHash := by
        rcases Descends.eq_or_lt hi.slots.slotOf_lt hdesc with heq | hless
        · rw [heq]
        · exact Nat.le_of_lt hless
      rw [Store.slotOf_of_get hz, hzslot] at hlow
      rw [Store.slotOf_of_get hx, hxslot] at hhigh
      have hbound := UInt64.le_iff_toNat_le.1 hfinal
      have hless := UInt64.lt_iff_toNat_lt.1 hlt
      omega
  · rw [if_neg hself]

theorem points_of_commit (hi : Pointed ext g B c) (hv : Ascending c b) {a : Addition}
    (ha : Executed ext c b a) (hnext : ∀ k, a.committed.finalChild k = c.db.finalChild k)
    {f : Hash} {x : Block} (hf : c.db.blocks.get f = some x)
    (hpoints : Points (c.db.parent g) c.db.finalChild f) :
    Points (a.committed.parent g) a.committed.finalChild f := by
  have hclosed : ∀ y z, (∃ x, c.db.blocks.get y = some x) → c.db.parent g y = some z →
      ∃ x, c.db.blocks.get z = some x := fun y z _ hlink => hi.slots.parent_stored y z hlink
  refine hpoints.congr hclosed ?_ ⟨x, hf⟩ hnext
  rintro y ⟨z, hz⟩
  rcases ha.blocks with ⟨pbloom, bloom, hblocks⟩
  unfold Store.parent
  rw [hblocks, AssocMap.get_put]
  by_cases hy : b.hash = y
  · -- The block has come again, with the parent it had.
    rcases hi.sound.recorded y z hz with ⟨r, hr, hparent, -⟩
    rw [if_pos hy, hz, Option.map_some, Option.map_some, ← hparent, (hv.1 r (hy ▸ hr)).1]
    rfl
  · rw [if_neg hy]

theorem Pointed.addBlock (hi : Pointed ext g B c) (hfree : CollisionFreeOn ext.toCrypto B)
    (hapart : HashesApart ext.toCrypto g B) (hb : b ∈ B) (hrises : Rises c b)
    (h : c.addBlock ext now b = .ok (true, c')) : Pointed ext g B c' := by
  rcases Chain.addBlock_cases h with ⟨hfalse, -⟩ | ⟨-, parentBlock, p, hcheck, hprocess, hfinish⟩
  · cases hfalse
  have hv := hi.ascending hfree hapart hb hrises hcheck
  rcases Chain.checkBlock_of_some hcheck with ⟨hcomputed, hmax, -, -, hparent, -⟩
  have hlt : b.slotNumber.toNat < 2 ^ 63 :=
    Nat.lt_of_le_of_lt (UInt64.le_iff_toNat_le.1 hmax) (getMaxPossibleSlotNumber_lt now)
  have hslot := slotNumber_ne_zero (hv.2 _ hparent)
  have hzero := (hapart b hb _ hcomputed).1
  rcases added_of_finishBlock hi.sound hslot hparent hprocess hfinish with
    ⟨a, ha, hdb, hctx, -, -, -⟩
  rcases hi.slots.addBlock hi.sound hv h with ⟨hsound, hslots⟩
  rcases ha.blocks with ⟨pbloom, bloom, hblocks⟩
  have hstored : ∀ k r, a.committed.core k = some r → k ≠ g.parentHash →
      ∃ x, a.committed.blocks.get k = some x := by
    intro k r hr hk
    refine ha.stored ?_
    rw [ha.core_ascending hi.sound hv] at hr
    by_cases heq : b.hash = k
    · exact .inl heq.symm
    · rw [if_neg heq] at hr
      exact .inr (hi.stored k r hr hk)
  refine ⟨hi.known.put hb hcomputed hlt (ha.sameTree.blocks.trans hblocks) rfl rfl, hsound, hslots,
    hi.rooted.addBlock hi.sound hv hzero h, ?_, ?_⟩
  · intro k r hr hk
    rw [ha.sameTree.core] at hr
    rw [ha.sameTree.blocks]
    exact hstored k r hr hk
  · rcases hi.marked with ⟨m, x, hm, hx, hxslot, hpoints⟩
    have hsame : m = a.main := Option.some.inj (hm.symm.trans ha.main)
    subst hsame
    have hfinal : a.head.finalizedBlockHeaderHash = a.main.finalizedBlockHeaderHash ∧
        a.head.finalizedBlockSlotNumber = a.main.finalizedBlockSlotNumber := by
      rcases ha.choice with ⟨-, hmoved⟩ | ⟨-, hkept⟩
      · rw [hmoved]
        exact ⟨rfl, rfl⟩
      · rw [hkept]
        exact ⟨rfl, rfl⟩
    have hcommitted := points_of_commit hi hv ha.toExecuted
      (fun k => hdb ▸ finalChild_of_processBlock hi hv hcheck hprocess k) hx hpoints
    -- The finalized block is still stored, and in its slot.
    have hkept : ∃ y, a.committed.blocks.get a.main.finalizedBlockHeaderHash = some y ∧
        y.slotNumber = a.main.finalizedBlockSlotNumber := by
      rcases ha.stored_after hi.sound hv.1 hx with ⟨y, hy, hyslot⟩
      rw [ha.sameTree.blocks] at hy
      exact ⟨y, hy, hyslot.trans hxslot⟩
    rcases hkept with ⟨y, hy, hyslot⟩
    have hpmain : p.db.mainChainMetaData = some a.head := hdb ▸ ha.head
    rcases Chain.finishBlock_cases hpmain hfinish with ⟨-, -, hsame | ⟨-, -, hmove⟩⟩
    · rw [hsame, hdb]
      exact ⟨a.head, y, ha.head, hfinal.1 ▸ hy, hfinal.2 ▸ hyslot, hfinal.1 ▸ hcommitted⟩
    · rcases finalize_of_updateFinalizedEpoch hmove with hsame | ⟨k, path, hpath, hfinalize⟩
      · rw [hsame, hdb]
        exact ⟨a.head, y, ha.head, hfinal.1 ▸ hy, hfinal.2 ▸ hyslot, hfinal.1 ▸ hcommitted⟩
      · rw [hdb, hctx, hfinal.1] at hpath
        rw [hdb] at hfinalize
        have hcslots : SlotsIncrease g a.committed := by
          intro k x hx hk
          rw [← ha.sameTree.blocks] at hx ⊢
          exact hslots k x hx hk
        have hcsound : a.committed.Sound := by
          refine ⟨ha.keyed, ha.named hi.sound.named, ?_, a.head, ha.head, ha.headed hi.sound⟩
          intro k x hx
          rw [← ha.sameTree.blocks] at hx
          rcases hsound.recorded k x hx with ⟨r, hr, hfields⟩
          rw [ha.sameTree.core] at hr
          exact ⟨r, hr, hfields⟩
        rcases points_of_finalize (hi.rooted.executed hi.sound hv hzero ha.toExecuted) hcsound
          hcslots hstored hy hcommitted hpath hfinalize with
          ⟨newest, z, hmain, hsameBlocks, hz, hzslot, hmarked⟩
        refine ⟨_, z, hmain, ?_, hzslot, ?_⟩
        · rw [hsameBlocks]
          exact hz
        · have hlinks : c'.db.parent g = a.committed.parent g := by
            unfold Store.parent
            rw [hsameBlocks]
          rw [hlinks]
          exact hmarked

theorem Pointed.genesisChain {preState : List (List UInt8 × UInt64)} {c₀ : Chain}
    (hg : Grounded g) (hgB : g ∈ B) (hhash : g.computeBlockHash ext.toCrypto = .ok g.hash)
    (h₀ : genesisChain ext g preState = .ok c₀) : Pointed ext g B c₀ := by
  rcases genesisNode_of_ok hg.slot h₀ with ⟨e, trie, total, hnode⟩
  have hsound := hnode.sound hg.slot
  have hslots : SlotsIncrease g c₀.db := fun k x hx hk => absurd (hnode.block hx).1 hk
  refine ⟨(HeadInHand.genesisChain hg.slot hgB hhash h₀).known, hsound, hslots,
    Rooted.genesisChain hg h₀, ?_, ?_⟩
  · intro k r hr hk
    rw [hnode.core, if_neg (Ne.symm hk)] at hr
    by_cases heq : g.hash = k
    · rcases hsound.headed with ⟨m, hm, x, hx⟩
      rw [hnode.main, Option.some.injEq] at hm
      subst hm
      exact ⟨x, heq ▸ hx⟩
    · rw [if_neg heq] at hr
      cases hr
  · rcases hsound.headed with ⟨m, hm, x, hx⟩
    rw [hnode.main, Option.some.injEq] at hm
    subst hm
    refine ⟨_, x, hnode.main, hx, (hnode.block hx).2.2.2.1.trans hg.slot, ?_⟩
    have hnone : ∀ k, c₀.db.finalChild k = none := by
      intro k
      unfold Store.finalChild
      rw [hnode.records, AssocMap.get_put, AssocMap.get_put]
      by_cases hk : g.hash = k
      · rw [if_pos hk]
        rfl
      · rw [if_neg hk]
        by_cases hk' : g.parentHash = k
        · rw [if_pos hk']
          rfl
        · rw [if_neg hk']
          rfl
    have hroot : c₀.db.parent g g.hash = none := if_pos rfl
    intro k y
    rw [hnone]
    constructor
    · intro hno
      cases hno
    · -- Nothing but genesis is on the line, and genesis hangs on nothing.
      rintro ⟨hdesc, hlink⟩
      rcases Relation.ReflTransGen.cases_head hdesc with heq | ⟨q, hq, -⟩
      · rw [← heq, hroot] at hlink
        cases hlink
      · rw [hroot] at hq
        cases hq

end Step

section Answer

variable {ext : Externals} {g : Block} {B : Set Block} {c : Chain} {k : Hash} {bs : List Block}

theorem Store.Branch.lineage {db : Store} (hnamed : ∀ h x, db.blocks.get h = some x → x.hash = h)
    (h : db.Branch g.hash k bs) : Lineage (db.parent g) g.hash k (bs.map Block.hash) := by
  induction h with
  | root hb =>
    rw [List.map_singleton, hnamed _ _ hb]
    exact .root
  | @grow k b bs hk hb _ ih =>
    rw [List.map_append, List.map_singleton, hnamed _ _ hb]
    refine .grow ?_ ih
    unfold Store.parent
    rw [if_neg hk, hb]
    rfl

/-- The bytes of a request name a block on a path: they are its hash, or they start with the
    hash of genesis, which is not compared again. -/
def Names (g : Block) (path : List Hash) (bytes : List UInt8) : Prop :=
  Bytes.alignLeft 32 bytes ∈ path ∧
    (bytes = (Bytes.alignLeft 32 bytes).toList ∨ Bytes.alignLeft 32 bytes = g.hash)

theorem isHeaderHashFinalized_iff (hi : Pointed ext g B c) {m : MainChainMetaData}
    (hm : c.db.mainChainMetaData = some m)
    (hbranch : c.db.Branch g.hash m.finalizedBlockHeaderHash bs) (req : EpochBlockHashesRequest) :
    ∃ answer, Peer.isHeaderHashFinalized c req = some answer ∧
      (answer = true ↔ Names g (bs.map Block.hash) req.finalizedHeaderHash) := by
  have hroot : c.db.parent g g.hash = none := if_pos rfl
  have hmem := (hbranch.lineage hi.sound.named).mem_iff hroot
  rcases hi.marked with ⟨m', x, hm', hx, -, hpoints⟩
  rw [hm, Option.some.injEq] at hm'
  subst hm'
  unfold Peer.isHeaderHashFinalized Names
  generalize hkey : Bytes.alignLeft 32 req.finalizedHeaderHash = key
  rw [hmem]
  cases hget : c.db.blocks.get key with
  | none =>
    -- What is on the path is stored.
    refine ⟨false, rfl, iff_of_false Bool.false_ne_true ?_⟩
    rintro ⟨hdesc, -⟩
    rcases Relation.ReflTransGen.cases_tail hdesc with heq | ⟨y, hy, hlink⟩
    · rw [heq, hx] at hget
      cases hget
    · rcases hi.slots.parent_stored y key hlink with ⟨z, hz⟩
      rw [hz] at hget
      cases hget
  | some b =>
    dsimp only
    by_cases hgenesis : key = g.hash
    · -- Genesis is on every path.
      have hzero : b.slotNumber = 0 := by
        rcases hi.rooted.genesis with ⟨r, hr, -, hslot⟩
        rcases hi.sound.recorded key b hget with ⟨r', hr', -, hslot'⟩
        rw [hgenesis, hr, Option.some.injEq] at hr'
        rw [← hslot', ← hr', hslot]
      rw [if_neg (by rw [hzero]; exact UInt64.lt_irrefl 0)]
      refine ⟨true, rfl, iff_of_true rfl ⟨?_, .inr hgenesis⟩⟩
      rw [hgenesis, ← hmem]
      rcases (hbranch.lineage hi.sound.named).exists_cons with ⟨rest, hcons⟩
      rw [hcons]
      exact List.mem_cons_self
    · rcases hi.slots key b hget hgenesis with ⟨pb, hpb, hlt⟩
      rcases hi.sound.recorded _ pb hpb with ⟨r, hr, -⟩
      rcases Option.map_eq_some_iff.1 hr with ⟨pm, hpm, -⟩
      have hlink : c.db.parent g key = some b.parentHash := by
        unfold Store.parent
        rw [if_neg hgenesis, hget]
        rfl
      have hpointer : pm.finalizedChildHeaderHash = c.db.finalChild b.parentHash := by
        unfold Store.finalChild
        rw [hpm]
        rfl
      rw [if_pos (UInt64.pos_iff_ne_zero.2 (slotNumber_ne_zero hlt)), hpm, Option.map_some,
        hpointer]
      refine ⟨_, rfl, decide_eq_true_iff.trans ?_⟩
      constructor
      · intro heq
        cases hnext : c.db.finalChild b.parentHash with
        | none =>
          -- No pointer is no bytes, which name zero, and zero is not stored.
          rw [hnext] at heq
          have hempty : req.finalizedHeaderHash = [] := heq.symm
          rcases hi.sound.recorded key b hget with ⟨r', hr', -⟩
          have hz : key = zeroHash := by
            rw [← hkey, hempty]
            rfl
          rw [hz, hi.rooted.bottom] at hr'
          cases hr'
        | some y =>
          rw [hnext] at heq
          have hbytes : y.toList = req.finalizedHeaderHash := heq
          have hy : key = y := by
            rw [← hkey, ← hbytes]
            exact Bytes.alignLeft_of_length y.2
          rw [hy, hbytes]
          exact ⟨((hpoints _ y).1 hnext).1, .inl rfl⟩
      · rintro ⟨hdesc, hbytes | hsame⟩
        · rw [(hpoints _ key).2 ⟨hdesc, hlink⟩]
          exact hbytes.symm
        · exact absurd hsame hgenesis

variable {preState : List (List UInt8 × UInt64)} {c₀ : Chain}

/-- In every run of blocks after their parents, without hash collisions: following the pointers
    from genesis visits the blocks on the path from genesis to the finalized block, in order; no
    record points off the path; and a peer that asks for a hash is told that it is finalized
    exactly if the hash names a block on the path. -/
theorem finalized_pointers (hg : Grounded g) (hgB : g ∈ B)
    (hhash : g.computeBlockHash ext.toCrypto = .ok g.hash)
    (hfree : CollisionFreeOn ext.toCrypto B) (hapart : HashesApart ext.toCrypto g B)
    (h₀ : genesisChain ext g preState = .ok c₀)
    (hrun : Run ext (fun c b => b ∈ B ∧ Rises c b) c₀ c) : ∃ m bs, c.db.mainChainMetaData = some m ∧
      c.db.Branch g.hash m.finalizedBlockHeaderHash bs ∧
      (∀ n, bs.length ≤ n → follow c.db.finalChild n g.hash = bs.map Block.hash) ∧
      (∀ k x, c.db.finalChild k = some x → k ∈ bs.map Block.hash ∧ x ∈ bs.map Block.hash) ∧
      ∀ req, ∃ answer, Peer.isHeaderHashFinalized c req = some answer ∧
        (answer = true ↔ Names g (bs.map Block.hash) req.finalizedHeaderHash) := by
  have hi := hrun.invariant (Pointed ext g B)
    (fun hi hb hadd => hi.addBlock hfree hapart hb.1 hb.2 hadd)
    (Pointed.genesisChain hg hgB hhash h₀)
  rcases hi.marked with ⟨m, x, hm, hx, -, hpoints⟩
  rcases hi.slots.exists_branch hx with ⟨bs, hbranch⟩
  have hline := hbranch.lineage hi.sound.named
  have hroot : c.db.parent g g.hash = none := if_pos rfl
  refine ⟨m, bs ++ [x], hm, hbranch, fun n hn => ?_, fun k y hnext => ?_,
    isHeaderHashFinalized_iff hi hm hbranch⟩
  · refine hpoints.follow_eq hi.slots.slotOf_lt hline ?_
    rw [List.length_map]
    exact hn
  · rcases (hpoints k y).1 hnext with ⟨hdesc, hlink⟩
    rw [hline.mem_iff hroot, hline.mem_iff hroot]
    exact ⟨hdesc.tail hlink, hdesc⟩

end Answer

def toyPathBlocks : List Block := toyGenesis :: toyFinalizing

theorem toyPathBlocks_collisionFree : CollisionFreeOn toyCrypto {b | b ∈ toyPathBlocks} :=
  collisionFreeOn_of_check (by decide +kernel)

theorem toyPathBlocks_apart : HashesApart toyCrypto toyGenesis {b | b ∈ toyPathBlocks} := by
  have hcheck : toyPathBlocks.all (fun b => (b.computeBlockHash toyCrypto).toOption.all
      (fun h => decide (h ≠ zeroHash ∧ h ≠ toyGenesis.parentHash))) = true := by decide +kernel
  intro b hb h hh
  have hone := List.all_eq_true.1 hcheck b hb
  rw [hh] at hone
  exact of_decide_eq_true hone

def toyRises (c : Chain) (b : Block) : Bool :=
  decide (b ∈ toyPathBlocks) &&
    (c.db.blocks.get b.parentHash).all (fun parent => decide (parent.slotNumber < b.slotNumber))

theorem rises_of_toyRises (c : Chain) (b : Block) (h : toyRises c b = true) :
    b ∈ {b | b ∈ toyPathBlocks} ∧ Rises c b := by
  unfold toyRises at h
  rw [Bool.and_eq_true, decide_eq_true_eq] at h
  refine ⟨h.1, fun parent hparent => ?_⟩
  have hless := h.2
  rw [hparent, Option.all_some, decide_eq_true_eq] at hless
  exact hless

theorem toyRun_rises : ∃ c₀ c, genesisChain toyExternals toyGenesis toyPreState = .ok c₀ ∧
    Run toyExternals (fun c b => b ∈ {b | b ∈ toyPathBlocks} ∧ Rises c b) c₀ c ∧
    c.db.finalChild toyGenesis.hash = some (firstHash toyFinalizing) := by
  refine exists_run_of_check toyNow (toyFinalizing ++ toyFinalizing.drop 4) _ rises_of_toyRises ?_
  decide +kernel

/-- The toy network finalizes the first block of a branch, and takes the last two blocks of the
    branch a second time. Genesis points to the finalized block, and a peer is told that both
    are finalized. -/
theorem toyRun_finalized_pointers : ∃ (c₀ c : Chain) (bs : List Block),
    genesisChain toyExternals toyGenesis toyPreState = .ok c₀ ∧
    Run toyExternals (fun c b => b ∈ {b | b ∈ toyPathBlocks} ∧ Rises c b) c₀ c ∧
    follow c.db.finalChild bs.length toyGenesis.hash = bs.map Block.hash ∧
    toyGenesis.hash ∈ bs.map Block.hash ∧ firstHash toyFinalizing ∈ bs.map Block.hash ∧
    ∃ answer, Peer.isHeaderHashFinalized c
        { epoch := 0, finalizedHeaderHash := toyGenesis.hash.toList } = some answer ∧
      (answer = true ↔ Names toyGenesis (bs.map Block.hash) toyGenesis.hash.toList) := by
  rcases toyRun_rises with ⟨c₀, c, h₀, hrun, hpointer⟩
  have hhash : toyGenesis.computeBlockHash toyExternals.toCrypto = .ok toyGenesis.hash := by
    decide +kernel
  have hmem : toyGenesis ∈ {b | b ∈ toyPathBlocks} := List.mem_cons_self
  rcases finalized_pointers toyGenesis_grounded hmem hhash toyPathBlocks_collisionFree
    toyPathBlocks_apart h₀ hrun with ⟨m, bs, -, -, hfollow, hon, hanswer⟩
  rcases hon _ _ hpointer with ⟨hgenesis, hfirst⟩
  exact ⟨c₀, c, bs, h₀, hrun, hfollow _ (Nat.le_refl _), hgenesis, hfirst, hanswer _⟩

end Zond
