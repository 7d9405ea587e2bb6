import Zond.Theory.Commitment
import Zond.Theory.Finality

/-!
# The Block a Node Takes for Its Last

A node keeps its last block in memory beside the record of it in the store. A block may
arrive a second time, under the hash of the head. It then takes the head's place in
memory without becoming the head. That it has the slot the record names is owed to the
block hash, which covers the slot.

## Main definitions

* `HeadInHand`: The block in memory is the one the record names.

## Theorems

* `addBlock_atomic`: In every run they agree, and a call that returns false touches neither.
-/

namespace Zond

open Outcome

variable {ext : Externals} {g : Block} {preState : List (List UInt8 × UInt64)}
variable {c₀ c c' : Chain} {b : Block} {now : UInt64} {B : Set Block}

/-- `SHA-256` is free of collisions among the strings hashed for the blocks of a set. -/
def CollisionFreeOn (c : Crypto) (B : Set Block) : Prop :=
  ∀ b ∈ B, ∀ b' ∈ B, CollisionFree c b b'

/-- Every stored block has the parent and the slot of a block of the set with that
    hash, in a slot the clock could reach. -/
def Known (c : Crypto) (B : Set Block) (db : Store) : Prop :=
  ∀ k x, db.blocks.get k = some x → ∃ b ∈ B, b.computeBlockHash c = .ok k ∧
    x.parentHash = b.parentHash ∧ x.slotNumber = b.slotNumber ∧ b.slotNumber.toNat < 2 ^ 63

theorem getMaxPossibleSlotNumber_lt (now : UInt64) :
    (Chain.getMaxPossibleSlotNumber now).toNat < 2 ^ 63 := by
  have htime : Config.blockTime.toNat = 60 := rfl
  have hspan := (now - Config.genesisTimestamp).toNat_lt
  unfold Chain.getMaxPossibleSlotNumber
  rw [UInt64.toNat_add, UInt64.toNat_div, htime]
  have hone : (1 : UInt64).toNat = 1 := rfl
  rw [hone, Nat.mod_eq_of_lt (by omega)]
  omega

theorem Known.slot_eq (hk : Known ext.toCrypto B c.db) (hfree : CollisionFreeOn ext.toCrypto B)
    (hb : b ∈ B) (hhash : b.computeBlockHash ext.toCrypto = .ok b.hash)
    (hslot : b.slotNumber.toNat < 2 ^ 63) {x : Block} (hx : c.db.blocks.get b.hash = some x) :
    x.parentHash = b.parentHash ∧ x.slotNumber = b.slotNumber := by
  rcases hk _ x hx with ⟨b', hb', hhash', hparent', hslot', hlt'⟩
  rcases parent_slot_of_hash hhash hhash' (hfree b hb b' hb') hslot hlt' with ⟨hparent, hsame⟩
  rw [hparent', hslot', hparent, hsame]
  exact ⟨rfl, rfl⟩

theorem Known.put (hk : Known ext.toCrypto B c.db) (hb : b ∈ B)
    (hhash : b.computeBlockHash ext.toCrypto = .ok b.hash) (hlt : b.slotNumber.toNat < 2 ^ 63)
    {db : Store} {x : Block} (hblocks : db.blocks = c.db.blocks.put b.hash x)
    (hparent : x.parentHash = b.parentHash) (hslot : x.slotNumber = b.slotNumber) :
    Known ext.toCrypto B db := by
  intro k y hy
  rw [hblocks] at hy
  rcases get_put_cases hy with ⟨rfl, rfl⟩ | ⟨-, hold⟩
  · exact ⟨b, hb, hhash, hparent, hslot, hlt⟩
  · exact hk k y hold

/-- The last block in memory has the hash and the slot that the store records, and a
    block is stored under that hash with that slot. -/
structure HeadInHand (ext : Externals) (B : Set Block) (c : Chain) : Prop where
  keyed : c.db.Keyed
  known : Known ext.toCrypto B c.db
  head : ∃ m x, c.db.mainChainMetaData = some m ∧
    c.db.blocks.get m.lastBlockHeaderHash = some x ∧ x.slotNumber = m.lastBlockSlotNumber ∧
    c.lastBlock.hash = m.lastBlockHeaderHash ∧ c.lastBlock.slotNumber = m.lastBlockSlotNumber

theorem processBlock_head {parentBlock : Block} {p : Processed} (hkeyed : c.db.Keyed)
    (hparent : c.db.blocks.get b.parentHash = some parentBlock)
    (h : Chain.processBlock ext c b parentBlock = .ok p) : ∃ m x, c.db.mainChainMetaData = some m ∧
      p.db.mainChainMetaData = some p.ctx.mainChainMetaData ∧
      (p.ctx.mainChainMetaData = m.updateLastBlockData b.hash b.slotNumber ∨
        p.ctx.mainChainMetaData = m) ∧ p.db.Keyed ∧ p.block.hash = b.hash ∧
      p.block.slotNumber = b.slotNumber ∧ p.db.blocks = c.db.blocks.put b.hash x ∧
      x.parentHash = b.parentHash ∧ x.slotNumber = b.slotNumber := by
  by_cases hslot : b.slotNumber = 0
  · rcases processBlock_of_slotZero hslot h with
      ⟨m, total, hmain, hrecords, hblocks, ⟨pbloom, bloom, hblock⟩, hput, hctx⟩
    have hfields : p.block.hash = b.hash ∧ p.block.parentHash = b.parentHash ∧
        p.block.slotNumber = b.slotNumber := by
      rw [hblock]
      exact ⟨rfl, rfl, rfl⟩
    refine ⟨m, p.block, hmain, hput, .inl (hslot ▸ hctx), ?_, hfields.1, hfields.2.2, hblocks,
      hfields.2⟩
    intro k bm hget
    rw [hrecords] at hget
    exact hkeyed.putBlockMetaData _ k bm hget
  · rcases executed_of_processBlock hkeyed hparent hslot h with
      ⟨a, ha, hdb, hhead, hhash, -, -, hpslot, -⟩
    rcases ha.blocks with ⟨pbloom, bloom, hblocks⟩
    refine ⟨a.main, b.updateRoots a.trieRoot pbloom bloom, ha.main, ?_, ?_, hdb ▸ ha.keyed, hhash,
      hpslot, hdb ▸ hblocks, rfl, rfl⟩
    · rw [hhead, hdb]
      exact ha.head
    · rw [hhead]
      rcases ha.choice with ⟨-, hmoved⟩ | ⟨-, hkept⟩
      · exact .inl hmoved
      · exact .inr hkept

theorem updateFinalizedEpoch_last {db db' : Store} {ctx : StateContext} (hkeyed : db.Keyed)
    (hm : db.mainChainMetaData = some ctx.mainChainMetaData)
    (h : updateFinalizedEpoch db b ctx = .ok db') : ∃ m, db'.mainChainMetaData = some m ∧
      m.lastBlockHeaderHash = ctx.mainChainMetaData.lastBlockHeaderHash ∧
      m.lastBlockSlotNumber = ctx.mainChainMetaData.lastBlockSlotNumber ∧
      db'.blocks = db.blocks ∧ db'.Keyed := by
  rcases updateFinalizedEpoch_spec hkeyed h with hsame | ⟨htree, finalized, slot, hmain, -⟩
  · rw [hsame]
    exact ⟨_, hm, rfl, rfl, rfl, hkeyed⟩
  · exact ⟨_, hmain, rfl, rfl, htree.blocks, htree.keyed⟩

theorem HeadInHand.addBlock (hi : HeadInHand ext B c) (hfree : CollisionFreeOn ext.toCrypto B)
    (hb : b ∈ B) (h : c.addBlock ext now b = .ok (true, c')) : HeadInHand ext B c' := by
  rcases Chain.addBlock_cases h with ⟨hfalse, -⟩ | ⟨-, parentBlock, p, hcheck, hprocess, hfinish⟩
  · cases hfalse
  rcases Chain.checkBlock_of_some hcheck with ⟨hcomputed, hmax, -, -, hparent, -⟩
  have hlt : b.slotNumber.toNat < 2 ^ 63 :=
    Nat.lt_of_le_of_lt (UInt64.le_iff_toNat_le.1 hmax) (getMaxPossibleSlotNumber_lt now)
  rcases processBlock_head hi.keyed hparent hprocess with
    ⟨m, y, hm, hpmain, hchoice, hkeyed, hhash, hpslot, hblocks, hyparent, hyslot⟩
  rcases hi.head with ⟨m₀, x, hm₀, hx, hxslot, hlhash, hlslot⟩
  have hsame : m₀ = m := Option.some.inj (hm₀.symm.trans hm)
  subst hsame
  rcases Chain.finishBlock_cases hpmain hfinish with ⟨-, hlast, hdone⟩
  -- What the store records and holds after the call, finalization or not.
  have hafter : ∃ m', c'.db.mainChainMetaData = some m' ∧
      m'.lastBlockHeaderHash = p.ctx.mainChainMetaData.lastBlockHeaderHash ∧
      m'.lastBlockSlotNumber = p.ctx.mainChainMetaData.lastBlockSlotNumber ∧
      c'.db.blocks = p.db.blocks ∧ c'.db.Keyed := by
    rcases hdone with heq | ⟨-, -, hfinal⟩
    · rw [heq]
      exact ⟨_, hpmain, rfl, rfl, rfl, hkeyed⟩
    · exact updateFinalizedEpoch_last hkeyed hpmain hfinal
  rcases hafter with ⟨m', hm', hmhash, hmslot, hcblocks, hckeyed⟩
  refine ⟨hckeyed, hi.known.put hb hcomputed hlt (hcblocks.trans hblocks) hyparent hyslot, ?_⟩
  rw [hcblocks, hblocks, hlast]
  rcases hchoice with hmoved | hkept
  · -- The block is the head, and in hand.
    have hself : p.ctx.mainChainMetaData.lastBlockHeaderHash = b.hash := by rw [hmoved]; rfl
    have hslot : p.ctx.mainChainMetaData.lastBlockSlotNumber = b.slotNumber := by rw [hmoved]; rfl
    refine ⟨m', y, hm', ?_, ?_, ?_⟩
    · rw [hmhash, hself]
      exact AssocMap.get_put_self _ _ _
    · rw [hmslot, hslot, hyslot]
    · unfold Chain.nextLastBlock
      rw [if_pos (hself.trans hhash.symm), hmhash, hmslot, hself, hslot]
      exact ⟨hhash, hpslot⟩
  · rw [hkept] at hmhash hmslot ⊢
    unfold Chain.nextLastBlock
    by_cases hself : m₀.lastBlockHeaderHash = b.hash
    · -- The block arrived under the hash of the head, and so with its slot.
      have hagree : b.slotNumber = m₀.lastBlockSlotNumber :=
        (hi.known.slot_eq hfree hb hcomputed hlt (hself ▸ hx)).2.symm.trans hxslot
      refine ⟨m', y, hm', ?_, ?_, ?_⟩
      · rw [hmhash, hself]
        exact AssocMap.get_put_self _ _ _
      · rw [hmslot, hyslot, hagree]
      · rw [if_pos (hself.trans hhash.symm), hmhash, hmslot, hself]
        exact ⟨hhash, hpslot.trans hagree⟩
    · refine ⟨m', x, hm', ?_, hxslot.trans hmslot.symm, ?_⟩
      · rw [hmhash, AssocMap.get_put_ne _ _ (fun heq => hself heq.symm)]
        exact hx
      · rw [if_neg (fun heq => hself (heq.trans hhash)), if_pos hlhash.symm, hmhash, hmslot]
        exact ⟨hlhash, hlslot⟩

theorem HeadInHand.genesisChain (hg : g.slotNumber = 0) (hgB : g ∈ B)
    (hhash : g.computeBlockHash ext.toCrypto = .ok g.hash)
    (h₀ : genesisChain ext g preState = .ok c₀) : HeadInHand ext B c₀ := by
  rcases genesisNode_of_ok hg h₀ with ⟨e, trie, total, hnode⟩
  have hs := hnode.sound hg
  have hread : ∃ m, c₀.db.mainChainMetaData = some m ∧
      c₀.db.blocks.get m.lastBlockHeaderHash = some c₀.lastBlock := by
    unfold Zond.genesisChain at h₀
    rcases bind_eq_ok.1 h₀ with ⟨s, -, h₀⟩
    rcases bind_eq_ok.1 h₀ with ⟨first, -, h₀⟩
    rcases bind_eq_ok.1 h₀ with ⟨partialHash, -, h₀⟩
    rcases bind_eq_ok.1 h₀ with ⟨signingHash, -, h₀⟩
    rcases bind_eq_ok.1 h₀ with ⟨ctx, -, h₀⟩
    rcases bind_eq_ok.1 h₀ with ⟨p, -, h₀⟩
    rcases bind_eq_ok.1 h₀ with ⟨m, hm, h₀⟩
    rcases bind_eq_ok.1 h₀ with ⟨lastBlock, hlast, h₀⟩
    rw [pure_eq_ok] at h₀
    subst h₀
    exact ⟨m, orFail_eq_ok.1 hm, orFail_eq_ok.1 hlast⟩
  rcases hread with ⟨m, hm, hlast⟩
  have hmain : m = _ := Option.some.inj (hm.symm.trans hnode.main)
  have hslot : c₀.lastBlock.slotNumber = m.lastBlockSlotNumber := by
    rw [(hnode.block hlast).2.2.2.1, hg, hmain]
  refine ⟨hs.keyed, ?_, m, _, hm, hlast, hslot, hs.named _ _ hlast, hslot⟩
  intro k x hx
  rcases hnode.block hx with ⟨rfl, -, hparent, hxslot, -⟩
  refine ⟨g, hgB, hhash, hparent, hxslot, ?_⟩
  rw [hg]
  decide

/-- In every run of blocks without hash collisions: a call that returns false leaves
    the store and the last block as they are, and after every call the last block has
    the hash and the slot that the store records. -/
theorem addBlock_atomic (hg : g.slotNumber = 0) (hgB : g ∈ B)
    (hhash : g.computeBlockHash ext.toCrypto = .ok g.hash)
    (hfree : CollisionFreeOn ext.toCrypto B) (h₀ : genesisChain ext g preState = .ok c₀)
    (hrun : Run ext (fun _ b => b ∈ B) c₀ c) : (∀ now b c', c.addBlock ext now b = .ok (false, c') →
      c'.db = c.db ∧ c'.lastBlock = c.lastBlock) ∧
    ∃ m, c.db.mainChainMetaData = some m ∧ c.lastBlock.hash = m.lastBlockHeaderHash ∧
      c.lastBlock.slotNumber = m.lastBlockSlotNumber := by
  have hinv := hrun.invariant (HeadInHand ext B)
    (fun hi hb hadd => hi.addBlock hfree hb hadd) (HeadInHand.genesisChain hg hgB hhash h₀)
  refine ⟨fun now b c' hadd => ?_, ?_⟩
  · rcases Chain.addBlock_cases hadd with ⟨-, hsame⟩ | ⟨htrue, -⟩
    · rw [hsame]
      exact ⟨rfl, rfl⟩
    · cases htrue
  · rcases hinv.head with ⟨m, -, hm, -, -, hlhash, hlslot⟩
    exact ⟨m, hm, hlhash, hlslot⟩

theorem collisionFreeOn_of_check {c : Crypto} {bs : List Block}
    (h : (bs.mapM (Block.preimages c) >>= fun ls => pure (decide
      (∀ x ∈ ls.flatten, ∀ y ∈ ls.flatten, c.sha256 x = c.sha256 y → x = y))) = .ok true) :
    CollisionFreeOn c {b | b ∈ bs} := by
  rcases bind_eq_ok.1 h with ⟨ls, hls, h⟩
  have hmem : ∀ b ∈ bs, ∀ l, b.preimages c = .ok l → ∀ x ∈ l, x ∈ ls.flatten := by
    intro b hb l hl x hx
    have hall := Outcome.forall₂_of_mapM hls
    rcases List.forall₂_iff_get.1 hall with ⟨hlen, hget⟩
    rcases List.mem_iff_get.1 hb with ⟨i, rfl⟩
    have hi : i.1 < ls.length := hlen ▸ i.2
    have hpre := hget i.1 i.2 hi
    rw [show bs.get ⟨i.1, i.2⟩ = bs.get i from rfl, hl, Except.ok.injEq] at hpre
    exact List.mem_flatten.2 ⟨_, List.get_mem ls ⟨i.1, hi⟩, hpre ▸ hx⟩
  intro b hb b' hb' x hx y hy
  rw [pure_eq_ok, decide_eq_true_eq] at h
  rcases hx with ⟨l, hl | hl, hx⟩ <;> rcases hy with ⟨l', hl' | hl', hy⟩
  · exact h x (hmem b hb l hl x hx) y (hmem b hb l' hl' y hy)
  · exact h x (hmem b hb l hl x hx) y (hmem b' hb' l' hl' y hy)
  · exact h x (hmem b' hb' l hl x hx) y (hmem b hb l' hl' y hy)
  · exact h x (hmem b' hb' l hl x hx) y (hmem b' hb' l' hl' y hy)

def toyBlocks : List Block := [toyGenesis, toyFirst, toySecond]

theorem toyBlocks_collisionFree : CollisionFreeOn toyCrypto {b | b ∈ toyBlocks} :=
  collisionFreeOn_of_check (by decide +kernel)

theorem toyRun_known : ∃ c₀ c, genesisChain toyExternals toyGenesis toyPreState = .ok c₀ ∧
    Run toyExternals (fun _ b => b ∈ {b | b ∈ toyBlocks}) c₀ c ∧
    c.db.mainChainMetaData.map MainChainMetaData.lastBlockHeaderHash = some toySecond.hash := by
  refine exists_run_of_check toyNow [toyFirst, toyFirst, toySecond] _
    (fun _ b (htest : decide (b ∈ toyBlocks) = true) => of_decide_eq_true htest) ?_
  decide +kernel

theorem toyRun_addBlock_atomic :
    ∃ c₀ c m, genesisChain toyExternals toyGenesis toyPreState = .ok c₀ ∧
      Run toyExternals (fun _ b => b ∈ {b | b ∈ toyBlocks}) c₀ c ∧
      c.db.mainChainMetaData = some m ∧ m.lastBlockHeaderHash = toySecond.hash ∧
      c.lastBlock.hash = m.lastBlockHeaderHash ∧
      c.lastBlock.slotNumber = m.lastBlockSlotNumber := by
  rcases toyRun_known with ⟨c₀, c, h₀, hrun, hhead⟩
  have hhash : toyGenesis.computeBlockHash toyExternals.toCrypto = .ok toyGenesis.hash := by
    decide +kernel
  have hmem : toyGenesis ∈ {b | b ∈ toyBlocks} := List.mem_cons_self
  rcases (addBlock_atomic toyGenesis_slotNumber hmem hhash toyBlocks_collisionFree h₀ hrun).2 with
    ⟨m, hm, hlhash, hlslot⟩
  rw [hm, Option.map_some, Option.some.injEq] at hhead
  exact ⟨c₀, c, m, h₀, hrun, hm, hhead, hlhash, hlslot⟩

end Zond
