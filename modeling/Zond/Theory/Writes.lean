import Zond.Core.Pending
import Zond.Theory.Genesis

/-!
# What a Call Reads and Writes

## Main definitions

* `Prepared`: What the reading half of `AddBlock` has looked up.
* `Relinked`: What finalization leaves as it was.

## Theorems

* `prepareBlock_of_ok`: The reading half.
* `writes_of_addBlock`: What a call writes, map by map, from what it has read.
-/

namespace Zond

open Outcome

variable {w : Pending}

variable {ext : Externals} {c c' : Chain} {b parentBlock : Block} {now : UInt64}

theorem commit_eq_write (ctx : StateContext) (b parentBlock : Block)
    (protocolTxReceipts txReceipts : List Receipt) (usedGas : UInt64)
    (trie : AssocMap Address Account) (trieRoot : Hash) (db : Store) :
    commit ctx b protocolTxReceipts txReceipts trieRoot false db =
      (commitBase ctx db >>= fun base =>
        ctx.epochBlockHashes.addHeaderHashBySlotNumber ctx.blockHeaderHash ctx.slotNumber >>=
          fun hashes => pure ({ parentBlock := parentBlock, ctx := ctx, block := b
                                parent := base.1, parentTotal := base.2.1
                                lastTotal := base.2.2, hashes := hashes
                                protocolTxReceipts := protocolTxReceipts
                                txReceipts := txReceipts, usedGas := usedGas, trie := trie
                                trieRoot := trieRoot } : Pending)).map
        (fun w => (w.context, w.write db)) := by
  unfold commit
  rcases commitBase ctx db with f | ⟨parent, parentTotal, lastTotal⟩
  · rfl
  · rcases ctx.epochBlockHashes.addHeaderHashBySlotNumber ctx.blockHeaderHash ctx.slotNumber with
      f | hashes
    · rfl
    · simp only [ok_bind, Bool.false_eq_true, if_false]
      -- The transaction tests what `TakesHead` says of what is in hand.
      generalize hw : ({ parentBlock := parentBlock, ctx := ctx, block := b, parent := parent
                         parentTotal := parentTotal, lastTotal := lastTotal, hashes := hashes
                         protocolTxReceipts := protocolTxReceipts, txReceipts := txReceipts
                         usedGas := usedGas, trie := trie, trieRoot := trieRoot } : Pending) = w
      by_cases htakes : w.TakesHead
      · rw [show (pure w : Go Pending).map (fun w => (w.context, w.write db))
          = .ok (w.context, w.write db) from rfl, Pending.write_of_takesHead htakes,
          Pending.context_of_takesHead htakes]
        subst hw
        exact if_pos htakes
      · rw [show (pure w : Go Pending).map (fun w => (w.context, w.write db))
          = .ok (w.context, w.write db) from rfl, Pending.write_of_not htakes,
          Pending.context_of_not htakes]
        subst hw
        exact if_neg htakes

theorem processBlock_eq_prepareBlock (c : Chain) (b parentBlock : Block) :
    c.processBlock ext b parentBlock =
      (c.prepareBlock ext b parentBlock).map (fun w => w.processed c.db c.tries) := by
  unfold Chain.processBlock Chain.prepareBlock process sealBlock
  rcases c.db.getBlockMetaData b.parentHash with f | pm
  · rfl
  simp only [ok_bind]
  rcases Chain.openState c.tries pm.trieRoot with f | s
  · rfl
  simp only [ok_bind]
  rcases Chain.calculateEpochMetaData ext c.db s b.slotNumber b.parentHash with f | ⟨s₁, e⟩
  · rfl
  simp only [ok_bind]
  rcases c.getSlotValidatorsMetaDataBySlotNumber ext pm.trieRoot b.slotNumber b.parentHash with
    f | validators
  · rfl
  simp only [ok_bind]
  rcases b.partialBlockSigningHash ext.toCrypto with f | partialHash
  · rfl
  simp only [ok_bind]
  rcases b.blockSigningHash ext.toCrypto with f | signingHash
  · rfl
  simp only [ok_bind]
  rcases StateContext.new c.db b.slotNumber b.parentHash b.hash partialHash signingHash e with
    f | ctx
  · rfl
  simp only [ok_bind]
  rcases newExec ext b c.db.getBlockHashBySlotNumber parentBlock.slotNumber s₁ ctx validators
    false with f | ⟨env, st₀⟩
  · rfl
  simp only [ok_bind]
  rcases processTransactions ext env st₀ with f | st
  · rfl
  simp only [ok_bind]
  rw [commit_eq_write st.ctx _ parentBlock _ _ st.usedGas st.statedb.finalise.commit]
  rcases commitBase st.ctx c.db with f | ⟨parent, parentTotal, lastTotal⟩
  · rfl
  simp only [ok_bind]
  rcases st.ctx.epochBlockHashes.addHeaderHashBySlotNumber st.ctx.blockHeaderHash
    st.ctx.slotNumber with f | hashes
  · rfl
  · rfl

theorem processTransactions_frame {env : ExecEnv} {st st' : ExecState}
    (h : processTransactions ext env st = .ok st') : SameFrame st.ctx st'.ctx := by
  by_cases hslot : st.ctx.slotNumber = 0
  · rw [processTransactions_ctx_of_slotZero hslot h]
    exact SameFrame.refl _
  · exact (counted_of_ok hslot h).frame

/-- Where what is in hand comes from: the parent's record and state, the bookkeeping of the
    epoch, and the loops that ran from there. -/
structure Prepared (ext : Externals) (c : Chain) (b parentBlock : Block) (w : Pending)
    (pm : BlockMetaData) (opened moved : StateDB) (e : EpochMetaData) (env : ExecEnv)
    (st₀ st : ExecState) : Prop where
  record : c.db.getBlockMetaData b.parentHash = .ok pm
  opens : Chain.openState c.tries pm.trieRoot = .ok opened
  moves : Chain.calculateEpochMetaData ext c.db opened b.slotNumber b.parentHash = .ok (moved, e)
  context : ∃ partialHash signingHash, StateContext.new c.db b.slotNumber b.parentHash b.hash
    partialHash signingHash e = .ok st₀.ctx
  block : env.block = b
  minter : b.minter ext.toCrypto = .ok env.minter
  coinbase : env.blockContext.coinbase = env.minter
  start : st₀.statedb = moved
  loops : processTransactions ext env st₀ = .ok st
  ctx : w.ctx = st.ctx
  parent : w.parentBlock = parentBlock
  updated : ∃ pbloom bloom, w.block = b.updateRoots w.trieRoot pbloom bloom
  trie : w.trie = st.statedb.finalise.commit
  root : w.trieRoot = ext.stateRoot w.trie.get
  base : commitBase w.ctx c.db = .ok (w.parent, w.parentTotal, w.lastTotal)
  hashes : w.ctx.epochBlockHashes.addHeaderHashBySlotNumber w.ctx.blockHeaderHash w.ctx.slotNumber
    = .ok w.hashes

theorem prepareBlock_stages (h : c.prepareBlock ext b parentBlock = .ok w) :
    ∃ pm opened moved e env st₀ st,
      Prepared ext c b parentBlock w pm opened moved e env st₀ st := by
  unfold Chain.prepareBlock at h
  rcases bind_eq_ok.1 h with ⟨pm, hpm, h⟩
  rcases bind_eq_ok.1 h with ⟨s, hopen, h⟩
  rcases bind_eq_ok.1 h with ⟨⟨s₁, e⟩, hmoved, h⟩
  rcases bind_eq_ok.1 h with ⟨validators, -, h⟩
  rcases bind_eq_ok.1 h with ⟨partialHash, -, h⟩
  rcases bind_eq_ok.1 h with ⟨signingHash, -, h⟩
  rcases bind_eq_ok.1 h with ⟨ctx, hnew, h⟩
  rcases bind_eq_ok.1 h with ⟨⟨env, st₀⟩, hexec, h⟩
  rcases bind_eq_ok.1 h with ⟨st, hloops, h⟩
  rcases bind_eq_ok.1 h with ⟨⟨parent, parentTotal, lastTotal⟩, hbase, h⟩
  rcases bind_eq_ok.1 h with ⟨hashes, hhashes, h⟩
  rw [pure_eq_ok] at h
  subst h
  unfold newExec at hexec
  rcases bind_eq_ok.1 hexec with ⟨minter, hminter, hexec⟩
  simp only [pure_eq_ok, Prod.mk.injEq] at hexec
  rcases hexec with ⟨rfl, rfl⟩
  exact ⟨pm, s, s₁, e, _, _, st, hpm, hopen, hmoved, ⟨partialHash, signingHash, hnew⟩, rfl,
    hminter, rfl, rfl, hloops, rfl, rfl, ⟨_, _, rfl⟩, rfl, rfl, hbase, hhashes⟩

theorem prepareBlock_of_ok (h : c.prepareBlock ext b parentBlock = .ok w) :
    w.parentBlock = parentBlock ∧
      (∃ pbloom bloom, w.block = b.updateRoots w.trieRoot pbloom bloom) ∧
      w.trieRoot = ext.stateRoot w.trie.get ∧
      commitBase w.ctx c.db = .ok (w.parent, w.parentTotal, w.lastTotal) ∧
      w.ctx.epochBlockHashes.addHeaderHashBySlotNumber w.ctx.blockHeaderHash w.ctx.slotNumber
        = .ok w.hashes ∧
      w.ctx.slotNumber = b.slotNumber ∧ w.ctx.parentBlockHeaderHash = b.parentHash ∧
      w.ctx.blockHeaderHash = b.hash ∧
      w.ctx.epochBlockHashes = c.db.getEpochBlockHashes (epochOf b.slotNumber) ∧
      c.db.mainChainMetaData = some w.ctx.mainChainMetaData := by
  rcases prepareBlock_stages h with ⟨pm, opened, moved, e, env, st₀, st, hw⟩
  have hframe : SameFrame st₀.ctx w.ctx := hw.ctx ▸ processTransactions_frame hw.loops
  rcases hw.context with ⟨partialHash, signingHash, hnew⟩
  rcases StateContext.new_of_ok hnew with ⟨hcs, hcp, hch, -, hmain, -, -⟩
  have hcopy := StateContext.new_epochBlockHashes hnew
  refine ⟨hw.parent, hw.updated, hw.root, hw.base, hw.hashes, ?_, ?_, ?_, ?_, ?_⟩
  · rw [hframe, ← hcs]
  · rw [hframe, ← hcp]
  · rw [hframe, ← hch]
  · rw [hframe]
    exact hcopy
  · rw [hframe]
    exact hmain

theorem stake_of_prepareBlock (h : c.prepareBlock ext b parentBlock = .ok w)
    (hslot : b.slotNumber ≠ 0) : w.ctx.currentBlockTotalStakeAmount =
      b.protocolTransactions.length * Config.stakeAmount.toNat := by
  rcases prepareBlock_stages h with ⟨pm, opened, moved, e, env, st₀, st, hw⟩
  rcases hw.context with ⟨partialHash, signingHash, hnew⟩
  rcases StateContext.new_of_ok hnew with ⟨hcs, -, -, -, -, hzero, -⟩
  have hstake := (counted_of_ok (hcs ▸ hslot) hw.loops).stake
  rw [hzero, Int.zero_add, List.length_map, hw.block] at hstake
  rw [hw.ctx, hstake]

theorem addBlock_eq_readBlock (c : Chain) (now : UInt64) (b : Block) :
    c.addBlock ext now b = c.readBlock ext now b >>= c.writeBlock := by
  unfold Chain.addBlock Chain.readBlock
  rcases Chain.rejectOnError (Chain.checkBlock ext c now b) with f | checked
  · rfl
  simp only [ok_bind]
  rcases checked with _ | _ | parentBlock
  · rfl
  · rfl
  dsimp only
  rw [processBlock_eq_prepareBlock]
  cases hprepare : c.prepareBlock ext b parentBlock with
  | error f => cases f <;> rfl
  | ok w =>
    have hsame := (prepareBlock_of_ok hprepare).1
    subst hsame
    rfl

def Store.children (db : Store) (k : Hash) : Option (List Hash) :=
  (db.blockMetaData.get k).map BlockMetaData.childHeaderHashes

/-- What finalization leaves as it was. Of a record it changes the finalized child. -/
structure Relinked (db db' : Store) : Prop where
  children : ∀ k, db'.children k = db.children k
  epochBlockHashes : db'.epochBlockHashes = db.epochBlockHashes
  blocks : db'.blocks = db.blocks
  blockReceipts : db'.blockReceipts = db.blockReceipts
  blockHashBySlotNumber : db'.blockHashBySlotNumber = db.blockHashBySlotNumber
  transactionMetaData : db'.transactionMetaData = db.transactionMetaData

theorem Relinked.refl (db : Store) : Relinked db db := ⟨fun _ => rfl, rfl, rfl, rfl, rfl, rfl⟩

section Finalization

variable {db db' : Store} {ctx : StateContext}

theorem finalizationPath_stored (hkeyed : db.Keyed) {finalized : Hash} {fuel : Nat} {k : Hash}
    {path : List BlockMetaData} (h : finalizationPath db finalized fuel k = .ok path) :
    ∀ bm ∈ path, db.blockMetaData.get bm.headerHash = some bm := by
  induction fuel generalizing k path with
  | zero => cases h
  | succ fuel ih =>
    rw [finalizationPath] at h
    rcases bind_eq_ok.1 h with ⟨bm, hbm, h⟩
    have hget := orFail_eq_ok.1 hbm
    split at h
    · rw [pure_eq_ok] at h
      rw [← h]
      exact fun _ hmem => absurd hmem List.not_mem_nil
    · rcases bind_eq_ok.1 h with ⟨rest, hrest, h⟩
      rw [pure_eq_ok] at h
      rw [← h]
      intro x hx
      rcases List.mem_cons.1 hx with rfl | hx
      · rw [hkeyed _ _ hget]
        exact hget
      · exact ih hrest x hx

theorem Relinked.linkFinalized {st st' : Store × BlockMetaData} {bm : BlockMetaData}
    (hsame : Relinked db st.1) (hlast : db.blockMetaData.get st.2.headerHash = some st.2)
    (h : linkFinalized st bm = .ok st') : Relinked db st'.1 ∧ st'.2 = bm := by
  unfold Zond.linkFinalized at h
  rcases errorIf_bind_eq_ok.1 h with ⟨-, h⟩
  rw [pure_eq_ok] at h
  subst h
  refine ⟨{ hsame with children := fun k => ?_ }, rfl⟩
  rw [← hsame.children k]
  unfold Store.children Store.putBlockMetaData
  rw [AssocMap.get_put]
  by_cases hk : (st.2.updateFinalizedChildHeaderHash bm.headerHash).headerHash = k
  · have hold := hsame.children k
    unfold Store.children at hold
    rw [if_pos hk, hold, ← hk, show (st.2.updateFinalizedChildHeaderHash bm.headerHash).headerHash
      = st.2.headerHash from rfl, hlast]
    rfl
  · rw [if_neg hk]

theorem finalize_of_updateFinalizedEpoch {b : Block} (h : updateFinalizedEpoch db b ctx = .ok db') :
    db' = db ∨ ∃ k path, finalizationPath db ctx.mainChainMetaData.finalizedBlockHeaderHash
      db.walkFuel k = .ok path ∧ finalize db ctx path = .ok db' := by
  unfold updateFinalizedEpoch at h
  split at h
  · cases h
    exact .inl rfl
  rcases bind_eq_ok.1 h with ⟨parent, -, h⟩
  split at h
  · exact .inl (pure_eq_ok.1 h).symm
  rcases bind_eq_ok.1 h with ⟨first, -, h⟩
  split at h
  · exact .inl (pure_eq_ok.1 h).symm
  rcases bind_eq_ok.1 h with ⟨e, -, h⟩
  split at h
  · exact .inl (pure_eq_ok.1 h).symm
  rcases bind_eq_ok.1 h with ⟨bm, -, h⟩
  rcases bind_eq_ok.1 h with ⟨start, -, h⟩
  rcases bind_eq_ok.1 h with ⟨path, hpath, h⟩
  exact .inr ⟨_, path, hpath, h⟩

theorem relinked_of_updateFinalizedEpoch (hkeyed : db.Keyed) {b : Block}
    (h : updateFinalizedEpoch db b ctx = .ok db') : Relinked db db' := by
  rcases finalize_of_updateFinalizedEpoch h with hsame | ⟨k, path, hpath, h⟩
  · rw [hsame]
    exact Relinked.refl db
  have hstored := finalizationPath_stored hkeyed hpath
  unfold finalize at h
  rcases bind_eq_ok.1 h with ⟨oldest, -, h⟩
  rcases bind_eq_ok.1 h with ⟨newest, -, h⟩
  rcases bind_eq_ok.1 h with ⟨parent, hparent, h⟩
  rcases bind_eq_ok.1 h with ⟨⟨linked, final⟩, hfold, h⟩
  rw [pure_eq_ok] at h
  subst h
  have hget := orFail_eq_ok.1 hparent
  have hstart : db.blockMetaData.get parent.headerHash = some parent := by
    rw [hkeyed _ _ hget]
    exact hget
  have hlinked := foldlM_invariant
    (fun st : Store × BlockMetaData => Relinked db st.1 ∧
      db.blockMetaData.get st.2.headerHash = some st.2) path.reverse
    (fun a bm b hmem ha hstep => by
      rcases ha.1.linkFinalized ha.2 hstep with ⟨hrelinked, hlast⟩
      rw [hlast]
      exact ⟨hrelinked, hstored bm (List.mem_reverse.1 hmem)⟩)
    ⟨Relinked.refl db, hstart⟩ hfold
  rcases hlinked.1 with ⟨hchildren, hhashes, hblocks, hreceipts, hindex, htxs⟩
  exact ⟨hchildren, hhashes, hblocks, hreceipts, hindex, htxs⟩

end Finalization

theorem parent_of_prepareBlock (h : c.prepareBlock ext b parentBlock = .ok w)
    (hslot : b.slotNumber ≠ 0) : ∃ pm last, c.db.blockMetaData.get b.parentHash = some pm ∧
      c.db.blockMetaData.get w.ctx.mainChainMetaData.lastBlockHeaderHash = some last ∧
      w.parent = some (pm.addChildHeaderHash b.hash) ∧ w.parentTotal = pm.totalStakeAmount ∧
      w.lastTotal = last.totalStakeAmount := by
  rcases prepareBlock_of_ok h with ⟨-, -, -, hbase, -, hs, hp, hh, -, -⟩
  unfold commitBase at hbase
  rw [if_neg (hs ▸ hslot)] at hbase
  rcases bind_eq_ok.1 hbase with ⟨pm, hpm, hbase⟩
  rcases bind_eq_ok.1 hbase with ⟨last, hlast, hbase⟩
  simp only [pure_eq_ok, Prod.mk.injEq] at hbase
  rcases hbase with ⟨hparent, hptotal, hltotal⟩
  rw [hp] at hpm
  rw [hh] at hparent
  exact ⟨pm, last, orFail_eq_ok.1 hpm, orFail_eq_ok.1 hlast, hparent.symm,
    hptotal.symm, hltotal.symm⟩

theorem Pending.keyed_write (w : Pending) {db : Store} (hkeyed : db.Keyed) :
    (w.write db).Keyed := by
  rw [w.write_eq db]
  cases w.parent with
  | none => exact fun k bm hget => hkeyed.putBlockMetaData w.record k bm hget
  | some p => exact fun k bm hget =>
    (hkeyed.putBlockMetaData w.record).putBlockMetaData p k bm hget

theorem relinked_of_writeBlock {added : Bool} (hkeyed : c.db.Keyed)
    (h : c.writeBlock (some w) = .ok (added, c')) :
    added = true ∧ Relinked (w.write c.db) c'.db := by
  unfold Chain.writeBlock at h
  rcases bind_eq_ok.1 h with ⟨next, hfinish, h⟩
  simp only [pure_eq_ok, Prod.mk.injEq] at h
  rcases h with ⟨rfl, rfl⟩
  refine ⟨rfl, ?_⟩
  have hdb : (w.processed c.db c.tries).db = w.write c.db := rfl
  cases hm : (w.processed c.db c.tries).db.mainChainMetaData with
  | none =>
    unfold Chain.finishBlock at hfinish
    rw [hm] at hfinish
    cases hfinish
    exact Relinked.refl _
  | some m =>
    rcases Chain.finishBlock_cases hm hfinish with ⟨-, -, hsame | ⟨-, -, hfinal⟩⟩
    · rw [hsame, hdb]
      exact Relinked.refl _
    · exact relinked_of_updateFinalizedEpoch (w.keyed_write hkeyed) hfinal

theorem readBlock_of_addBlock (h : c.addBlock ext now b = .ok (true, c')) :
    ∃ w, c.readBlock ext now b = .ok (some w) ∧ c.writeBlock (some w) = .ok (true, c') := by
  rw [addBlock_eq_readBlock] at h
  rcases bind_eq_ok.1 h with ⟨held, hread, hwrite⟩
  cases held with
  | none => cases hwrite
  | some w => exact ⟨w, hread, hwrite⟩

theorem readBlock_of_some (hr : c.readBlock ext now b = .ok (some w)) :
    c.prepareBlock ext b w.parentBlock = .ok w ∧
      c.db.blocks.get b.parentHash = some w.parentBlock := by
  unfold Chain.readBlock at hr
  rcases bind_eq_ok.1 hr with ⟨checked, hchecked, hr⟩
  split at hr
  · rename_i parent
    rcases Chain.checkBlock_of_some (Chain.rejectOnError_eq_some.1 hchecked) with
      ⟨-, -, m, -, hparent, -⟩
    have hw := Chain.rejectOnError_eq_some.1 hr
    have hsame := (prepareBlock_of_ok hw).1
    subst hsame
    exact ⟨hw, hparent⟩
  · cases hr

theorem tries_of_writeBlock {added : Bool} (h : c.writeBlock (some w) = .ok (added, c')) :
    c'.tries = c.tries.putNew w.trieRoot w.trie := by
  unfold Chain.writeBlock at h
  rcases bind_eq_ok.1 h with ⟨next, hfinish, h⟩
  simp only [pure_eq_ok, Prod.mk.injEq] at h
  rcases h with ⟨-, rfl⟩
  unfold Chain.finishBlock at hfinish
  split at hfinish
  · cases hfinish
    rfl
  · dsimp only at hfinish
    split at hfinish
    · split at hfinish
      · cases hfinish
        rfl
      · cases hfinish
        rfl
      · cases hfinish
    · cases hfinish
      rfl

/-- An added block: what was in hand was written to the store it was read from, and
    finalization may have followed. -/
theorem writes_of_addBlock (hkeyed : c.db.Keyed) (h : c.addBlock ext now b = .ok (true, c')) :
    ∃ parentBlock w, c.db.blocks.get b.parentHash = some parentBlock ∧
      c.prepareBlock ext b parentBlock = .ok w ∧ Relinked (w.write c.db) c'.db := by
  rcases readBlock_of_addBlock h with ⟨w, hread, hwrite⟩
  rcases readBlock_of_some hread with ⟨hw, hparent⟩
  exact ⟨_, w, hparent, hw, (relinked_of_writeBlock hkeyed hwrite).2⟩

theorem genesis_lists {g : Block} {preState : List (List UInt8 × UInt64)}
    (hg : g.slotNumber = 0) (h : genesisChain ext g preState = .ok c) :
    ∃ hashes ctx, (EpochBlockHashes.new 0).addHeaderHashBySlotNumber g.hash 0 = .ok hashes ∧
      c.db.epochBlockHashes = AssocMap.empty.put hashes.epoch hashes ∧
      c.db.blockHashBySlotNumber = AssocMap.empty.put 0 g.hash ∧
      (ctx.blockHeaderHash = g.hash ∧ ctx.slotNumber = 0) ∧
      c.db.transactionMetaData = putTransactionMetaData ctx g AssocMap.empty := by
  rcases commit_of_genesisChain hg h with
    ⟨ctx, ctx', e, s, s', first, pbloom, bloom, preceipts, receipts, -, -, -, hzero, -, hhash, -,
      hcopy, hcommit⟩
  unfold commit at hcommit
  rcases bind_eq_ok.1 hcommit with ⟨⟨parent, parentTotal, lastTotal⟩, hbase, hcommit⟩
  unfold commitBase at hbase
  rw [if_pos hzero] at hbase
  simp only [Except.ok.injEq, Prod.mk.injEq] at hbase
  rcases hbase with ⟨rfl, rfl, rfl⟩
  rcases bind_eq_ok.1 hcommit with ⟨hashes, hadd, hcommit⟩
  have hzero' : ctx.markFinalized.markLast.slotNumber = 0 := hzero
  simp only [if_true, hzero', true_or, pure_eq_ok, Prod.mk.injEq] at hcommit
  rw [← hcommit.2, ← hhash]
  refine ⟨hashes, ctx, ?_, rfl, ?_, ⟨rfl, hzero⟩, rfl⟩
  · rw [hcopy, hzero] at hadd
    exact hadd
  · rw [← hzero]
    rfl

end Zond
