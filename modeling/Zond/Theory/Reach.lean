import Mathlib.Logic.Relation
import Zond.Core.Producer
import Zond.Theory.Records

/-!
# Runs of a Node

A call that is refused leaves the node as it is, and one that stops the node ends
the run. Conditions on the blocks that arrive are conditions on each step, and
may look at the node the block arrives at.

## Main definitions

* `Run`: A sequence of `AddBlock` calls, each with a block and a clock of its own.
* `Added`: What is known of a call that has added its block.

## Theorems

* `Run.invariant`: What every step keeps holds after every run.
* `added_of_addBlock`: Every such call.
-/

namespace Zond

open Ancestry

variable {m : MainChainMetaData} {a : Addition} {k : Hash}

/-- One `AddBlock` call whose node and block meet the condition `P`. -/
def Step (ext : Externals) (P : Chain → Block → Prop) (c c' : Chain) : Prop :=
  ∃ now b added, P c b ∧ c.addBlock ext now b = .ok (added, c')

/-- Any number of `AddBlock` calls that meet the condition. -/
def Run (ext : Externals) (P : Chain → Block → Prop) : Chain → Chain → Prop :=
  Relation.ReflTransGen (Step ext P)

/-- What every added block keeps, every run keeps. -/
theorem Run.invariant {ext : Externals} {P : Chain → Block → Prop} (Inv : Chain → Prop)
    (hstep : ∀ {c c' : Chain} {now : UInt64} {b : Block}, Inv c → P c b →
      c.addBlock ext now b = .ok (true, c') → Inv c')
    {c c' : Chain} (hc : Inv c) (h : Run ext P c c') : Inv c' := by
  induction h with
  | refl => exact hc
  | tail _ hlast ih =>
    rcases hlast with ⟨now, b, added, hP, hadd⟩
    cases added with
    | true => exact hstep ih hP hadd
    | false =>
      rcases Chain.addBlock_cases hadd with ⟨-, hsame⟩ | ⟨hfalse, -⟩
      · rw [hsame]
        exact ih
      · cases hfalse

theorem Run.mono {ext : Externals} {P Q : Chain → Block → Prop} (hPQ : ∀ c b, P c b → Q c b)
    {c c' : Chain} (h : Run ext P c c') : Run ext Q c c' := by
  refine Relation.ReflTransGen.mono ?_ _ _ h
  rintro c c' ⟨now, b, added, hP, hadd⟩
  exact ⟨now, b, added, hPQ c b hP, hadd⟩

/-- What happened when a block was added, value by value. -/
structure Addition where
  /-- The parent block, its record and that of the head, as they were read. -/
  parentBlock : Block
  parent : BlockMetaData
  last : BlockMetaData
  /-- The head and the finalized block, before and after `Commit`. -/
  main : MainChainMetaData
  head : MainChainMetaData
  /-- The parent's state, before and after the epoch bookkeeping, and its record. -/
  opened : StateDB
  moved : StateDB
  epoch : EpochMetaData
  /-- The validators of the slot. -/
  flags : AssocMap PublicKey Bool
  /-- What the transactions left, and the store after `Commit`. -/
  trieRoot : Hash
  trie : AssocMap Address Account
  committed : Store

namespace Addition

/-- The core of the record an added block gets: each signer adds one stake to the
    total of the parent. -/
def core (a : Addition) (b : Block) : RecordCore :=
  { parentHeaderHash := b.parentHash, headerHash := b.hash, slotNumber := b.slotNumber
    totalStakeAmount := a.parent.totalStakeAmount +
      b.protocolTransactions.length * Config.stakeAmount.toNat
    trieRoot := a.trieRoot }

end Addition

/-- What was read for a block, what the bookkeeping of its epoch made of that, and
    what `Commit` wrote. -/
structure Executed (ext : Externals) (c : Chain) (b : Block) (a : Addition) : Prop where
  parentBlock : c.db.blocks.get b.parentHash = some a.parentBlock
  parent : c.db.blockMetaData.get b.parentHash = some a.parent
  main : c.db.mainChainMetaData = some a.main
  last : c.db.blockMetaData.get a.main.lastBlockHeaderHash = some a.last
  opened : Chain.openState c.tries a.parent.trieRoot = .ok a.opened
  moved : Chain.calculateEpochMetaData ext c.db a.opened b.slotNumber b.parentHash
    = .ok (a.moved, a.epoch)
  flags : StateContext.initialFlags b.slotNumber a.epoch = .ok a.flags
  signers : (b.protocolTransactions.map ProtocolTransaction.pk).Nodup
  assigned : ∀ tx ∈ b.protocolTransactions, a.flags.get tx.pk = some false
  signed : b.protocolTransactions ≠ []
  root : a.trieRoot = ext.stateRoot a.trie.get
  core : ∀ x, a.committed.core x = if b.parentHash = x then c.db.core x
    else if b.hash = x then some (a.core b) else c.db.core x
  keyed : a.committed.Keyed
  blocks : ∃ protocolTxBloom txBloom, a.committed.blocks =
    c.db.blocks.put b.hash (b.updateRoots a.trieRoot protocolTxBloom txBloom)
  epochs : a.committed.epochMetaData = if epochOf b.slotNumber ≠ a.parent.epoch
    then (c.db.putEpochMetaData a.epoch).epochMetaData else c.db.epochMetaData
  size : c.db.blockMetaData.size ≤ a.committed.blockMetaData.size
  head : a.committed.mainChainMetaData = some a.head
  choice : a.last.totalStakeAmount < (a.core b).totalStakeAmount ∧
      a.head = a.main.updateLastBlockData b.hash b.slotNumber ∨
    (a.core b).totalStakeAmount ≤ a.last.totalStakeAmount ∧ a.head = a.main

/-- What `AddBlock` does after `Commit` has left `db` with the head `head`: nothing,
    or the block is the head and the finalized block moves on towards it. -/
def Finished (b : Block) (head : MainChainMetaData) (db db' : Store) : Prop :=
  db' = db ∨ head.lastBlockHeaderHash = b.hash ∧ SameTree db db' ∧ ∃ finalized slot,
    db'.mainChainMetaData = some (head.updateFinalizedBlockData finalized slot) ∧
    Descends db.link b.parentHash finalized ∧
    Descends db.link finalized head.finalizedBlockHeaderHash

/-- The facts about an added block: it was executed, and finalization may have
    followed. -/
structure Added (ext : Externals) (c : Chain) (b : Block) (c' : Chain) (a : Addition) : Prop
    extends Executed ext c b a where
  tries : c'.tries = c.tries.putNew a.trieRoot a.trie
  finished : Finished b a.head a.committed c'.db

/-- The store of a node as a run keeps it: records and blocks are stored under their
    own hashes, every block has a record with its parent and slot, and the head is
    a stored block. -/
structure Store.Sound (db : Store) : Prop where
  keyed : db.Keyed
  named : ∀ h x, db.blocks.get h = some x → x.hash = h
  recorded : ∀ h x, db.blocks.get h = some x → ∃ r, db.core h = some r ∧
    r.parentHeaderHash = x.parentHash ∧ r.slotNumber = x.slotNumber
  headed : ∃ m, db.mainChainMetaData = some m ∧
    ∃ x, db.blocks.get m.lastBlockHeaderHash = some x

section Added

variable {ext : Externals} {c c' : Chain} {b parentBlock : Block} {p : Processed}

theorem Chain.finishBlock_cases (hm : p.db.mainChainMetaData = some m)
    (h : finishBlock c parentBlock p = .ok c') :
    c'.tries = p.tries ∧ c'.lastBlock = c.nextLastBlock p m ∧ (c'.db = p.db ∨
      p.block.hash = (c.nextLastBlock p m).hash ∧ p.block.epoch ≠ parentBlock.epoch ∧
        updateFinalizedEpoch p.db p.block p.ctx = .ok c'.db) := by
  unfold finishBlock at h
  rw [hm] at h
  dsimp only at h
  split at h
  · rename_i hfirst
    split at h
    · rename_i db hfinal
      cases h
      exact ⟨rfl, rfl, .inr ⟨hfirst.1, hfirst.2, hfinal⟩⟩
    · cases h
      exact ⟨rfl, rfl, .inl rfl⟩
    · cases h
  · cases h
    exact ⟨rfl, rfl, .inl rfl⟩

theorem Chain.nextLastBlock_hash (hnamed : ∀ h x, p.db.blocks.get h = some x → x.hash = h)
    (hstored : ∃ x, p.db.blocks.get m.lastBlockHeaderHash = some x) :
    (c.nextLastBlock p m).hash = m.lastBlockHeaderHash := by
  rcases hstored with ⟨x, hx⟩
  unfold nextLastBlock
  split
  · exact (‹m.lastBlockHeaderHash = p.block.hash›).symm
  · split
    · exact (‹m.lastBlockHeaderHash = c.lastBlock.hash›).symm
    · rw [hx, Option.getD_some]
      exact hnamed _ x hx

theorem Chain.finishBlock_of_ok (hkeyed : p.db.Keyed)
    (hm : p.db.mainChainMetaData = some m) (hctx : p.ctx.mainChainMetaData = m)
    (hnamed : ∀ h x, p.db.blocks.get h = some x → x.hash = h)
    (hstored : ∃ x, p.db.blocks.get m.lastBlockHeaderHash = some x)
    (h : finishBlock c parentBlock p = .ok c') :
    c'.tries = p.tries ∧ Finished p.block m p.db c'.db := by
  have hlast := nextLastBlock_hash (c := c) hnamed hstored
  rcases finishBlock_cases hm h with ⟨htries, -, hsame | ⟨hhead, -, hfinal⟩⟩
  · exact ⟨htries, .inl hsame⟩
  · refine ⟨htries, ?_⟩
    rcases updateFinalizedEpoch_spec hkeyed hfinal with hsame | ⟨htree, hmoved⟩
    · exact .inl hsame
    · exact .inr ⟨hlast ▸ hhead.symm, htree, hctx ▸ hmoved⟩

theorem executed_of_processBlock (hkeyed : c.db.Keyed)
    (hparent : c.db.blocks.get b.parentHash = some parentBlock) (hslot : b.slotNumber ≠ 0)
    (h : Chain.processBlock ext c b parentBlock = .ok p) :
    ∃ a, Executed ext c b a ∧ p.db = a.committed ∧ p.ctx.mainChainMetaData = a.head ∧
      p.block.hash = b.hash ∧ p.block.parentHash = b.parentHash ∧
      p.tries = c.tries.putNew a.trieRoot a.trie ∧ p.block.slotNumber = b.slotNumber ∧
      p.ctx.epochMetaData = a.epoch := by
  rcases Chain.processBlock_of_ok h with
    ⟨pm, s, s₁, e, validators, partialHash, signingHash, ctx, hpm, hs, hcalc, hnew, hprocess⟩
  rcases StateContext.new_of_ok hnew with ⟨hcs, hcp, hch, hce, hmain, hczero, hflags⟩
  rcases process_of_ok hprocess with ⟨env, st₀, st, -, henv, hst₀, -, hloops, hseal⟩
  subst hst₀
  have hcounted := counted_of_ok (hcs ▸ hslot) hloops
  rcases processTransactions_of_ok hloops with ⟨tx, rest, -, hfirst, -, -⟩
  rcases sealBlock_of_ok hseal with ⟨pbloom, bloom, hblock, hroot, htries, hcommit⟩
  -- The loops have changed the counted stake and the flags of the context only.
  have hframe := hcounted.frame
  have hfs : st.ctx.slotNumber = b.slotNumber := by rw [hframe, ← hcs]
  have hfp : st.ctx.parentBlockHeaderHash = b.parentHash := by rw [hframe, ← hcp]
  have hfh : st.ctx.blockHeaderHash = b.hash := by rw [hframe, ← hch]
  have hfe : st.ctx.epochMetaData = e := by rw [hframe, ← hce]
  have hfm : st.ctx.mainChainMetaData = st₀.ctx.mainChainMetaData := by rw [hframe]
  have hstake := hcounted.stake
  rw [hczero, Int.zero_add, List.length_map, henv] at hstake
  rcases commit_of_ok (hfs ▸ hslot) hcommit with ⟨pm', last, hw⟩
  have hpm' : pm' = pm := by
    have hget := hw.parent
    rw [hfp, hpm, Option.some.injEq] at hget
    exact hget.symm
  subst hpm'
  let a : Addition :=
    { parentBlock := parentBlock, parent := pm', last := last
      main := st₀.ctx.mainChainMetaData, head := p.ctx.mainChainMetaData, opened := s
      moved := s₁, epoch := e, flags := st₀.ctx.validatorsFlag, trieRoot := p.trieRoot
      trie := st.statedb.finalise.commit, committed := p.db }
  have hcore : (newRecord st.ctx pm' p.trieRoot).core = a.core b := by
    unfold newRecord BlockMetaData.new BlockMetaData.core Addition.core
    simp only [hfs, hfp, hfh, hstake, a]
  have hepoch : p.ctx.epochMetaData = e := by
    rcases hw.choice with ⟨-, hctx, -⟩ | ⟨-, hctx, -⟩
    · rw [hctx]
      exact hfe
    · rw [hctx]
      exact hfe
  refine ⟨a, ?_, rfl, rfl, by rw [hblock]; rfl, by rw [hblock]; rfl, htries,
    by rw [hblock]; rfl, hepoch⟩
  exact
    { parentBlock := hparent
      parent := hpm
      main := hmain
      last := by
        have hhead := hw.head
        rw [hfm] at hhead
        exact hhead
      opened := hs
      moved := hcalc
      flags := hflags
      signers := henv ▸ hcounted.nodup
      assigned := fun tx htx => hcounted.assigned _ (henv ▸ List.mem_map_of_mem htx)
      signed := by rw [← henv, hfirst]; exact List.cons_ne_nil _ _
      root := hroot
      core := fun x => by
        rw [← hcore, ← hfp, ← hfh]
        exact hw.core hkeyed x
      keyed := hw.keyed hkeyed
      blocks := ⟨pbloom, bloom, by rw [hw.blocks, hblock]; rfl⟩
      epochs := by rw [hw.epochs, hfs, hfe]
      size := by
        rw [hw.records, AssocMap.size_put, AssocMap.size_put]
        omega
      head := by
        rcases hw.choice with ⟨-, -, hdb⟩ | ⟨-, hctx, hdb⟩
        · exact hdb
        · rw [hdb, hmain]
          simp only [a, hctx, hfm]
      choice := by
        have htotal := congrArg RecordCore.totalStakeAmount hcore
        rcases hw.choice with ⟨hmore, hctx, -⟩ | ⟨hless, hctx, -⟩
        · refine .inl ⟨htotal ▸ hmore, ?_⟩
          simp only [a, hctx, StateContext.markLast, hfm, hfh, hfs]
        · refine .inr ⟨htotal ▸ hless, ?_⟩
          simp only [a, hctx, hfm] }

theorem Executed.named (h : Executed ext c b a)
    (hnamed : ∀ h x, c.db.blocks.get h = some x → x.hash = h) (k : Hash) (x : Block)
    (hx : a.committed.blocks.get k = some x) : x.hash = k := by
  rcases h.blocks with ⟨pbloom, bloom, hblocks⟩
  rw [hblocks, AssocMap.get_put] at hx
  by_cases hk : b.hash = k
  · rw [if_pos hk, Option.some.injEq] at hx
    rw [← hx, ← hk]
    rfl
  · rw [if_neg hk] at hx
    exact hnamed k x hx

theorem Executed.stored (h : Executed ext c b a)
    (hk : k = b.hash ∨ ∃ x, c.db.blocks.get k = some x) :
    ∃ x, a.committed.blocks.get k = some x := by
  rcases h.blocks with ⟨pbloom, bloom, hblocks⟩
  rw [hblocks, AssocMap.get_put]
  by_cases heq : b.hash = k
  · rw [if_pos heq]
    exact ⟨_, rfl⟩
  · rw [if_neg heq]
    exact hk.resolve_left (fun h => heq h.symm)

theorem Executed.headed (h : Executed ext c b a) (hs : c.db.Sound) :
    ∃ x, a.committed.blocks.get a.head.lastBlockHeaderHash = some x := by
  refine h.stored ?_
  rcases h.choice with ⟨-, hhead⟩ | ⟨-, hhead⟩
  · rw [hhead]
    exact .inl rfl
  · rcases hs.headed with ⟨m, hm, hstored⟩
    have hsame : m = a.main := Option.some.inj (hm.symm.trans h.main)
    rw [hhead, ← hsame]
    exact .inr hstored

theorem parent_of_addBlock {now : UInt64} (h : c.addBlock ext now b = .ok (true, c')) :
    ∃ x, c.db.blocks.get b.parentHash = some x := by
  rcases Chain.addBlock_cases h with ⟨hfalse, -⟩ | ⟨-, parentBlock, p, hcheck, -, -⟩
  · cases hfalse
  · rcases Chain.checkBlock_of_some hcheck with ⟨-, -, m, -, hparent, -⟩
    exact ⟨parentBlock, hparent⟩

theorem added_of_finishBlock (hs : c.db.Sound) (hslot : b.slotNumber ≠ 0)
    (hparent : c.db.blocks.get b.parentHash = some parentBlock)
    (hprocess : Chain.processBlock ext c b parentBlock = .ok p)
    (hfinish : Chain.finishBlock c parentBlock p = .ok c') :
    ∃ a, Added ext c b c' a ∧ p.db = a.committed ∧ p.ctx.mainChainMetaData = a.head ∧
      p.block.parentHash = b.parentHash ∧ p.block.slotNumber = b.slotNumber ∧
      p.ctx.epochMetaData = a.epoch := by
  rcases executed_of_processBlock hs.keyed hparent hslot hprocess with
    ⟨a, ha, hdb, hhead, hhash, hphash, htries, hpslot, hepoch⟩
  have hm : p.db.mainChainMetaData = some a.head := hdb ▸ ha.head
  have hnamed : ∀ k x, p.db.blocks.get k = some x → x.hash = k := hdb ▸ ha.named hs.named
  have hstored := ha.headed hs
  rw [← hdb] at hstored
  rcases Chain.finishBlock_of_ok (hdb ▸ ha.keyed) hm hhead hnamed hstored hfinish with
    ⟨htries', hdone⟩
  refine ⟨a, ⟨ha, htries'.trans htries, ?_⟩, hdb, hhead, hphash, hpslot, hepoch⟩
  unfold Finished at *
  rwa [hhash, hphash, hdb] at hdone

theorem added_of_addBlock {now : UInt64} (hs : c.db.Sound) (hslot : b.slotNumber ≠ 0)
    (h : c.addBlock ext now b = .ok (true, c')) : ∃ a, Added ext c b c' a := by
  rcases Chain.addBlock_cases h with ⟨hfalse, -⟩ | ⟨-, parentBlock, p, hcheck, hprocess, hfinish⟩
  · cases hfalse
  · rcases Chain.checkBlock_of_some hcheck with ⟨-, -, m, -, hparent, -⟩
    rcases added_of_finishBlock hs hslot hparent hprocess hfinish with ⟨a, ha, -⟩
    exact ⟨a, ha⟩

theorem Finished.sameTree {head : MainChainMetaData} {db db' : Store} (h : Finished b head db db')
    (hkeyed : db.Keyed) : SameTree db db' := by
  rcases h with hsame | ⟨-, htree, -⟩
  · rw [hsame]
    exact SameTree.refl hkeyed
  · exact htree

theorem Finished.mainChain {head : MainChainMetaData} {db db' : Store}
    (h : Finished b head db db') (hhead : db.mainChainMetaData = some head) :
    ∃ m, db'.mainChainMetaData = some m ∧ m.lastBlockHeaderHash = head.lastBlockHeaderHash := by
  rcases h with hsame | ⟨-, -, finalized, slot, hmain, -⟩
  · rw [hsame]
    exact ⟨head, hhead, rfl⟩
  · exact ⟨_, hmain, rfl⟩

theorem Added.sameTree (h : Added ext c b c' a) : SameTree a.committed c'.db :=
  h.finished.sameTree h.keyed

theorem Added.mainChain (h : Added ext c b c' a) : ∃ m, c'.db.mainChainMetaData = some m ∧
      m.lastBlockHeaderHash = a.head.lastBlockHeaderHash :=
  h.finished.mainChain h.head

/-- A block that arrives under a hash the store has a record of agrees with that
    record in its parent and its slot, as blocks do that are hashed without
    collisions. -/
def Undisputed (c : Chain) (b : Block) : Prop :=
  ∀ r, c.db.core b.hash = some r →
    r.parentHeaderHash = b.parentHash ∧ r.slotNumber = b.slotNumber

section Growth

variable {a : Addition} (h : Added ext c b c' a)
include h

theorem Added.core_after (x : Hash) : c'.db.core x = if b.parentHash = x then c.db.core x
      else if b.hash = x then some (a.core b) else c.db.core x :=
  (h.sameTree.core x).trans (h.core x)

theorem Added.core_of_ne {x : Hash} (hx : x ≠ b.hash) : c'.db.core x = c.db.core x := by
  rw [h.core_after, if_neg (fun heq : b.hash = x => hx heq.symm), ite_self]

theorem Added.block_after {x : Block} (hx : c'.db.blocks.get k = some x) :
    (k = b.hash ∧ x.parentHash = b.parentHash ∧ x.slotNumber = b.slotNumber ∧
        x.protocolTransactions = b.protocolTransactions ∧ x.transactions = b.transactions) ∨
      k ≠ b.hash ∧ c.db.blocks.get k = some x := by
  rcases h.blocks with ⟨pbloom, bloom, hblocks⟩
  rw [h.sameTree.blocks, hblocks, AssocMap.get_put] at hx
  by_cases hk : b.hash = k
  · rw [if_pos hk, Option.some.injEq] at hx
    rw [← hx]
    exact .inl ⟨hk.symm, rfl, rfl, rfl, rfl⟩
  · rw [if_neg hk] at hx
    exact .inr ⟨fun heq => hk heq.symm, hx⟩

theorem Added.recorded (hu : Undisputed c b) : ∃ r, c'.db.core b.hash = some r ∧
    r.parentHeaderHash = b.parentHash ∧ r.slotNumber = b.slotNumber := by
  rw [h.core_after]
  by_cases hself : b.parentHash = b.hash
  · -- A block that is its own parent was stored before, and agrees with that.
    rw [if_pos hself, ← hself, Store.core_of_get h.parent]
    have hold := hu a.parent.core (hself ▸ Store.core_of_get h.parent)
    exact ⟨_, rfl, hold⟩
  · rw [if_neg hself, if_pos rfl]
    exact ⟨_, rfl, rfl, rfl⟩

theorem Added.stored_after (hs : c.db.Sound) (hu : Undisputed c b) {x : Block}
    (hx : c.db.blocks.get k = some x) :
    ∃ x', c'.db.blocks.get k = some x' ∧ x'.slotNumber = x.slotNumber := by
  rcases h.stored (.inr ⟨x, hx⟩) with ⟨x', hx'⟩
  rw [← h.sameTree.blocks] at hx'
  refine ⟨x', hx', ?_⟩
  rcases h.block_after hx' with ⟨hk, -, hslot, -⟩ | ⟨-, hold⟩
  · rcases hs.recorded k x hx with ⟨r, hr, -, hrslot⟩
    rw [hslot, ← (hu r (hk ▸ hr)).2, hrslot]
  · rw [Option.some.inj (hx.symm.trans hold)]

theorem Added.link_after (hu : Undisputed c b) {x y : Hash} (hlink : c.db.link x = some y) :
    c'.db.link x = some y := by
  unfold Store.link at *
  rcases Option.map_eq_some_iff.1 hlink with ⟨r, hr, hparent⟩
  by_cases hx : x = b.hash
  · rcases h.recorded hu with ⟨r', hr', hparent', -⟩
    have hold := hu r (hx ▸ hr)
    rw [hx, hr', Option.map_some, hparent', ← hold.1, hparent]
  · rw [h.core_of_ne hx, hr, Option.map_some, hparent]

theorem Added.sound (hs : c.db.Sound) (hu : Undisputed c b) : c'.db.Sound := by
  refine ⟨h.sameTree.keyed, ?_, ?_, ?_⟩
  · intro k x hx
    rw [h.sameTree.blocks] at hx
    exact h.named hs.named k x hx
  · intro k x hx
    rcases h.block_after hx with ⟨hk, hparent, hslot, -⟩ | ⟨hk, hold⟩
    · rw [hk, hparent, hslot]
      exact h.recorded hu
    · rcases hs.recorded k x hold with ⟨r, hr, hfields⟩
      rw [h.core_of_ne hk]
      exact ⟨r, hr, hfields⟩
  · rcases h.mainChain with ⟨m, hm, hlast⟩
    refine ⟨m, hm, ?_⟩
    rw [hlast, h.sameTree.blocks]
    exact h.headed hs

end Growth

end Added

end Zond
