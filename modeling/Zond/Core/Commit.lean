import Zond.Core.Process

/-!
# Committing a Block

One bbolt transaction holds all writes of `Commit`, another all of `Finalize`, so each
is a function from store to store. `Commit` also creates a bucket for the block, in
which nothing is ever put: that `Finalize` finds it says nothing, and it is left out.

## Main definitions

* `commit`: The records a processed block writes.
* `process`: `Process`, up to the commit.
* `updateFinalizedEpoch`: Finalization.
-/

namespace Zond

/-- The account tries of the node, by root. -/
abbrev Tries := AssocMap Hash (AssocMap Address Account)

/-- What `Commit` reads first: the parent's record with the new child added, the
    parent's total stake and the head's. A slot-0 block reads nothing. -/
def commitBase (ctx : StateContext) (db : Store) : Go (Option BlockMetaData × Int × Int) :=
  if ctx.slotNumber = 0 then .ok (none, 0, 0)
  else do
    let parent ← db.getBlockMetaData ctx.parentBlockHeaderHash
    let last ← db.getBlockMetaData ctx.mainChainMetaData.lastBlockHeaderHash
    pure (some (parent.addChildHeaderHash ctx.blockHeaderHash), parent.totalStakeAmount,
      last.totalStakeAmount)

/-- The metadata of the block's transactions, written when it becomes the head:
    protocol transactions first, then user transactions, under one kind of key. -/
def putTransactionMetaData (ctx : StateContext) (b : Block)
    (m : AssocMap Hash TransactionMetaData) : AssocMap Hash TransactionMetaData :=
  let entry (i : Nat) (tx : Transaction ⊕ ProtocolTransaction) : TransactionMetaData :=
    { blockHash := ctx.blockHeaderHash, blockNumber := ctx.slotNumber, index := i
      transaction := tx }
  let m := b.protocolTransactions.zipIdx.foldl
    (fun m txi => m.put txi.1.base.hash (entry txi.2 (.inr txi.1))) m
  b.transactions.zipIdx.foldl (fun m txi => m.put txi.1.base.hash (entry txi.2 (.inl txi.1))) m

/-- The block's own records: its metadata, the slot's hash list, the parent's
    metadata, the epoch record of an epoch's first block, the block and its
    receipts. -/
def putBlockRecords (ctx : StateContext) (b : Block) (bm : BlockMetaData)
    (parent : Option BlockMetaData) (hashes : EpochBlockHashes)
    (protocolTxReceipts txReceipts : List Receipt) (db : Store) : Store :=
  let db := (db.putBlockMetaData bm).putEpochBlockHashes hashes
  let db := match parent with
    | none => db.putEpochMetaData ctx.epochMetaData
    | some p =>
      let db := db.putBlockMetaData p
      if bm.epoch ≠ p.epoch then db.putEpochMetaData ctx.epochMetaData else db
  { db with
    blocks := db.blocks.put b.hash b
    blockReceipts := (db.blockReceipts.put (b.hash, b.slotNumber, true) protocolTxReceipts).put
      (b.hash, b.slotNumber, false) txReceipts }

/-- The records of a block that becomes the head of the main chain. -/
def putHead (ctx : StateContext) (b : Block) (trieRoot : Hash) (db : Store) : Store :=
  { db with
    mainChainMetaData := some ctx.mainChainMetaData
    mainChainHeadTrieRoot := some trieRoot
    blockHashBySlotNumber := db.blockHashBySlotNumber.put ctx.slotNumber ctx.blockHeaderHash
    transactionMetaData := putTransactionMetaData ctx b db.transactionMetaData }

def StateContext.markFinalized (ctx : StateContext) : StateContext :=
  let m := ctx.mainChainMetaData
  { ctx with
    mainChainMetaData := m.updateFinalizedBlockData ctx.blockHeaderHash ctx.slotNumber }

def StateContext.markLast (ctx : StateContext) : StateContext :=
  let m := ctx.mainChainMetaData
  { ctx with mainChainMetaData := m.updateLastBlockData ctx.blockHeaderHash ctx.slotNumber }

/-- `StateProcessor.Commit`. The context is handed back with its copy of the main
    chain record, which finalization goes on to use. -/
def commit (ctx : StateContext) (b : Block) (protocolTxReceipts txReceipts : List Receipt)
    (trieRoot : Hash) (isFinalizedState : Bool) (db : Store) : Go (StateContext × Store) := do
  let (parent, parentTotal, lastTotal) ← commitBase ctx db
  let total := parentTotal + ctx.currentBlockTotalStakeAmount
  let bm := BlockMetaData.new ctx.parentBlockHeaderHash ctx.blockHeaderHash ctx.slotNumber total
    trieRoot
  let hashes ← ctx.epochBlockHashes.addHeaderHashBySlotNumber ctx.blockHeaderHash ctx.slotNumber
  let db := putBlockRecords ctx b bm parent hashes protocolTxReceipts txReceipts db
  let ctx := if isFinalizedState then ctx.markFinalized.markLast else ctx
  let db := if isFinalizedState then db.putMainChainMetaData ctx.mainChainMetaData else db
  if ctx.slotNumber = 0 ∨ lastTotal < total then
    pure (ctx.markLast, putHead ctx.markLast b trieRoot db)
  else pure (ctx, db)

/-- What a processed block leaves. `block` has its roots and blooms filled in. -/
structure Processed where
  block : Block
  ctx : StateContext
  db : Store
  tries : Tries
  trieRoot : Hash
  protocolTxReceipts : List Receipt
  txReceipts : List Receipt
  usedGas : UInt64

variable (ext : Externals)

/-- The end of both processors: write the state trie, fill in the header, commit. -/
def sealBlock (b : Block) (st : ExecState) (isFinalizedState : Bool) (db : Store)
    (tries : Tries) : Go Processed := do
  let trie := st.statedb.finalise.commit
  let trieRoot := ext.stateRoot trie.get
  let b := b.updateRoots trieRoot
    (createBloom ext.toCrypto (st.protocolTxReceipts.map Receipt.logs))
    (createBloom ext.toCrypto (st.txReceipts.map Receipt.logs))
  let (ctx, db) ← commit st.ctx b st.protocolTxReceipts st.txReceipts trieRoot isFinalizedState db
  pure { block := b, ctx := ctx, db := db, tries := tries.putNew trieRoot trie
         trieRoot := trieRoot, protocolTxReceipts := st.protocolTxReceipts
         txReceipts := st.txReceipts, usedGas := st.usedGas }

def process (b parentBlock : Block) (s : StateDB) (ctx : StateContext)
    (validators : SlotValidatorsMetaData) (db : Store) (tries : Tries) : Go Processed := do
  let (env, st) ← newExec ext b db.getBlockHashBySlotNumber parentBlock.slotNumber s ctx
    validators false
  let st ← processTransactions ext env st
  sealBlock ext b st false db tries

section Finalization

variable (db : Store)

/-- The loops of `UpdateFinalizedEpoch` that go back to the first block of an
    epoch: stop when the parent is of another epoch. -/
def epochFirstBlock : Nat → BlockMetaData → Go BlockMetaData
  | 0, _ => .error .diverges
  | fuel + 1, bm => do
      let parent ← db.getBlockMetaData bm.parentHeaderHash
      if bm.epoch ≠ parent.epoch then pure bm else epochFirstBlock fuel parent

/-- The last loop of `UpdateFinalizedEpoch`: the blocks from `headerHash` back to,
    but without, the finalized block. -/
def finalizationPath (finalized : Hash) : Nat → Hash → Go (List BlockMetaData)
  | 0, _ => .error .diverges
  | fuel + 1, headerHash => do
      let bm ← db.getBlockMetaData headerHash
      if bm.headerHash = finalized then pure []
      else do
        let rest ← finalizationPath finalized fuel bm.parentHeaderHash
        pure (bm :: rest)

/-- One block of the loop of `Finalize`: link the parent to its finalized child. -/
def linkFinalized (st : Store × BlockMetaData) (bm : BlockMetaData) :
    Go (Store × BlockMetaData) := do
  errorIf (st.2.headerHash ≠ bm.parentHeaderHash)
    (.finalizeParentMismatch bm.parentHeaderHash st.2.headerHash)
  pure (st.1.putBlockMetaData (st.2.updateFinalizedChildHeaderHash bm.headerHash), bm)

/-- `StateContext.Finalize`, on a path with the newest block first. -/
def finalize (ctx : StateContext) (path : List BlockMetaData) : Go Store := do
  let oldest ← Outcome.orFail (.panic .indexOutOfRange) path.getLast?
  let newest ← Outcome.orFail (.panic .indexOutOfRange) path.head?
  let parent ← db.getBlockMetaData oldest.parentHeaderHash
  let (db, _) ← path.reverse.foldlM linkFinalized (db, parent)
  pure (db.putMainChainMetaData
    (ctx.mainChainMetaData.updateFinalizedBlockData newest.headerHash newest.slotNumber))

/-- At least two thirds of the allotted stake was found, in `uint64` products. -/
def EpochMetaData.TwoThirds (e : EpochMetaData) : Prop :=
  ¬e.totalStakeAmountFound * 3 < e.totalStakeAmountAlloted * 2

instance (e : EpochMetaData) : Decidable e.TwoThirds := inferInstanceAs (Decidable (¬_))

/-- It is too early to finalize again: the distance of the epochs is a `uint64`
    difference. -/
def tooEarly (m : MainChainMetaData) (currentEpoch : UInt64) : Prop :=
  let distance := currentEpoch - epochOf m.finalizedBlockSlotNumber
  if m.finalizedBlockSlotNumber = 0 then distance < 3 else distance ≤ 3

instance (m : MainChainMetaData) (e : UInt64) : Decidable (tooEarly m e) := by
  unfold tooEarly
  exact inferInstance

def updateFinalizedEpoch (b : Block) (ctx : StateContext) : Go Store :=
  if ¬ctx.epochMetaData.TwoThirds ∨ tooEarly ctx.mainChainMetaData b.epoch then .ok db
  else do
    let parent ← db.getBlockMetaData b.parentHash
    if parent.epoch = 0 then pure db
    else do
      let first ← epochFirstBlock db db.walkFuel parent
      if first.epoch = 0 then pure db
      else do
        let e ← db.getEpochMetaData first.slotNumber first.parentHeaderHash
        if ¬e.TwoThirds then pure db
        else do
          let bm ← db.getBlockMetaData first.parentHeaderHash
          let bm ← epochFirstBlock db db.walkFuel bm
          let path ← finalizationPath db ctx.mainChainMetaData.finalizedBlockHeaderHash
            db.walkFuel bm.parentHeaderHash
          finalize db ctx path

end Finalization

end Zond
