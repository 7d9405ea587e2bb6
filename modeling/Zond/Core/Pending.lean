import Zond.Core.Chain

/-!
# The Two Halves of a Call

`AddBlock` reads first and writes last. The context copies the head and the hash list
of the epoch, `Commit` loads the records of the parent and of the head and changes
them in memory, and one bbolt transaction then writes whole records, as they were read
and changed.

## Main definitions

* `prepareBlock`: Everything up to the transaction.
* `Pending.write`: The transaction, on the store as it is by then.

## Theorems

* `write_eq`: The records a write leaves.
-/

namespace Zond

/-- What a call has in hand when it is about to write: the context, the block with
    its roots filled in, the parent's record with the new child, the stakes to be
    compared and the hash list of the epoch. -/
structure Pending where
  parentBlock : Block
  ctx : StateContext
  block : Block
  parent : Option BlockMetaData
  parentTotal : Int
  lastTotal : Int
  hashes : EpochBlockHashes
  protocolTxReceipts : List Receipt
  txReceipts : List Receipt
  usedGas : UInt64
  trie : AssocMap Address Account
  trieRoot : Hash

namespace Pending

variable (w : Pending)

def total : Int := w.parentTotal + w.ctx.currentBlockTotalStakeAmount

def record : BlockMetaData :=
  BlockMetaData.new w.ctx.parentBlockHeaderHash w.ctx.blockHeaderHash w.ctx.slotNumber w.total
    w.trieRoot

/-- The block becomes the head, judged by the head that was read. -/
def TakesHead : Prop := w.ctx.slotNumber = 0 ∨ w.lastTotal < w.total

instance : Decidable w.TakesHead := inferInstanceAs (Decidable (_ ∨ _))

/-- The bbolt transaction of `Commit`. -/
def write (db : Store) : Store :=
  let db := putBlockRecords w.ctx w.block w.record w.parent w.hashes w.protocolTxReceipts
    w.txReceipts db
  if w.TakesHead then putHead w.ctx.markLast w.block w.trieRoot db else db

def context : StateContext := if w.TakesHead then w.ctx.markLast else w.ctx

section Cases

variable {w}

theorem write_of_takesHead (h : w.TakesHead) (db : Store) : w.write db =
    putHead w.ctx.markLast w.block w.trieRoot (putBlockRecords w.ctx w.block w.record w.parent
      w.hashes w.protocolTxReceipts w.txReceipts db) := if_pos h

theorem write_of_not (h : ¬w.TakesHead) (db : Store) : w.write db =
    putBlockRecords w.ctx w.block w.record w.parent w.hashes w.protocolTxReceipts w.txReceipts
      db := if_neg h

theorem context_of_takesHead (h : w.TakesHead) : w.context = w.ctx.markLast := if_pos h

theorem context_of_not (h : ¬w.TakesHead) : w.context = w.ctx := if_neg h

end Cases

/-- The block opens an epoch: its parent, if one is recorded, is of another epoch. -/
def opensEpoch : Bool := w.parent.all (fun p => w.record.epoch ≠ p.epoch)

theorem write_eq (db : Store) : w.write db =
    { mainChainMetaData := if w.TakesHead then some w.ctx.markLast.mainChainMetaData
        else db.mainChainMetaData
      blockMetaData := w.parent.elim (db.blockMetaData.put w.record.headerHash w.record)
        (fun p => (db.blockMetaData.put w.record.headerHash w.record).put p.headerHash p)
      epochMetaData := if w.opensEpoch then (db.putEpochMetaData w.ctx.epochMetaData).epochMetaData
        else db.epochMetaData
      epochBlockHashes := db.epochBlockHashes.put w.hashes.epoch w.hashes
      blocks := db.blocks.put w.block.hash w.block
      blockReceipts := (db.blockReceipts.put (w.block.hash, w.block.slotNumber, true)
        w.protocolTxReceipts).put (w.block.hash, w.block.slotNumber, false) w.txReceipts
      blockHashBySlotNumber := if w.TakesHead
        then db.blockHashBySlotNumber.put w.ctx.slotNumber w.ctx.blockHeaderHash
        else db.blockHashBySlotNumber
      transactionMetaData := if w.TakesHead
        then putTransactionMetaData w.ctx.markLast w.block db.transactionMetaData
        else db.transactionMetaData
      mainChainHeadTrieRoot := if w.TakesHead then some w.trieRoot
        else db.mainChainHeadTrieRoot } := by
  by_cases htakes : w.TakesHead
  · rw [write_of_takesHead htakes]
    simp only [if_pos htakes]
    unfold putBlockRecords putHead opensEpoch
    cases w.parent with
    | none => rfl
    | some p =>
      by_cases hepoch : w.record.epoch ≠ p.epoch
      · simp only [if_pos hepoch, Option.all_some, decide_eq_true hepoch, if_true]
        rfl
      · simp only [if_neg hepoch, Option.all_some, decide_eq_false hepoch, Bool.false_eq_true,
          if_false]
        rfl
  · rw [write_of_not htakes]
    simp only [if_neg htakes]
    unfold putBlockRecords opensEpoch
    cases w.parent with
    | none => rfl
    | some p =>
      by_cases hepoch : w.record.epoch ≠ p.epoch
      · simp only [if_pos hepoch, Option.all_some, decide_eq_true hepoch, if_true]
        rfl
      · simp only [if_neg hepoch, Option.all_some, decide_eq_false hepoch, Bool.false_eq_true,
          if_false]
        rfl

def processed (db : Store) (tries : Tries) : Processed :=
  { block := w.block, ctx := w.context, db := w.write db
    tries := tries.putNew w.trieRoot w.trie, trieRoot := w.trieRoot
    protocolTxReceipts := w.protocolTxReceipts, txReceipts := w.txReceipts
    usedGas := w.usedGas }

end Pending

namespace Chain

variable (ext : Externals)

/-- The reading half of `AddBlock`, after its checks. -/
def prepareBlock (c : Chain) (b parentBlock : Block) : Go Pending := do
  let parent ← c.db.getBlockMetaData b.parentHash
  let s ← openState c.tries parent.trieRoot
  let (s, e) ← calculateEpochMetaData ext c.db s b.slotNumber b.parentHash
  let validators ← c.getSlotValidatorsMetaDataBySlotNumber ext parent.trieRoot b.slotNumber
    b.parentHash
  let partialHash ← b.partialBlockSigningHash ext.toCrypto
  let signingHash ← b.blockSigningHash ext.toCrypto
  let ctx ← StateContext.new c.db b.slotNumber b.parentHash b.hash partialHash signingHash e
  let (env, st) ← newExec ext b c.db.getBlockHashBySlotNumber parentBlock.slotNumber s ctx
    validators false
  let st ← processTransactions ext env st
  let trie := st.statedb.finalise.commit
  let trieRoot := ext.stateRoot trie.get
  let b := b.updateRoots trieRoot
    (createBloom ext.toCrypto (st.protocolTxReceipts.map Receipt.logs))
    (createBloom ext.toCrypto (st.txReceipts.map Receipt.logs))
  let (parent, parentTotal, lastTotal) ← commitBase st.ctx c.db
  let hashes ← st.ctx.epochBlockHashes.addHeaderHashBySlotNumber st.ctx.blockHeaderHash
    st.ctx.slotNumber
  pure { parentBlock := parentBlock, ctx := st.ctx, block := b, parent := parent
         parentTotal := parentTotal, lastTotal := lastTotal, hashes := hashes
         protocolTxReceipts := st.protocolTxReceipts, txReceipts := st.txReceipts
         usedGas := st.usedGas, trie := trie, trieRoot := trieRoot }

/-- The reading half of a call, with its checks: `none` is a block that is refused. -/
def readBlock (c : Chain) (now : UInt64) (b : Block) : Go (Option Pending) := do
  let checked ← rejectOnError (checkBlock ext c now b)
  match checked with
  | some (some parentBlock) => rejectOnError (prepareBlock ext c b parentBlock)
  | _ => pure none

/-- The writing half of a call: the transaction, and what `AddBlock` does after it. -/
def writeBlock (c : Chain) : Option Pending → Go (Bool × Chain)
  | none => pure (false, c)
  | some w => do
      let next ← finishBlock c w.parentBlock (w.processed c.db c.tries)
      pure (true, next)

end Chain

end Zond
