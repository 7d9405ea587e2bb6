import Zond.Core.Metadata
import Zond.Core.Receipt

/-!
# The Chain Store

The walks of the source are loops without a bound. Each is run here with as much
fuel as the store has block records: the next record is a function of the hash in
hand alone, so a walk that takes more steps has come back to a hash it has left
and never ends.

## Main definitions

* `Store`: The key-value store of the node, as one map per record kind.
* `Store.getEpochMetaData`: The epoch record of a block, found along parent links.
-/

namespace Zond

/-- `TransactionMetaData` and `ProtocolTransactionMetaData`, which are committed
    under the same key. -/
structure TransactionMetaData where
  blockHash : Hash
  blockNumber : UInt64
  index : Nat
  transaction : Transaction ⊕ ProtocolTransaction
deriving DecidableEq

structure Store where
  mainChainMetaData : Option MainChainMetaData
  blockMetaData : AssocMap Hash BlockMetaData
  epochMetaData : AssocMap (UInt64 × Hash) EpochMetaData
  epochBlockHashes : AssocMap UInt64 EpochBlockHashes
  blocks : AssocMap Hash Block
  blockReceipts : AssocMap (Hash × UInt64 × Bool) (List Receipt)
  blockHashBySlotNumber : AssocMap UInt64 Hash
  transactionMetaData : AssocMap Hash TransactionMetaData
  mainChainHeadTrieRoot : Option Hash

namespace Store

def empty : Store :=
  { mainChainMetaData := none, blockMetaData := .empty, epochMetaData := .empty,
    epochBlockHashes := .empty, blocks := .empty, blockReceipts := .empty,
    blockHashBySlotNumber := .empty, transactionMetaData := .empty,
    mainChainHeadTrieRoot := none }

variable (db : Store)

def getMainChainMetaData : Go MainChainMetaData :=
  Outcome.orFail (.error (.notFound .mainChainMetaData zeroHash)) db.mainChainMetaData

def getBlockMetaData (h : Hash) : Go BlockMetaData :=
  Outcome.orFail (.error (.notFound .blockMetaData h)) (db.blockMetaData.get h)

def getBlock (h : Hash) : Go Block :=
  Outcome.orFail (.error (.notFound .block h)) (db.blocks.get h)

/-- `metadata.GetEpochBlockHashes`, or an empty record when there is none. -/
def getEpochBlockHashes (epoch : UInt64) : EpochBlockHashes :=
  (db.epochBlockHashes.get epoch).getD (EpochBlockHashes.new epoch)

/-- `block.GetBlockByNumber`: the block the slot index names. -/
def getBlockByNumber (n : UInt64) : Option Block :=
  (db.blockHashBySlotNumber.get n).bind db.blocks.get

def getTransactionMetaData (txHash : Hash) : Option TransactionMetaData :=
  db.transactionMetaData.get txHash

/-- `Chain.GetBlockHashBySlotNumber`: the hash of the block the slot index names. -/
def getBlockHashBySlotNumber (n : UInt64) : Hash :=
  match db.blockHashBySlotNumber.get n with
  | none => zeroHash
  | some h =>
    match db.blocks.get h with
    | none => zeroHash
    | some b => b.hash

/-- `BlockMetaData.Commit`: the key is the record's own header hash. -/
def putBlockMetaData (bm : BlockMetaData) : Store :=
  { db with blockMetaData := db.blockMetaData.put bm.headerHash bm }

def putMainChainMetaData (m : MainChainMetaData) : Store :=
  { db with mainChainMetaData := some m }

def putEpochMetaData (e : EpochMetaData) : Store :=
  { db with epochMetaData :=
      db.epochMetaData.put (e.epoch, e.prevSlotLastBlockHeaderHash) e.stored }

def putEpochBlockHashes (e : EpochBlockHashes) : Store :=
  { db with epochBlockHashes := db.epochBlockHashes.put e.epoch e }

/-- Steps enough for any walk over block records that ends. -/
def walkFuel : Nat := db.blockMetaData.size + 1

/-- The loop of `GetEpochMetaData`: from a parent hash back to the last block
    before the epoch. Genesis ends the walk, and for epoch 0 hands on its own
    parent hash. -/
def prevEpochLastHash (epoch : UInt64) : Nat → Hash → Go Hash
  | 0, _ => .error .diverges
  | fuel + 1, parentHeaderHash => do
      let bm ← db.getBlockMetaData parentHeaderHash
      if bm.slotNumber = 0 then
        pure (if epoch = 0 then bm.parentHeaderHash else bm.headerHash)
      else if epochOf bm.slotNumber = epoch then
        prevEpochLastHash epoch fuel bm.parentHeaderHash
      else pure bm.headerHash

/-- `db.Get(GetEpochMetaDataKey(epoch, hash))`. -/
def lookupEpochMetaData (epoch : UInt64) (prevHash : Hash) : Go EpochMetaData :=
  Outcome.orFail (.error (.notFound .epochMetaData prevHash))
    (db.epochMetaData.get (epoch, prevHash))

def getEpochMetaData (currentBlockSlotNumber : UInt64) (parentHeaderHash : Hash) :
    Go EpochMetaData :=
  if currentBlockSlotNumber = 0 then db.lookupEpochMetaData 0 parentHeaderHash
  else do
    let epoch := epochOf currentBlockSlotNumber
    let prevHash ← db.prevEpochLastHash epoch db.walkFuel parentHeaderHash
    db.lookupEpochMetaData epoch prevHash

end Store

end Zond
