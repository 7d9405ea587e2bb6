import Zond.Core.Store
import Zond.Lib.Text

/-!
# The Bucket Behind the Store

Every record of the node lies in one bbolt bucket, under a key that is printed from
the kind of the record and its identifier. Nothing but the text of the keys keeps the
kinds apart.

Writer and reader each print their key. They agree for every kind but one:
`ProtocolTransactionMetaData.Commit` prints the key of a `TransactionMetaData`,
while `GetProtocolTransactionMetaData` prints a key of its own.

## Main definitions

* `Bucket.commit`: Serialise a record and put it under the key its writer prints.
* `Bucket.read`: Look the reader's key up and deserialise what is there.
-/

namespace Zond

/-- `TransactionMetaData` and `ProtocolTransactionMetaData` as their writers hold
    them, over the transaction type of each. -/
structure TxRecord (τ : Type) where
  blockHash : Hash
  blockNumber : UInt64
  index : UInt64
  transaction : τ
deriving DecidableEq

/-- `misc.BytesToHexStr` of a hash, and equally `Hash.Format` with `%s`. -/
def bytesToHexStr (h : Hash) : List Char := '0' :: 'x' :: Text.hex h.val

/-- `%d` of a `uint64`, and equally `strconv.FormatUint`. -/
def formatUint (n : UInt64) : List Char := Text.decimal n.toNat

def getMainChainMetaDataKey : List Char := "MAIN-CHAIN-META-DATA".toList

def getBlockMetaDataKey (headerHash : Hash) : List Char :=
  "BLOCK-META-DATA-".toList ++ bytesToHexStr headerHash

def getEpochMetaDataKey (epoch : UInt64) (prevSlotLastBlockHeaderHash : Hash) : List Char :=
  "EPOCH-META-DATA-".toList ++ (formatUint epoch ++ '-' :: bytesToHexStr prevSlotLastBlockHeaderHash)

def getEpochBlockHashesKey (epoch : UInt64) : List Char :=
  "EPOCH-BLOCK-HASHES-META-DATA-".toList ++ formatUint epoch

def getTransactionMetaDataKey (txHash : Hash) : List Char :=
  "TX-META-DATA-".toList ++ bytesToHexStr txHash

def getProtocolTransactionMetaDataKey (txHash : Hash) : List Char :=
  "PROTOCOL-TX-META-DATA-".toList ++ bytesToHexStr txHash

def getBlockStorageKey (blockHeaderHash : Hash) : List Char :=
  "BLOCK-".toList ++ bytesToHexStr blockHeaderHash

def getBlockReceiptsKey (headerHash : Hash) (blockNumber : UInt64) (isProtocolTxReceipt : Bool) :
    List Char :=
  (if isProtocolTxReceipt then "BLOCK-PROTOCOL-TX-RECEIPTS-".toList
    else "BLOCK-TX-RECEIPTS-".toList) ++ (bytesToHexStr headerHash ++ '-' :: formatUint blockNumber)

def getBlockHashStorageKeyBySlotNumber (slotNumber : UInt64) : List Char := formatUint slotNumber

/-- The key `Commit` puts the state root of a new head under. -/
def mainChainHeadTrieRootKey : List Char := "mainchain-head-trie-root".toList

/-- The records that share the bucket. -/
inductive Kind where
  | mainChainMetaData
  | blockMetaData
  | epochMetaData
  | epochBlockHashes
  | transactionMetaData
  | protocolTransactionMetaData
  | block
  | blockReceipts (isProtocolTxReceipt : Bool)
  | blockHashBySlotNumber
  | mainChainHeadTrieRoot
deriving DecidableEq, Repr

namespace Kind

def Ident : Kind → Type
  | mainChainMetaData | mainChainHeadTrieRoot => Unit
  | blockMetaData | transactionMetaData | protocolTransactionMetaData | block => Hash
  | epochMetaData => UInt64 × Hash
  | epochBlockHashes | blockHashBySlotNumber => UInt64
  | blockReceipts _ => Hash × UInt64

instance : (k : Kind) → DecidableEq k.Ident
  | mainChainMetaData | mainChainHeadTrieRoot => inferInstanceAs (DecidableEq Unit)
  | blockMetaData | transactionMetaData | protocolTransactionMetaData | block =>
    inferInstanceAs (DecidableEq Hash)
  | epochMetaData => inferInstanceAs (DecidableEq (UInt64 × Hash))
  | epochBlockHashes | blockHashBySlotNumber => inferInstanceAs (DecidableEq UInt64)
  | blockReceipts _ => inferInstanceAs (DecidableEq (Hash × UInt64))

/-- What a record of the kind holds. The receipts of a block are one byte string. -/
def Value : Kind → Type
  | mainChainMetaData => MainChainMetaData
  | blockMetaData => BlockMetaData
  | epochMetaData => EpochMetaData
  | epochBlockHashes => EpochBlockHashes
  | transactionMetaData => TxRecord Transaction
  | protocolTransactionMetaData => TxRecord ProtocolTransaction
  | block => Block
  | blockReceipts _ => List UInt8
  | blockHashBySlotNumber | mainChainHeadTrieRoot => Hash

def key : (k : Kind) → k.Ident → List Char
  | mainChainMetaData, () => getMainChainMetaDataKey
  | blockMetaData, h => getBlockMetaDataKey h
  | epochMetaData, (epoch, h) => getEpochMetaDataKey epoch h
  | epochBlockHashes, epoch => getEpochBlockHashesKey epoch
  | transactionMetaData, h => getTransactionMetaDataKey h
  | protocolTransactionMetaData, h => getProtocolTransactionMetaDataKey h
  | block, h => getBlockStorageKey h
  | blockReceipts isProtocol, (h, n) => getBlockReceiptsKey h n isProtocol
  | blockHashBySlotNumber, n => getBlockHashStorageKeyBySlotNumber n
  | mainChainHeadTrieRoot, () => mainChainHeadTrieRootKey

/-- The record after it was serialised and deserialised. -/
def stored : (k : Kind) → k.Value → k.Value
  | epochMetaData, e => EpochMetaData.stored e
  | mainChainMetaData, v | blockMetaData, v | epochBlockHashes, v | transactionMetaData, v
  | protocolTransactionMetaData, v | block, v | blockReceipts _, v | blockHashBySlotNumber, v
  | mainChainHeadTrieRoot, v => v

end Kind

inductive Commit where
  | mainChainMetaData (m : MainChainMetaData)
  | blockMetaData (bm : BlockMetaData)
  | epochMetaData (e : EpochMetaData)
  | epochBlockHashes (e : EpochBlockHashes)
  | transactionMetaData (t : TxRecord Transaction)
  | protocolTransactionMetaData (t : TxRecord ProtocolTransaction)
  | block (b : Block)
  | blockReceipts (b : Block) (isProtocolTxReceipt : Bool) (receipts : List UInt8)
  | blockHashBySlotNumber (slotNumber : UInt64) (blockHeaderHash : Hash)
  | mainChainHeadTrieRoot (trieRoot : Hash)

namespace Commit

def kind : Commit → Kind
  | mainChainMetaData _ => .mainChainMetaData
  | blockMetaData _ => .blockMetaData
  | epochMetaData _ => .epochMetaData
  | epochBlockHashes _ => .epochBlockHashes
  | transactionMetaData _ => .transactionMetaData
  | protocolTransactionMetaData _ => .protocolTransactionMetaData
  | block _ => .block
  | blockReceipts _ isProtocol _ => .blockReceipts isProtocol
  | blockHashBySlotNumber _ _ => .blockHashBySlotNumber
  | mainChainHeadTrieRoot _ => .mainChainHeadTrieRoot

def ident : (c : Commit) → c.kind.Ident
  | mainChainMetaData _ | mainChainHeadTrieRoot _ => ()
  | blockMetaData bm => bm.headerHash
  | epochMetaData e => (e.epoch, e.prevSlotLastBlockHeaderHash)
  | epochBlockHashes e => e.epoch
  | transactionMetaData t => t.transaction.base.hash
  | protocolTransactionMetaData t => t.transaction.base.hash
  | block b => b.hash
  | blockReceipts b _ _ => (b.hash, b.slotNumber)
  | blockHashBySlotNumber n _ => n

def value : (c : Commit) → c.kind.Value
  | mainChainMetaData m => m
  | blockMetaData bm => bm
  | epochMetaData e => e
  | epochBlockHashes e => e
  | transactionMetaData t => t
  | protocolTransactionMetaData t => t
  | block b => b
  | blockReceipts _ _ receipts => receipts
  | blockHashBySlotNumber _ h => h
  | mainChainHeadTrieRoot h => h

/-- The key the writer puts the record under. A `ProtocolTransactionMetaData` goes
    under the key of a `TransactionMetaData`. -/
def key : Commit → List Char
  | mainChainMetaData _ => getMainChainMetaDataKey
  | blockMetaData bm => getBlockMetaDataKey bm.headerHash
  | epochMetaData e => getEpochMetaDataKey e.epoch e.prevSlotLastBlockHeaderHash
  | epochBlockHashes e => getEpochBlockHashesKey e.epoch
  | transactionMetaData t => getTransactionMetaDataKey t.transaction.base.hash
  | protocolTransactionMetaData t => getTransactionMetaDataKey t.transaction.base.hash
  | block b => getBlockStorageKey b.hash
  | blockReceipts b isProtocol _ => getBlockReceiptsKey b.hash b.slotNumber isProtocol
  | blockHashBySlotNumber n _ => getBlockHashStorageKeyBySlotNumber n
  | mainChainHeadTrieRoot _ => mainChainHeadTrieRootKey

end Commit

/-- Serialisation of every kind into data `D`: whatever was written reads back. -/
structure Format (D : Type) where
  serialize : (k : Kind) → k.Value → D
  deSerialize : (k : Kind) → D → Option k.Value
  deSerialize_serialize : ∀ k v, deSerialize k (serialize k v) = some (k.stored v)

/-- Data that carry the kind they were written as. -/
def Format.tagged : Format ((k : Kind) × k.Value) where
  serialize k v := ⟨k, k.stored v⟩
  deSerialize k d := if h : d.1 = k then some (h ▸ d.2) else none
  deSerialize_serialize _ _ := dif_pos rfl

abbrev Bucket (D : Type) := AssocMap (List Char) D

/-- What a reader hands back: the record, or one of the two errors. -/
inductive Lookup (α : Type) where
  | notFound
  | malformed
  | found (v : α)
deriving DecidableEq

/-- What `DeSerialize` makes of data that were found. -/
def Lookup.ofDecoded {α : Type} : Option α → Lookup α
  | none => malformed
  | some v => found v

/-- What a reader of a typed map would hand back. -/
def Lookup.ofOption {α : Type} : Option α → Lookup α
  | none => notFound
  | some v => found v

namespace Bucket

variable {D : Type}

def commit (f : Format D) (bk : Bucket D) (c : Commit) : Bucket D :=
  bk.put c.key (f.serialize c.kind c.value)

def ofCommits (f : Format D) (cs : List Commit) : Bucket D :=
  cs.foldl (commit f) AssocMap.empty

/-- `Get…`: look the key up and deserialise what is there. -/
def read (f : Format D) (bk : Bucket D) (k : Kind) (x : k.Ident) : Lookup k.Value :=
  match bk.get (k.key x) with
  | none => .notFound
  | some d => .ofDecoded (f.deSerialize k d)

end Bucket

/-- The record a commit gives kind `k` and identifier `x`, if it is about them. -/
def Commit.recordOf (c : Commit) (k : Kind) (x : k.Ident) : Option k.Value :=
  if h : c.kind = k then if h ▸ c.ident = x then some (h ▸ c.value) else none else none

/-- The typed map of kind `k` at `x`: the record of the last commit about them. -/
def lastCommit (cs : List Commit) (k : Kind) (x : k.Ident) : Option k.Value :=
  cs.reverse.findSome? (fun c => c.recordOf k x)

end Zond
