import Zond.Core.Chain
import Zond.Lib.Rlp

/-!
# Reading Receipts Back

Of a receipt only the status, the gas used so far and what the logs say is stored;
where it stands is worked out again from the block, its neighbours and its transaction.

## Main definitions

* `getReceiptsByHash`, `getLogsByHash`: What a client gets for a block.
* `deriveFields`: The part that is worked out again.
-/

namespace Zond

/-- `LogForStorage.EncodeRLP` and `Log.EncodeRLP`. -/
def Log.encodeRLP (l : Log) : Rlp.Item :=
  .list [.string l.address.val, .list (l.topics.map (fun t => .string t.val)), .string l.data]

/-- A log before its location is filled in. -/
def unlocatedLog (address : Address) (topics : List Hash) (data : List UInt8) : Log :=
  { address := address, topics := topics, data := data, blockNumber := 0, txHash := zeroHash
    txIndex := 0, blockHash := zeroHash, index := 0 }

/-- The three fields both forms of a log start with. -/
def decodeLogHead (address topics data : Rlp.Item) : Option Log := do
  let address ← address.toArray? 20
  let topics ← topics.toListOf? (fun t => t.toArray? 32)
  let data ← data.toBytes?
  pure (unlocatedLog address topics data)

/-- `LogForStorage.DecodeRLP`: `rlpLog`, or `legacyRlpStorageLog`, whose location is read
    but not kept. -/
def decodeLog : Rlp.Item → Option Log
  | .list [address, topics, data] => decodeLogHead address topics data
  | .list [address, topics, data, blockNumber, txHash, txIndex, blockHash, index] => do
      let log ← decodeLogHead address topics data
      let _ ← blockNumber.toUint64?
      let _ ← txHash.toArray? 32
      let _ ← txIndex.toUint64?
      let _ ← blockHash.toArray? 32
      let _ ← index.toUint64?
      pure log
  | _ => none

/-- `Receipt.statusEncoding`, without a post-state root. -/
def statusEncoding (status : Bool) : List UInt8 := if status then [1] else []

/-- `Receipt.setStatus`: of a receipt with a root the status stays at failed. -/
def setStatus : List UInt8 → Option Bool
  | [1] => some true
  | [] => some false
  | root => if root.length = 32 then some false else none

def Receipt.encodeRLP (r : Receipt) : Rlp.Item :=
  .list [.string (statusEncoding r.status), Rlp.ofNat r.cumulativeGasUsed.toNat,
    .list (r.logs.map Log.encodeRLP)]

/-- A receipt as it is read, before `DeriveFields`. The fields after the logs come from the
    older forms only. -/
structure StoredReceipt where
  status : Bool
  cumulativeGasUsed : UInt64
  bloom : Bloom
  logs : List Log
  txHash : Hash
  contractAddress : Address
  gasUsed : UInt64
deriving DecidableEq

section Decoding

variable (c : Crypto)

def decodeStoredReceiptRLP : Rlp.Item → Option StoredReceipt
  | .list [status, cumulativeGasUsed, logs] => do
      let status ← status.toBytes?.bind setStatus
      let cumulativeGasUsed ← cumulativeGasUsed.toUint64?
      let logs ← logs.toListOf? decodeLog
      pure { status := status, cumulativeGasUsed := cumulativeGasUsed
             bloom := createBloom c [logs], logs := logs, txHash := zeroHash
             contractAddress := zeroAddress, gasUsed := 0 }
  | _ => none

/-- `decodeV3StoredReceiptRLP`, the one form that has the filter. -/
def decodeV3StoredReceiptRLP : Rlp.Item → Option StoredReceipt
  | .list [status, cumulativeGasUsed, bloom, txHash, contractAddress, logs, gasUsed] => do
      let status ← status.toBytes?.bind setStatus
      let cumulativeGasUsed ← cumulativeGasUsed.toUint64?
      let bloom ← bloom.toArray? 256
      let txHash ← txHash.toArray? 32
      let contractAddress ← contractAddress.toArray? 20
      let logs ← logs.toListOf? decodeLog
      let gasUsed ← gasUsed.toUint64?
      pure { status := status, cumulativeGasUsed := cumulativeGasUsed, bloom := bloom
             logs := logs, txHash := txHash, contractAddress := contractAddress
             gasUsed := gasUsed }
  | _ => none

def decodeV4StoredReceiptRLP : Rlp.Item → Option StoredReceipt
  | .list [status, cumulativeGasUsed, txHash, contractAddress, logs, gasUsed] => do
      let status ← status.toBytes?.bind setStatus
      let cumulativeGasUsed ← cumulativeGasUsed.toUint64?
      let txHash ← txHash.toArray? 32
      let contractAddress ← contractAddress.toArray? 20
      let logs ← logs.toListOf? decodeLog
      let gasUsed ← gasUsed.toUint64?
      pure { status := status, cumulativeGasUsed := cumulativeGasUsed
             bloom := createBloom c [logs], logs := logs, txHash := txHash
             contractAddress := contractAddress, gasUsed := gasUsed }
  | _ => none

/-- `ReceiptForStorage.DecodeRLP`: the newest form first, the unreleased one last. -/
def decodeReceipt (i : Rlp.Item) : Option StoredReceipt :=
  ((decodeStoredReceiptRLP c i).or (decodeV3StoredReceiptRLP i)).or (decodeV4StoredReceiptRLP c i)

end Decoding

/-- `receiptLogs.DecodeRLP`: the newest form only, and any status. -/
def decodeReceiptLogs : Rlp.Item → Option (List Log)
  | .list [status, cumulativeGasUsed, logs] => do
      let _ ← status.toBytes?
      let _ ← cumulativeGasUsed.toUint64?
      logs.toListOf? decodeLog
  | _ => none

/-- `metadata.GetBlockReceipts`: the bytes `receiptsToByteReceipts` made. There is at least
    the head of a list in them. -/
def Store.getBlockReceipts (db : Store) (headerHash : Hash) (slotNumber : UInt64)
    (isProtocolTxReceipt : Bool) : Option Rlp.Item :=
  (db.blockReceipts.get (headerHash, slotNumber, isProtocolTxReceipt)).map
    (fun receipts => .list (receipts.map Receipt.encodeRLP))

structure TxDescription where
  type : TxType
  txHash : Hash
  /-- The address of the contract a transfer without recipient creates. -/
  created : Option Address

/-- What `DeriveFieldsForTransactions` reads of a transaction. The message comes from the
    store, where a recipient without bytes is absent. -/
def Transaction.describe (ext : Externals) : Transaction → Go TxDescription
  | .transfer tx => .ok
      { type := .transfer, txHash := tx.hash
        created := match tx.toAddr with
          | none => some (ext.createAddress (ext.getAddressFromUnSizedPK tx.pk) tx.nonce)
          | some _ => none }
  | .stake tx => .ok { type := .stake, txHash := tx.hash, created := none }
  | .unknown _ => .error (.panic .unexpectedKind)

def ProtocolTransaction.describe : ProtocolTransaction → Go TxDescription
  | .coinBase tx => .ok { type := .coinBase, txHash := tx.hash, created := none }
  | .attest tx => .ok { type := .attest, txHash := tx.hash, created := none }
  | .unknown _ => .error (.panic .unexpectedKind)

section Deriving

variable (hash : Hash) (number : UInt64)

/-- The innermost loop of all derivations: where each log of a transaction stands, when
    `logIndex` logs stand before them. -/
def deriveLogs (txHash : Hash) (i logIndex : Nat) (logs : List Log) : List Log :=
  logs.mapIdx (fun j l => { l with
    blockNumber := number, blockHash := hash, txHash := txHash, txIndex := i
    index := logIndex + j })

/-- What the loops of `DeriveFields` carry: the receipts done, the gas used up to the last of
    them and the number of their logs. -/
structure Derivation where
  receipts : List Receipt
  cumulativeGasUsed : UInt64
  logIndex : Nat

/-- One receipt of `DeriveFields`. -/
def deriveReceipt (d : Derivation) (i : Nat) (r : StoredReceipt) (tx : TxDescription) : Receipt :=
  { type := tx.type
    status := r.status
    cumulativeGasUsed := r.cumulativeGasUsed
    bloom := r.bloom
    logs := deriveLogs hash number tx.txHash i d.logIndex r.logs
    txHash := tx.txHash
    contractAddress := tx.created.getD r.contractAddress
    gasUsed := if i = 0 then r.cumulativeGasUsed else r.cumulativeGasUsed - d.cumulativeGasUsed
    blockHash := hash
    blockNumber := number.toNat
    transactionIndex := i }

variable {α : Type} (describe : α → Go TxDescription)

def deriveStep (d : Derivation) (x : (StoredReceipt × α) × Nat) : Go Derivation := do
  let tx ← describe x.1.2
  pure { receipts := d.receipts ++ [deriveReceipt hash number d x.2 x.1.1 tx]
         cumulativeGasUsed := x.1.1.cumulativeGasUsed
         logIndex := d.logIndex + x.1.1.logs.length }

/-- The loops of `DeriveFields`, from the first receipt on. -/
def deriveLoop (l : List (StoredReceipt × α)) : Go Derivation :=
  l.zipIdx.foldlM (deriveStep hash number describe)
    { receipts := [], cumulativeGasUsed := 0, logIndex := 0 }

/-- `DeriveFieldsForTransactions` and `DeriveFieldsForProtocolTransactions`, which refuse
    lists of different lengths. -/
def deriveFields (receipts : List StoredReceipt) (txs : List α) : Go (Option (List Receipt)) :=
  if txs.length ≠ receipts.length then .ok none
  else do
    let d ← deriveLoop hash number describe (receipts.zip txs)
    pure (some d.receipts)

/-- The body of the loop of `deriveLogFieldsForTransactions`. -/
def deriveLogStep (d : List (List Log) × Nat) (x : (List Log × Transaction) × Nat) :
    List (List Log) × Nat :=
  (d.1 ++ [deriveLogs hash number x.1.2.base.hash x.2 d.2 x.1.1], d.2 + x.1.1.length)

def deriveLogFieldsForTransactions (logs : List (List Log)) (txs : List Transaction) :
    Option (List (List Log)) :=
  if txs.length ≠ logs.length then none
  else some ((logs.zip txs).zipIdx.foldl (deriveLogStep hash number) ([], 0)).1

end Deriving

def readLogsFromReceiptsRLPData (data : Rlp.Item) (hash : Hash) (number : UInt64)
    (txs : List Transaction) : Option (List (List Log)) :=
  (data.toListOf? decodeReceiptLogs).bind
    (fun logs => deriveLogFieldsForTransactions hash number logs txs)

/-- `Chain.GetReceiptsByHash`: nothing when a record is missing or cannot be read. -/
def getReceiptsByHash (ext : Externals) (db : Store) (headerHash : Hash)
    (isProtocolTransaction : Bool) : Go (Option (List Receipt)) :=
  match db.blocks.get headerHash with
  | none => .ok none
  | some b =>
    match (db.getBlockReceipts headerHash b.slotNumber isProtocolTransaction).bind
      (fun data => data.toListOf? (decodeReceipt ext.toCrypto)) with
    | none => .ok none
    | some receipts =>
      if isProtocolTransaction then
        deriveFields headerHash b.slotNumber ProtocolTransaction.describe receipts
          b.protocolTransactions
      else
        deriveFields headerHash b.slotNumber (Transaction.describe ext) receipts
          b.transactions

/-- `Chain.GetLogsByHash`. A missing record is an error, and there is no outer result; logs
    that cannot be read are a nil result. -/
def getLogsByHash (db : Store) (headerHash : Hash) : Option (Option (List (List Log))) := do
  let b ← db.blocks.get headerHash
  let data ← db.getBlockReceipts headerHash b.slotNumber false
  pure (readLogsFromReceiptsRLPData data b.hash b.slotNumber b.transactions)

end Zond
