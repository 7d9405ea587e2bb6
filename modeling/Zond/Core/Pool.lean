import Zond.Lib.AssocMap
import Zond.Core.Transaction

/-!
# The Transaction Pool

The transactions a node waits to put into a block. Every priority is zero and nothing
sorts the queue, so the pool is a stack. Beside it stands the highest nonce seen of each
sender. `Add` and `Push` test everything before they write.

## Main definitions

* `TransactionPool`: The queue and the nonces.
* `TransactionPool.add`, `TransactionPool.pop`: Append, and take the last one.
* `PoolReached`: The pools that calls lead to.
-/

namespace Zond

def Transaction.addrFrom (c : Crypto) : Transaction → Go Address
  | transfer tx => tx.toTxBase.addrFrom c
  | stake tx => tx.toTxBase.addrFrom c
  | unknown _ => .error (.panic .nilDereference)

/-- `TransactionInfo`. The queue index and the priority, which is always zero, are
    not kept. -/
structure TransactionInfo where
  tx : Transaction
  txHash : Hash
  blockNumber : UInt64
  timestamp : UInt64
deriving DecidableEq

/-- `TransactionPool`, with the queue in slice order. -/
structure TransactionPool where
  txPool : List TransactionInfo
  nonce : AssocMap Address UInt64

def createTransactionPool : TransactionPool := { txPool := [], nonce := AssocMap.empty }

variable (c : Crypto)

/-- The body of the loop of `PriorityQueue.Push`: one entry against the new one. -/
def TransactionInfo.checkClash (isValidXMSS : Bool) (newTi ti : TransactionInfo) : Go Unit := do
  errorIf (ti.txHash = newTi.txHash) .transactionAlreadyInPool
  if isValidXMSS = true ∧ ti.tx.base.pk = newTi.tx.base.pk then do
    let otsIndex ← ti.tx.base.otsIndex
    let newOtsIndex ← newTi.tx.base.otsIndex
    errorIf (otsIndex = newOtsIndex) .otsKeyAlreadyInPool
  else pure ()

namespace TransactionPool

def push (queue : List TransactionInfo) (newTi : TransactionInfo) : Go (List TransactionInfo) := do
  let addrFrom ← newTi.tx.addrFrom c
  queue.forM (newTi.checkClash (c.isValidXMSSAddress addrFrom))
  pure (queue ++ [newTi])

def addNonceData (t : TransactionPool) (pk : List UInt8) (nonce : UInt64) : TransactionPool :=
  let address := c.getAddressFromUnSizedPK pk
  match t.nonce.get address with
  | none => { t with nonce := t.nonce.put address nonce }
  | some currentNonce =>
    if currentNonce < nonce then { t with nonce := t.nonce.put address nonce } else t

def deleteNonceData (t : TransactionPool) (pk : List UInt8) (nonce : UInt64) : TransactionPool :=
  let address := c.getAddressFromUnSizedPK pk
  if t.nonce.get address = some nonce then { t with nonce := t.nonce.erase address } else t

/-- `TransactionPool.Add`. A timestamp of zero stands for the network time. -/
def add (t : TransactionPool) (tx : Transaction) (txHash : Hash)
    (slotNumber timestamp time : UInt64) : Go TransactionPool := do
  errorIf (Config.transactionPoolSize < t.txPool.length) .transactionPoolFull
  let queue ← push c t.txPool
    { tx := tx, txHash := txHash, blockNumber := slotNumber
      timestamp := if timestamp = 0 then time else timestamp }
  pure ({ t with txPool := queue }.addNonceData c tx.base.pk tx.base.nonce)

def pop (t : TransactionPool) : Option (TransactionInfo × TransactionPool) :=
  t.txPool.getLast?.map (fun ti =>
    (ti, { t with txPool := t.txPool.dropLast }.deleteNonceData c ti.tx.base.pk
      ti.tx.base.nonce))

/-- `TransactionPool.AddTxFromBlock` on the block's transactions: the pool after the
    call, and the error it returns. What was added before an error stays. -/
def addTxFromBlock (currentBlockHeight time : UInt64) :
    List Transaction → TransactionPool → Go (TransactionPool × Option Err)
  | [], t => .ok (t, none)
  | tx :: rest, t => do
      let txHash ← tx.hash
      match t.add c tx txHash currentBlockHeight time time with
      | .ok t =>
        addTxFromBlock currentBlockHeight time rest
          (t.addNonceData c tx.base.pk tx.base.nonce)
      | .error (.error e) => pure (t, some e)
      | .error f => .error f

/-- `PriorityQueue.Remove`, on a queue that has the hash: the first entry with it goes. -/
def removeHash (queue : List TransactionInfo) (txHash : Hash) : List TransactionInfo :=
  queue.eraseP (fun ti => ti.txHash = txHash)

/-- `TransactionPool.Remove`: the nonce is dropped when the transaction was not there. The
    interface of a transaction without a kind is nil. -/
def remove (t : TransactionPool) (tx : Transaction) (txHash : Hash) : Go (Bool × TransactionPool) :=
  if ∃ ti ∈ t.txPool, ti.txHash = txHash then
    .ok (true, { t with txPool := removeHash t.txPool txHash })
  else match tx with
    | .unknown _ => .error (.panic .nilDereference)
    | tx => .ok (false, t.deleteNonceData c tx.base.pk tx.base.nonce)

/-- The loop of `PriorityQueue.RemoveTxInBlock`. -/
def removeHashes (queue : List TransactionInfo) (txs : List Transaction) :
    Go (List TransactionInfo) :=
  txs.foldlM (fun queue tx => do
    let txHash ← tx.hash
    pure (removeHash queue txHash)) queue

/-- `TransactionPool.RemoveTxInBlock` on the block's transactions: the nonces of all of them
    are dropped, whether they were there or not. -/
def removeTxInBlock (t : TransactionPool) (txs : List Transaction) : Go TransactionPool := do
  let queue ← removeHashes t.txPool txs
  pure (txs.foldl (fun t tx => t.deleteNonceData c tx.base.pk tx.base.nonce)
    { t with txPool := queue })

def getNonceByAddress (t : TransactionPool) (address : Address) : Option UInt64 :=
  t.nonce.get address

end TransactionPool

/-- The calls that change the pool. `time` is what the network time is at the call. -/
inductive PoolOp where
  | add (tx : Transaction) (txHash : Hash) (slotNumber timestamp time : UInt64)
  | pop
  | remove (tx : Transaction) (txHash : Hash)
  | removeTxInBlock (txs : List Transaction)
  | addTxFromBlock (txs : List Transaction) (currentBlockHeight time : UInt64)

/-- The pool after a call that returns. A returned error leaves it as it is. -/
def TransactionPool.perform (t : TransactionPool) : PoolOp → Go TransactionPool
  | .add tx txHash slotNumber timestamp time =>
    match t.add c tx txHash slotNumber timestamp time with
    | .error (.error _) => .ok t
    | r => r
  | .pop => .ok (match t.pop c with
      | some (_, t') => t'
      | none => t)
  | .remove tx txHash => (t.remove c tx txHash).map Prod.snd
  | .removeTxInBlock txs => t.removeTxInBlock c txs
  | .addTxFromBlock txs currentBlockHeight time =>
    (addTxFromBlock c currentBlockHeight time txs t).map Prod.fst

/-- The pools that calls which meet `P` lead to, from a fresh one. -/
inductive PoolReached (P : TransactionPool → PoolOp → Prop) : TransactionPool → Prop where
  | fresh : PoolReached P createTransactionPool
  | step {t t' : TransactionPool} {op : PoolOp} : PoolReached P t → P t op →
      t.perform c op = .ok t' → PoolReached P t'

end Zond
