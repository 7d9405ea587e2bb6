import Zond.Core.Pos

/-!
# Transaction Counts over RPC

For the pending block the answer comes from the pool and, where the pool knows nothing
of the address, from the state of the last block; for any other block from its state.

## Main definitions

* `getTransactionCount`: What a caller asks for the nonce of the next transaction.
-/

namespace Zond

/-- `rpc.BlockNumberOrHash`. Negative numbers are tags. `RequireCanonical` is not read. -/
structure BlockNumberOrHash where
  blockNumber : Option Int
  blockHash : Option Hash
deriving DecidableEq

def pendingBlockNumber : Int := -2

def BlockNumberOrHash.pending : BlockNumberOrHash :=
  { blockNumber := some pendingBlockNumber, blockHash := none }

namespace Chain

variable (c : Chain)

/-- `Chain.GetNonce`: the last nonce in the pool, or the next one of the state. -/
def getNonce (txPool : TransactionPool) (address : Address) : Go UInt64 :=
  match txPool.getNonceByAddress address with
  | some nonce => .ok nonce
  | none => do
      let statedb ← c.accountDB
      pure (statedb.getNonce address)

/-- The state part of `ZondAPIBackend.StateAndHeaderByNumber`. Tags and numbers past the last
    block stand for it. -/
def stateByNumber (number : Int) : Go StateDB := do
  let last := int64 c.lastBlock.slotNumber
  let number := if last < number ∨ number < 0 then last else number
  let b ← Outcome.orFail (.error .headerNotFound) (c.db.getBlockByNumber (UInt64.ofInt number))
  let bm ← c.db.getBlockMetaData b.hash
  openState c.tries bm.trieRoot

/-- The state part of `ZondAPIBackend.StateAndHeaderByNumberOrHash`. -/
def stateByNumberOrHash (blockNrOrHash : BlockNumberOrHash) : Go StateDB :=
  match blockNrOrHash.blockNumber, blockNrOrHash.blockHash with
  | some number, _ => c.stateByNumber number
  | none, some hash => do
      let b ← c.db.getBlock hash
      let bm ← c.db.getBlockMetaData b.hash
      openState c.tries bm.trieRoot
  | none, none => .error (.error .neitherBlockNorHash)

/-- `TransactionAPI.GetTransactionCount`, through `ZondAPIBackend.GetPoolNonce` for the pending
    block. One is added to what comes back from there. -/
def getTransactionCount (txPool : TransactionPool) (address : Address)
    (blockNrOrHash : BlockNumberOrHash) : Go UInt64 :=
  if blockNrOrHash.blockNumber = some pendingBlockNumber then do
    let nonce ← c.getNonce txPool address
    pure (nonce + 1)
  else do
    let statedb ← c.stateByNumberOrHash blockNrOrHash
    pure (statedb.getNonce address)

end Chain

end Zond
