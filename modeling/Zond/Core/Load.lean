import Zond.Core.Chain

/-!
# Loading a Chain

A store without a `MainChainMetaData` record is initialised from the genesis block and
the pre-state that ship with the node; any other store is taken as it is.

Initialising writes three times. The first transaction puts the main chain record,
with zero hashes, and a record for the hash genesis names as its parent. Then the
genesis block is checked and executed, its state trie is written, and the last
transaction puts the records of the block. An error between the writes leaves what
was written.

## Main definitions

* `load`: `Chain.Load` on whatever the last attempt has left behind.
* `LoadPoint`: Where it can fail.
-/

namespace Zond

/-- Where a load can fail, the checks of the genesis block apart. -/
inductive LoadPoint where
  | openDatabase
  | openState
  | readGenesisBlock
  | readPreState
  | preStateUpdate
  | stateCommit
  | trieCommit
  | commitUpdate
deriving DecidableEq, Repr

inductive LoadErr where
  | fault (p : LoadPoint)
  | failure (f : Failure)
deriving DecidableEq

structure Disk where
  db : Store
  tries : Tries

def Disk.fresh : Disk := { db := Store.empty, tries := AssocMap.empty }

def preStateCommit (b : Block) (db : Store) : Store :=
  (db.putMainChainMetaData
    { finalizedBlockHeaderHash := zeroHash, finalizedBlockSlotNumber := 0
      lastBlockHeaderHash := zeroHash, lastBlockSlotNumber := 0 }).putBlockMetaData
    (BlockMetaData.new zeroHash b.parentHash 0 0 zeroHash)

variable (ext : Externals)

/-- What `Load` computes of the genesis block between the two transactions: the balances,
    the context, the checks and effects of its transactions and the first epoch. -/
def genesisExec (b : Block) (preState : List (List UInt8 × UInt64)) (db : Store) :
    Go ExecState := do
  let s ← genesisPreState ext b preState
  let first ← b.firstProtocolTx
  let partialHash ← b.partialBlockSigningHash ext.toCrypto
  let signingHash ← b.blockSigningHash ext.toCrypto
  let ctx ← StateContext.new db (bigUint64 b.header.number) b.parentHash b.hash partialHash
    signingHash (genesisEpochMetaData b first.pk)
  let ctx := ctx.prepareValidators first.pk
  let validators ← SlotValidatorsMetaData.new b.slotNumber ctx.epochMetaData
  let (env, st) ← newExec ext b db.getBlockHashBySlotNumber b.slotNumber s ctx validators true
  let st ← processTransactions ext env st
  let (s, e) ← genesisEpoch ext b st.statedb st.ctx.epochMetaData
  pure { st with statedb := s, ctx := { st.ctx with epochMetaData := e } }

/-- The genesis part of `Load`, from the first transaction on: the error if there is one,
    and the disk. -/
def loadGenesis (faults : LoadPoint → Bool) (b : Block) (preState : List (List UInt8 × UInt64))
    (disk : Disk) : Option LoadErr × Disk :=
  if faults .preStateUpdate then (some (.fault .preStateUpdate), disk)
  else
    let disk := { disk with db := preStateCommit b disk.db }
    match genesisExec ext b preState disk.db with
    | .error f => (some (.failure f), disk)
    | .ok st =>
      if faults .stateCommit then (some (.fault .stateCommit), disk)
      else if faults .trieCommit then (some (.fault .trieCommit), disk)
      else
        let trie := st.statedb.finalise.commit
        let trieRoot := ext.stateRoot trie.get
        let disk := { disk with tries := disk.tries.putNew trieRoot trie }
        let b := b.updateRoots trieRoot
          (createBloom ext.toCrypto (st.protocolTxReceipts.map Receipt.logs))
          (createBloom ext.toCrypto (st.txReceipts.map Receipt.logs))
        match commit st.ctx b st.protocolTxReceipts st.txReceipts trieRoot true disk.db with
        | .error f => (some (.failure f), disk)
        | .ok (_, db) =>
          if faults .commitUpdate then (some (.fault .commitUpdate), disk)
          else (none, { disk with db := db })

/-- The end of `Load`: the block the main chain record names. -/
def loadLast (disk : Disk) : Except LoadErr Chain :=
  let last : Go Chain := do
    let m ← disk.db.getMainChainMetaData
    let lastBlock ← disk.db.getBlock m.lastBlockHeaderHash
    pure { db := disk.db, tries := disk.tries, lastBlock := lastBlock }
  match last with
  | .ok c => .ok c
  | .error f => .error (.failure f)

def load (faults : LoadPoint → Bool) (b : Block) (preState : List (List UInt8 × UInt64))
    (disk : Disk) : Except LoadErr Chain × Disk :=
  if faults .openDatabase then (.error (.fault .openDatabase), disk)
  else
    match disk.db.mainChainMetaData with
    | some _ => (loadLast disk, disk)
    | none =>
      if faults .openState then (.error (.fault .openState), disk)
      else if faults .readGenesisBlock then (.error (.fault .readGenesisBlock), disk)
      else if faults .readPreState then (.error (.fault .readPreState), disk)
      else
        match loadGenesis ext faults b preState disk with
        | (some e, disk) => (.error e, disk)
        | (none, disk) => (loadLast disk, disk)

end Zond
