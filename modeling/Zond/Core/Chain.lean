import Zond.Core.Commit

/-!
# The Chain

A node: its store, its account tries and the block it takes for the last one.
The epoch record of a block is computed twice, once on the state the block will
run on, whose stake balances the computation moves, and once on a fresh state for
the slot's validators.

## Main definitions

* `Chain.addBlock`: What every block goes through, from whichever peer it comes.
* `Chain.calculateEpochMetaData`: The record of the epoch a block is in.
* `genesisChain`: The node before the first block.
-/

namespace Zond

structure Chain where
  db : Store
  tries : Tries
  lastBlock : Block

namespace Chain

/-- `state2.New`: the zero hash opens the empty trie. -/
def openState (tries : Tries) (root : Hash) : Go StateDB :=
  if root = zeroHash then .ok (StateDB.new AssocMap.empty)
  else do
    let trie ← Outcome.orFail (.error (.notFound .stateTrie root)) (tries.get root)
    pure (StateDB.new trie)

/-- `Chain.GetMaxPossibleSlotNumber`, in `uint64` arithmetic. -/
def getMaxPossibleSlotNumber (now : UInt64) : UInt64 :=
  (now - Config.genesisTimestamp) / Config.blockTime + 1

/-- The blocks of the parent's epoch on its branch, newest first; genesis ends
    the walk. -/
def epochPath (db : Store) (epoch : UInt64) : Nat → BlockMetaData → Go (List Hash)
  | 0, _ => .error .diverges
  | fuel + 1, bm =>
    if epochOf bm.slotNumber = epoch then
      if bm.slotNumber = 0 then .ok [bm.headerHash]
      else do
        let parent ← db.getBlockMetaData bm.parentHeaderHash
        let rest ← epochPath db epoch fuel parent
        pure (bm.headerHash :: rest)
    else .ok []

variable (ext : Externals)

/-- One block of the loop over the closing epoch: count its signers, collect the
    keys it updates. Genesis was accounted for when it was committed. -/
def closeBlock (db : Store) (s : StateDB) (acc : EpochMetaData × List PublicKey) (h : Hash) :
    Go (EpochMetaData × List PublicKey) := do
  let b ← db.getBlock h
  let e ← processEpochMetaData ext b s acc.1
  pure (e, if b.slotNumber = 0 then acc.2 else acc.2 ++ b.getPendingValidatorsUpdate)

/-- The record of a new epoch, from the record of the epoch that `path` closes. -/
def nextEpochMetaData (db : Store) (s : StateDB) (slotNumber : UInt64) (parentHeaderHash : Hash)
    (path : List Hash) (e : EpochMetaData) : Go (StateDB × EpochMetaData) := do
  let alloted := UInt64.ofNat e.validators.length * Config.stakeAmount
  let e := e.updatePrevEpochStakeData 0 alloted
  let (e, pending) ← path.reverse.foldlM (closeBlock ext db s) (e, [])
  let (s, e) := updateStakeValidators ext s pending e
  let e ← e.allotSlots ext (getRandomSeed ext.toCrypto parentHeaderHash) (epochOf slotNumber)
    parentHeaderHash
  pure (s, e)

def calculateEpochMetaData (db : Store) (s : StateDB) (slotNumber : UInt64)
    (parentHeaderHash : Hash) : Go (StateDB × EpochMetaData) := do
  let parent ← db.getBlockMetaData parentHeaderHash
  if parent.epoch = epochOf slotNumber then do
    let e ← db.getEpochMetaData slotNumber parentHeaderHash
    pure (s, e)
  else do
    let path ← epochPath db parent.epoch db.walkFuel parent
    let firstHash ← Outcome.orFail (.error .emptyEpochPath) path.getLast?
    let first ← db.getBlockMetaData firstHash
    let e ← db.getEpochMetaData first.slotNumber first.parentHeaderHash
    nextEpochMetaData ext db s slotNumber parentHeaderHash path e

def getSlotValidatorsMetaDataBySlotNumber (c : Chain) (trieRoot : Hash) (slotNumber : UInt64)
    (parentHeaderHash : Hash) : Go SlotValidatorsMetaData := do
  let s ← openState c.tries trieRoot
  let (_, e) ← calculateEpochMetaData ext c.db s slotNumber parentHeaderHash
  SlotValidatorsMetaData.new slotNumber e

/-- The tests `AddBlock` makes of a block and its parent before processing:
    the hash, the slot against the clock, the parent against the finalized block. -/
def checkBlock (c : Chain) (now : UInt64) (b : Block) : Go (Option Block) := do
  let expectedHash ← b.computeBlockHash ext.toCrypto
  if b.hash ≠ expectedHash then pure none
  else if getMaxPossibleSlotNumber now < b.slotNumber then pure none
  else do
    let m ← c.db.getMainChainMetaData
    let parent ← c.db.getBlock b.parentHash
    if parent.slotNumber < m.finalizedBlockSlotNumber then pure none
    else if parent.slotNumber = m.finalizedBlockSlotNumber ∧
        parent.hash ≠ m.finalizedBlockHeaderHash then pure none
    else pure (some parent)

/-- The part of `AddBlock` that processes a block on its parent. -/
def processBlock (c : Chain) (b parentBlock : Block) : Go Processed := do
  let parent ← c.db.getBlockMetaData b.parentHash
  let s ← openState c.tries parent.trieRoot
  let (s, e) ← calculateEpochMetaData ext c.db s b.slotNumber b.parentHash
  let validators ← c.getSlotValidatorsMetaDataBySlotNumber ext parent.trieRoot b.slotNumber
    b.parentHash
  let partialHash ← b.partialBlockSigningHash ext.toCrypto
  let signingHash ← b.blockSigningHash ext.toCrypto
  let ctx ← StateContext.new c.db b.slotNumber b.parentHash b.hash partialHash signingHash e
  process ext b parentBlock s ctx validators c.db c.tries

/-- The block `AddBlock` takes for the last one after processing. A head that is
    not stored leaves it as it is. -/
def nextLastBlock (c : Chain) (p : Processed) (m : MainChainMetaData) : Block :=
  if m.lastBlockHeaderHash = p.block.hash then p.block
  else if m.lastBlockHeaderHash = c.lastBlock.hash then c.lastBlock
  else (p.db.blocks.get m.lastBlockHeaderHash).getD c.lastBlock

/-- The part of `AddBlock` after processing: follow the head, and on the first
    block of an epoch try to finalize. A returned error is only logged. -/
def finishBlock (c : Chain) (parentBlock : Block) (p : Processed) : Go Chain :=
  match p.db.mainChainMetaData with
  | none => .ok { c with db := p.db, tries := p.tries }
  | some m =>
    let lastBlock := c.nextLastBlock p m
    let next : Chain := { db := p.db, tries := p.tries, lastBlock := lastBlock }
    if p.block.hash = lastBlock.hash ∧ p.block.epoch ≠ parentBlock.epoch then
      match updateFinalizedEpoch p.db p.block p.ctx with
      | .ok db => .ok { next with db := db }
      | .error (.error _) => .ok next
      | .error f => .error f
    else .ok next

/-- An error makes `AddBlock` return false with nothing written; a panic stops
    the node. -/
def rejectOnError {α : Type} : Go α → Go (Option α)
  | .ok a => .ok (some a)
  | .error (.error _) => .ok none
  | .error f => .error f

/-- `Chain.AddBlock` at time `now`: whether the block was added, and the node
    after the call. -/
def addBlock (c : Chain) (now : UInt64) (b : Block) : Go (Bool × Chain) := do
  let checked ← rejectOnError (checkBlock ext c now b)
  match checked with
  | some (some parentBlock) => do
      let processed ← rejectOnError (processBlock ext c b parentBlock)
      match processed with
      | some p => do
          let next ← finishBlock c parentBlock p
          pure (true, next)
      | none => pure (false, c)
  | _ => pure (false, c)

end Chain

section Genesis

variable (ext : Externals)

/-- The records `ProcessGenesisPreState` commits: a chain without blocks, and a
    record for the hash genesis names as its parent. -/
def genesisPreStore (b : Block) : Store :=
  (Store.empty.putMainChainMetaData
    { finalizedBlockHeaderHash := zeroHash, finalizedBlockSlotNumber := 0
      lastBlockHeaderHash := zeroHash, lastBlockSlotNumber := 0 }).putBlockMetaData
    (BlockMetaData.new zeroHash b.parentHash 0 0 zeroHash)

/-- The balances `ProcessGenesisPreState` sets. -/
def genesisPreState (b : Block) (preState : List (List UInt8 × UInt64)) : Go StateDB := do
  let first ← b.firstProtocolTx
  let proposer := ext.getDilithiumAddressFromUnSizedPK first.pk
  errorIf (proposer ≠ Config.foundationDilithiumAddress) .genesisPreState
  let s := (StateDB.new AssocMap.empty).setBalance proposer (int64 Config.suppliedCoins)
  pure (preState.foldl (fun s ab =>
    s.setBalance (unSizedAddressToSizedAddress ab.1) (int64 ab.2)) s)

/-- The epoch record `Load` hands to `ProcessGenesis`: the proposer as the only
    validator, leading slot 0. -/
def genesisEpochMetaData (b : Block) (proposerPK : PublicKey) : EpochMetaData :=
  let e := EpochMetaData.new 0 b.parentHash []
  ({ e with slotInfo := [some { slotLeader := 0, attestors := [] }] }).addValidators proposerPK

/-- The epoch bookkeeping of `ProcessGenesis`: the block's own stake counts, and
    for genesis the allotted stake is what was found. -/
def genesisEpoch (b : Block) (s : StateDB) (e : EpochMetaData) : Go (StateDB × EpochMetaData) := do
  let e ← processEpochMetaData ext b s e
  let (s, e) := updateStakeValidators ext s b.getPendingValidatorsUpdate e
  let e := e.updatePrevEpochStakeData e.totalStakeAmountFound e.totalStakeAmountFound
  let e ← e.allotSlots ext (getRandomSeed ext.toCrypto b.parentHash) 0 b.parentHash
  pure (s, e)

def processGenesis (b : Block) (s : StateDB) (ctx : StateContext) (db : Store) : Go Processed := do
  let validators ← SlotValidatorsMetaData.new b.slotNumber ctx.epochMetaData
  let (env, st) ← newExec ext b db.getBlockHashBySlotNumber b.slotNumber s ctx validators true
  let st ← processTransactions ext env st
  let (s, e) ← genesisEpoch ext b st.statedb st.ctx.epochMetaData
  sealBlock ext b { st with statedb := s, ctx := { st.ctx with epochMetaData := e } } true db
    AssocMap.empty

/-- `Chain.Load` on an empty store, with the genesis block and the pre-state the
    node ships with. -/
def genesisChain (b : Block) (preState : List (List UInt8 × UInt64)) : Go Chain := do
  let db := genesisPreStore b
  let s ← genesisPreState ext b preState
  let first ← b.firstProtocolTx
  let partialHash ← b.partialBlockSigningHash ext.toCrypto
  let signingHash ← b.blockSigningHash ext.toCrypto
  let ctx ← StateContext.new db (bigUint64 b.header.number) b.parentHash b.hash partialHash
    signingHash (genesisEpochMetaData b first.pk)
  let p ← processGenesis ext b s (ctx.prepareValidators first.pk) db
  let m ← p.db.getMainChainMetaData
  let lastBlock ← p.db.getBlock m.lastBlockHeaderHash
  pure { db := p.db, tries := p.tries, lastBlock := lastBlock }

end Genesis

end Zond
