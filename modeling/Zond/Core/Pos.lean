import Mathlib.Logic.Relation
import Zond.Core.Chain
import Zond.Core.Pool
import Zond.Core.Producer

/-!
# The Proposer Loop

`POS.Run` waits for one of three things: its timer, a block that another node wants
attested, an attestation for the block it is collecting attestations for. Between
two of them other parts of the node add blocks to the chain and transactions to
the pool.

All that is remembered of earlier events is the block being attested, be it the
node's own proposal or somebody else's, and the attestations received for it.

## Main definitions

* `Pos`: The loop with the chain and the pool it works on.
* `Event`, `Action`: What happens to the node, and what it does that is seen.
* `Pos.handle`: One event.
* `Session.Run`: Events one after another, each of which meets a condition.
-/

namespace Zond

open Outcome

/-- The validator keys the node has seeds for, as `NewPOS` loads them: under its own
    public key each, and once. -/
structure Keyring where
  keys : List Dilithium
  sized : ∀ d ∈ keys, d.pk.length = Config.dilithiumPKSize
  nodup : (keys.map Dilithium.pk).Nodup

namespace Keyring

def get (r : Keyring) (pk : PublicKey) : Option Dilithium :=
  r.keys.find? (fun d => d.pk = pk)

theorem get_eq_some {r : Keyring} {pk : PublicKey} {d : Dilithium} (h : r.get pk = some d) :
    d ∈ r.keys ∧ d.pk = pk := by
  refine ⟨List.mem_of_find?_eq_some h, ?_⟩
  have hpk := List.find?_some h
  rwa [decide_eq_true_eq] at hpk

end Keyring

namespace Chain

variable (ext : Externals) (c : Chain)

def getEpochMetaData (trieRoot : Hash) (slotNumber : UInt64) (parentHeaderHash : Hash) :
    Go EpochMetaData := do
  let s ← openState c.tries trieRoot
  let (_, e) ← calculateEpochMetaData ext c.db s slotNumber parentHeaderHash
  pure e

def getSlotLeaderDilithiumPKBySlotNumber (trieRoot : Hash) (slotNumber : UInt64)
    (parentHeaderHash : Hash) : Go PublicKey := do
  let e ← c.getEpochMetaData ext trieRoot slotNumber parentHeaderHash
  let info ← e.slotInfoAt slotNumber
  e.validatorAt info.slotLeader

def getAttestorsBySlotNumber (trieRoot : Hash) (slotNumber : UInt64) (parentHeaderHash : Hash) :
    Go (List PublicKey) := do
  let e ← c.getEpochMetaData ext trieRoot slotNumber parentHeaderHash
  let info ← e.slotInfoAt slotNumber
  info.attestors.mapM e.validatorAt

def accountDB : Go StateDB := do
  let bm ← c.db.getBlockMetaData c.lastBlock.hash
  openState c.tries bm.trieRoot

def validateTransaction (tx : Transaction) : Go StateDB := do
  let s ← c.accountDB
  match tx with
  | .stake tx => validateStakeTxn ext.toCrypto tx s
  | .transfer tx => validateTransferTxn ext.toCrypto tx s
  | .unknown _ => .error (.error .unknownTransactionType)

def validateAttestTransaction (tx : Attest) (validators : SlotValidatorsMetaData)
    (partialBlockSigningHash : Hash) (slotNumber parentSlotNumber : UInt64) : Go StateDB := do
  let s ← c.accountDB
  validateAttestTx ext.toCrypto tx s validators partialBlockSigningHash slotNumber
    parentSlotNumber

end Chain

/-- What the loop does that is seen outside it: a valid transaction popped from the
    pool, a block that `AddBlock` accepted, and the three broadcasts. -/
inductive Action where
  | took (tx : Transaction)
  | added (b : Block)
  | broadcastBlock (b : Block)
  | broadcastBlockForAttestation (b : Block) (signature : List UInt8)
  | broadcastAttestationTransaction (attestTx : Attest) (slotNumber : UInt64)
      (blockProposer : List UInt8) (parentHeaderHash partialBlockSigningHash : Hash)

/-- What happens to the node: the three cases of `POS.Run`, and the calls other parts
    of the node make in between. `now` is the local clock, `time` the network time. -/
inductive Event where
  | tick (now time : UInt64)
  | blockReceivedForAttestation (b : Block)
  | attestationReceivedForBlock (tx : Attest)
  | addBlock (time : UInt64) (b : Block)
  | addTransaction (time : UInt64) (tx : Transaction)

/-- `POS`, with the chain and the pool it works on. -/
structure Pos where
  enableStaking : Bool
  validators : Keyring
  chain : Chain
  txPool : TransactionPool
  blockBeingAttested : Option Block
  slotValidatorsMetaData : Option SlotValidatorsMetaData
  attestors : List PublicKey
  attestations : List Attest

def newPos (enableStaking : Bool) (validators : Keyring) (chain : Chain)
    (txPool : TransactionPool) : Pos :=
  { enableStaking := enableStaking, validators := validators, chain := chain, txPool := txPool
    blockBeingAttested := none, slotValidatorsMetaData := none, attestors := []
    attestations := [] }

/-- `POS.GetCurrentSlot`, in `uint64` arithmetic. -/
def getCurrentSlot (now : UInt64) : UInt64 := (now - Config.genesisTimestamp) / Config.blockTime

namespace Pos

variable (ext : Externals)

/-- The loop that fills a block: pop until the pool is empty or the block has its
    hundred transactions, keeping those that are valid on the head. Each pass takes
    one entry, so the size of the pool bounds their number. -/
def takeTransactions (chain : Chain) :
    Nat → List Transaction → TransactionPool → Go (List Transaction × TransactionPool)
  | 0, txs, pool => .ok (txs, pool)
  | passes + 1, txs, pool =>
    if txs.length < Config.maxMintedTransactions then
      match pool.pop ext.toCrypto with
      | none => .ok (txs, pool)
      | some (info, pool) => do
          let valid ← Chain.rejectOnError (chain.validateTransaction ext info.tx)
          takeTransactions chain passes (if valid.isSome then txs ++ [info.tx] else txs) pool
    else .ok (txs, pool)

variable (p : Pos)

/-- The block `Run` makes of the transactions for the slot it leads, the state of
    the head and the attestors of the slot. -/
def draft (time : UInt64) (trieRoot : Hash) (slotNumber : UInt64) (d : Dilithium)
    (txs : List Transaction) : Go (StateDB × Block × List PublicKey) := do
  let s ← Chain.openState p.chain.tries trieRoot
  let signerNonce := s.getNonce (ext.getDilithiumAddressFromUnSizedPK d.pk)
  let b := newBlock Config.chainID time d.pk slotNumber p.chain.lastBlock.hash txs [] signerNonce
  let attestors ← p.chain.getAttestorsBySlotNumber ext trieRoot b.slotNumber b.parentHash
  pure (s, b, attestors)

/-- One attestor of the slot: when its key is here, it attests. -/
def attestLocally (s : StateDB) (ba : Block × List Attest) (pk : PublicKey) :
    Go (Block × List Attest) :=
  match p.validators.get pk with
  | none => .ok ba
  | some d => do
      let attestorNonce := s.getNonce (ext.getDilithiumAddressFromUnSizedPK d.pk)
      let attestTx ← ba.1.attest ext.toCrypto d Config.chainID attestorNonce
      let b ← ba.1.addAttestTx ext.toCrypto attestTx
      pure (b, ba.2 ++ [attestTx])

/-- With every attestor's key here the block is signed and added at once, otherwise
    it goes out for attestation. A block that is not added is forgotten. -/
def submit (time : UInt64) (d : Dilithium) (b : Block) (attestors : List PublicKey)
    (attestations : List Attest) : Go (Pos × List Action) :=
  if attestations.length = attestors.length then do
    let b ← b.signByProposer ext.toCrypto d
    let (added, chain) ← p.chain.addBlock ext time b
    pure ({ p with chain := chain, blockBeingAttested := none, attestors := attestors
                   attestations := [] },
      if added then [.added b, .broadcastBlock b] else [])
  else do
    let partialBlockSigningHash ← b.partialBlockSigningHash ext.toCrypto
    pure ({ p with blockBeingAttested := some b, attestors := attestors
                   attestations := attestations },
      [.broadcastBlockForAttestation b (d.sign partialBlockSigningHash)])

/-- Minting a block as the leader of the slot. Without the state or the attestors
    nothing comes of it, and the transactions are out of the pool. -/
def propose (time : UInt64) (trieRoot : Hash) (slotNumber : UInt64) (d : Dilithium) :
    Go (Pos × List Action) := do
  let (txs, pool) ← takeTransactions ext p.chain p.txPool.txPool.length [] p.txPool
  let p := { p with txPool := pool }
  let drafted ← Chain.rejectOnError (p.draft ext time trieRoot slotNumber d txs)
  match drafted with
  | none => pure (p, txs.map .took)
  | some (s, b, attestors) => do
      let (b, attestations) ← attestors.foldlM (p.attestLocally ext s) (b, [])
      let (p, actions) ← p.submit ext time d b attestors attestations
      pure (p, txs.map .took ++ actions)

/-- The timer, when no proposal is out: mint if the current slot is led by a key of
    this node. A leader that could not be looked up is the empty key. -/
def mint (now time : UInt64) : Go (Pos × List Action) := do
  let lastBlockHash := p.chain.lastBlock.hash
  let found ← Chain.rejectOnError (p.chain.db.getBlockMetaData lastBlockHash)
  match found with
  | none => pure (p, [])
  | some bm => do
      let slotNumber := getCurrentSlot now
      let slotLeaderPK ← Chain.rejectOnError
        (p.chain.getSlotLeaderDilithiumPKBySlotNumber ext bm.trieRoot slotNumber lastBlockHash)
      let validators ← Chain.rejectOnError
        (p.chain.getSlotValidatorsMetaDataBySlotNumber ext bm.trieRoot slotNumber lastBlockHash)
      match validators with
      | none => pure (p, [])
      | some validators =>
        let p := { p with slotValidatorsMetaData := some validators }
        match p.validators.get (slotLeaderPK.getD []) with
        | none => pure (p, [])
        | some d => p.propose ext time bm.trieRoot slotNumber d

/-- The timer, when a proposal of this node is out: sign and add it if anybody has
    attested it, whatever comes of adding it; otherwise put its transactions back. -/
def closeProposal (time : UInt64) (d : Dilithium) (b : Block) : Go (Pos × List Action) :=
  if 1 < b.protocolTransactions.length then do
    let b ← b.signByProposer ext.toCrypto d
    let (added, chain) ← p.chain.addBlock ext time b
    pure ({ p with chain := chain, blockBeingAttested := none, attestations := [] },
      (if added then [.added b] else []) ++ [.broadcastBlock b])
  else do
    let (pool, _) ← TransactionPool.addTxFromBlock ext.toCrypto p.chain.lastBlock.slotNumber time
      b.transactions p.txPool
    pure ({ p with txPool := pool, blockBeingAttested := none, attestations := [] }, [])

/-- `case <-time.After(...)`. A block that another node proposed is dropped. -/
def tick (now time : UInt64) : Go (Pos × List Action) :=
  match p.blockBeingAttested with
  | none => p.mint ext now time
  | some b => do
      let first ← b.firstProtocolTx
      match p.validators.get first.pk with
      | none => mint ext { p with blockBeingAttested := none } now time
      | some d => p.closeProposal ext time d b

/-- The attestation of one key of this node for a received block. The state was
    opened without looking at the error. -/
def attestReceived (b : Block) (s : Option StateDB) (blockProposerPK : List UInt8)
    (partialBlockSigningHash : Hash) (d : Dilithium) : Go Action := do
  let attestorNonce ← Outcome.orFail (.panic .nilDereference)
    (s.map (fun s => s.getNonce (ext.getDilithiumAddressFromUnSizedPK d.pk)))
  let attestTx ← b.attest ext.toCrypto d Config.chainID attestorNonce
  pure (.broadcastAttestationTransaction attestTx b.slotNumber blockProposerPK b.parentHash
    partialBlockSigningHash)

/-- `case b := <-p.blockReceivedForAttestation`. The block must name the head as its
    parent and the leader of its slot as its proposer; nobody has checked that the
    leader signed it. -/
def blockReceivedForAttestation (b : Block) : Go (Pos × List Action) :=
  if b.parentHash ≠ p.chain.lastBlock.hash then .ok (p, [])
  else if p.blockBeingAttested.any (fun old => old.slotNumber = b.slotNumber) then .ok (p, [])
  else do
    let found ← Chain.rejectOnError (p.chain.db.getBlockMetaData b.parentHash)
    match found with
    | none => pure (p, [])
    | some bm => do
        let first ← b.firstProtocolTx
        let validators ← Chain.rejectOnError
          (p.chain.getSlotValidatorsMetaDataBySlotNumber ext bm.trieRoot b.slotNumber b.parentHash)
        match validators with
        | none => pure (p, [])
        | some validators =>
          if validators.IsSlotLeader first.pk then do
            let partialBlockSigningHash ← b.partialBlockSigningHash ext.toCrypto
            let s ← Chain.rejectOnError (Chain.openState p.chain.tries bm.trieRoot)
            let actions ← (p.validators.keys.filter (fun d => validators.IsAttestor d.pk)).mapM
              (attestReceived ext b s first.pk partialBlockSigningHash)
            pure ({ p with blockBeingAttested := some b
                           slotValidatorsMetaData := some validators }, actions)
          else pure (p, [])

/-- `case tx := <-p.attestationReceivedForBlock`. -/
def attestationReceivedForBlock (tx : Attest) : Go (Pos × List Action) :=
  match p.blockBeingAttested with
  | none => .ok (p, [])
  | some b => do
      let partialBlockSigningHash ← b.partialBlockSigningHash ext.toCrypto
      let parentBlock ← Chain.rejectOnError (p.chain.db.getBlock b.parentHash)
      match parentBlock with
      | none => pure (p, [])
      | some parentBlock => do
          let validators ← Outcome.orFail (.panic .nilDereference) p.slotValidatorsMetaData
          let valid ← Chain.rejectOnError (p.chain.validateAttestTransaction ext tx validators
            partialBlockSigningHash b.slotNumber parentBlock.slotNumber)
          if valid.isNone then pure (p, [])
          else if p.attestations.any (fun oldTx => oldTx.pk = tx.pk) then pure (p, [])
          else do
            let b ← b.addAttestTx ext.toCrypto tx
            pure ({ p with blockBeingAttested := some b, attestations := p.attestations ++ [tx] },
              [])

/-- A transaction from a peer: `HandleTransaction` validates it on the head and adds
    it to the pool, and drops it when either fails. -/
def addTransaction (time : UInt64) (tx : Transaction) : Go (Pos × List Action) := do
  let txHash ← tx.hash
  let valid ← Chain.rejectOnError (p.chain.validateTransaction ext tx)
  if valid.isNone then pure (p, [])
  else do
    let pool ← Chain.rejectOnError
      (p.txPool.add ext.toCrypto tx txHash p.chain.lastBlock.slotNumber time time)
    pure ({ p with txPool := pool.getD p.txPool }, [])

/-- One event: the node after it, and what it has done. A node that does not stake
    ignores the three cases of `Run`. -/
def handle : Event → Go (Pos × List Action)
  | .tick now time => if p.enableStaking then p.tick ext now time else .ok (p, [])
  | .blockReceivedForAttestation b =>
    if p.enableStaking then p.blockReceivedForAttestation ext b else .ok (p, [])
  | .attestationReceivedForBlock tx =>
    if p.enableStaking then p.attestationReceivedForBlock ext tx else .ok (p, [])
  | .addBlock time b => do
      let (added, chain) ← p.chain.addBlock ext time b
      pure ({ p with chain := chain }, if added then [.added b] else [])
  | .addTransaction time tx => p.addTransaction ext time tx

end Pos

/-- A node at work: what it has done so far, and what it was told, with the node as it was then. -/
structure Session where
  pos : Pos
  heard : List (Pos × Event)
  log : List Action

namespace Session

def told (s : Session) (e : Event) (pos : Pos) (actions : List Action) : Session :=
  { pos := pos, heard := s.heard ++ [(s.pos, e)], log := s.log ++ actions }

inductive Step (ext : Externals) (P : Session → Event → Prop) : Session → Session → Prop
  | event {s : Session} {e : Event} {pos : Pos} {actions : List Action} (hP : P s e)
      (h : s.pos.handle ext e = .ok (pos, actions)) :
      Step ext P s (s.told e pos actions)

abbrev Run (ext : Externals) (P : Session → Event → Prop) : Session → Session → Prop :=
  Relation.ReflTransGen (Step ext P)

theorem Run.invariant {ext : Externals} {P : Session → Event → Prop} {s s' : Session}
    (I : Session → Prop) (hstep : ∀ s s', I s → Step ext P s s' → I s') (hs : I s)
    (h : Run ext P s s') : I s' := by
  induction h with
  | refl => exact hs
  | tail _ hlast ih => exact hstep _ _ ih hlast

/-- Events one after another: whether each passed the test, and the node after them. -/
def events (ext : Externals) (test : Session → Event → Bool) :
    List Event → Session → Go (Bool × Session)
  | [], s => .ok (true, s)
  | e :: rest, s => do
      let (pos, actions) ← s.pos.handle ext e
      let (passed, s') ← events ext test rest (s.told e pos actions)
      pure (test s e && passed, s')

theorem run_of_events {ext : Externals} {P : Session → Event → Prop}
    {test : Session → Event → Bool} (htest : ∀ s e, test s e = true → P s e) {es : List Event}
    {s s' : Session} (h : events ext test es s = .ok (true, s')) : Run ext P s s' := by
  induction es generalizing s with
  | nil =>
    cases h
    exact .refl
  | cons e rest ih =>
    rcases bind_eq_ok.1 h with ⟨⟨pos, actions⟩, hhandle, h⟩
    rcases bind_eq_ok.1 h with ⟨⟨passed, s₁⟩, hrest, h⟩
    simp only [pure_eq_ok, Prod.mk.injEq, Bool.and_eq_true] at h
    rcases h with ⟨⟨hpassed, rfl⟩, rfl⟩
    exact .head (.event (htest s e hpassed) hhandle) (ih hrest)

end Session

end Zond
