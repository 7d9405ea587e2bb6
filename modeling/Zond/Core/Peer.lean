import Zond.Core.Flow
import Zond.Core.MessageCache
import Zond.Core.Pos

/-!
# A Connected Peer

`handle` reads the payload the function name calls for and mostly uses it without
looking whether it is there: a field read off a nil message stops the node. An error
that it returns makes `readLoop` disconnect, and what was changed before stays changed,
so the error is part of the outcome. Only a panic ends the call.

## Main definitions

* `Peer.handle`: Take one decoded message apart.
* `Handled`: What it leaves: the peer, what it hands to the server, and the error.
-/

namespace Zond

structure PeerNode where
  chain : Chain
  txPool : TransactionPool
  mr : MessageReceipt

inductive HandedOver where
  | addPeerToPeerList (multiAddr : List Char) (plData : PLData)
  | mrDataConn (mrData : Option MRData)
  | blockAndPeer (block : PBBlock)
  | registerAndBroadcast (msgHash : Hash) (msg : LegacyMessage)
  | blockReceivedForAttestation (block : Block)
  | attestationReceivedForBlock (tx : Attest)

/-- `Peer`. `remotePeer` is the identity that the connection reports. -/
structure Peer where
  id : PeerId
  ip : List Char
  remotePeer : List Char
  multiAddr : List Char
  publicPort : List Char
  isPLShared : Bool
  chainState : Option NodeChainState
  ebhRespInfo : Option (Option EpochBlockHashesResponse × UInt64)
  flow : Flow

namespace Chain

def getEpochHeaderHashes (c : Chain) (epoch : UInt64) : EpochBlockHashes :=
  c.db.getEpochBlockHashes epoch

end Chain

namespace Peer

structure Handled where
  peer : Peer
  node : PeerNode
  err : Option Err
  sent : List HandedOver

def done (p : Peer) (node : PeerNode) : Handled :=
  { peer := p, node := node, err := none, sent := [] }

def formatMultiAddr (p : Peer) (publicPort : List Char) : List Char :=
  "/ip4/".toList ++ p.ip ++ "/tcp/".toList ++ publicPort ++ "/p2p/".toList ++ p.remotePeer

section Messages

variable (marshalSize : LegacyMessage → Nat) (time : UInt64)

/-- A call of `p.Send` whose error is not looked at. -/
def send (p : Peer) (m : LegacyMessage) : Peer :=
  { p with flow := (p.flow.send marshalSize time m).1 }

def defaultVersion : LegacyMessage :=
  { funcName := .ve
    data := some (.veData { version := [], genesisPrevHash := [48], rateLimit := 100 }) }

def handleVersion (p : Peer) (node : PeerNode) (m : LegacyMessage) : Handled :=
  match m.getVeData with
  | none =>
    let (flow, err) := p.flow.send marshalSize time defaultVersion
    { peer := { p with flow := flow }, node := node, err := err, sent := [] }
  | some _ => p.done node

def handlePeerList (p : Peer) (node : PeerNode) (m : LegacyMessage) : Go Handled :=
  if p.isPLShared then .ok (p.done node)
  else do
    let plData ← LegacyMessage.deref m.getPlData
    let publicPort := Nat.toDigits 10 plData.publicPort.toNat
    let multiAddr := p.formatMultiAddr publicPort
    let p := { p with publicPort := publicPort, multiAddr := multiAddr, isPLShared := true }
    pure { p.done node with sent := [.addPeerToPeerList multiAddr plData] }

def handleSendFullMessage (p : Peer) (node : PeerNode) (m : LegacyMessage) : Go Handled := do
  let mrData ← LegacyMessage.deref m.getMrData
  match node.mr.get mrData.hash with
  | none => pure (p.done node)
  | some out => pure ((p.send marshalSize time out).done node)

/-- Whether the block named in a request for epoch hashes is known as finalized here, or
    nothing where its parent's record is missing. -/
def isHeaderHashFinalized (c : Chain) (ebhReq : EpochBlockHashesRequest) : Option Bool :=
  match c.db.blocks.get (Bytes.alignLeft 32 ebhReq.finalizedHeaderHash) with
  | none => some false
  | some b =>
    if 0 < b.slotNumber then
      (c.db.blockMetaData.get b.parentHash).map (fun parent =>
        ((parent.finalizedChildHeaderHash.map List.Vector.toList).getD []
          = ebhReq.finalizedHeaderHash : Bool))
    else some true

def handleEpochBlockHashesRequest (p : Peer) (node : PeerNode) (m : LegacyMessage) :
    Go Handled := do
  let ebhReq ← LegacyMessage.deref m.getEpochBlockHashesRequest
  match isHeaderHashFinalized node.chain ebhReq with
  | none => pure (p.done node)
  | some finalized =>
    let hashes := if finalized then some (node.chain.getEpochHeaderHashes ebhReq.epoch) else none
    let out : LegacyMessage :=
      { funcName := .ebhResp
        data := some (.epochBlockHashesResponse
          { isHeaderHashFinalized := finalized, epochBlockHashesMetaData := hashes }) }
    pure ((p.send marshalSize time out).done node)

def handleFetchBlock (p : Peer) (node : PeerNode) (m : LegacyMessage) : Go Handled := do
  let blockHeaderHash ← LegacyMessage.deref m.getFbData
  match node.chain.db.blocks.get (Bytes.alignLeft 32 blockHeaderHash) with
  | none => pure { p.done node with err := some .peerProtocolError }
  | some b =>
    let out : LegacyMessage :=
      { funcName := .pb, data := some (.pbData (some (PBBlock.ofBlock b))) }
    pure ((p.send marshalSize time out).done node)

def handlePushBlock (p : Peer) (node : PeerNode) (m : LegacyMessage) : Go Handled := do
  let block ← LegacyMessage.deref m.getPbData
  match block with
  | none => pure { p.done node with err := some .peerProtocolError }
  | some b => pure { p.done node with sent := [.blockAndPeer b] }

def handleChainState (p : Peer) (node : PeerNode) (m : LegacyMessage) : Go Handled := do
  let state ← LegacyMessage.deref m.getChainStateData
  pure ({ p with chainState := some { state with timestamp := time } }.done node)

def handleAck (p : Peer) (node : PeerNode) (m : LegacyMessage) : Go Handled := do
  let bytesProcessed ← LegacyMessage.deref m.getP2PAckData
  let (flow, err) := (p.flow.settle bytesProcessed).sendNext marshalSize time
  pure { peer := { p with flow := flow }, node := node, err := err, sent := [] }

end Messages

section Node

variable (ext : Externals) (time : UInt64)

def handleBlockForAttestation (p : Peer) (node : PeerNode) (m : LegacyMessage) : Go Handled := do
  let ba ← LegacyMessage.deref m.getBlockForAttestation
  let pbBlock ← LegacyMessage.deref ba.block
  let b ← pbBlock.toBlock
  let partialBlockSigningHash ← b.partialBlockSigningHash ext.toCrypto
  if node.mr.IsRequested partialBlockSigningHash p.id then
    let msg : LegacyMessage :=
      { funcName := .ba
        data := some (.blockForAttestation
          { block := some (PBBlock.ofBlock b), signature := ba.signature }) }
    pure { p.done node with
      sent := [.registerAndBroadcast partialBlockSigningHash msg, .blockReceivedForAttestation b] }
  else pure (p.done node)

def handleBlock (p : Peer) (node : PeerNode) (m : LegacyMessage) : Go Handled := do
  let pbBlock ← LegacyMessage.deref m.getBlock
  let b ← pbBlock.toBlock
  let expectedHash ← b.computeBlockHash ext.toCrypto
  if b.hash ≠ expectedHash then pure (p.done node)
  else if node.mr.IsRequested b.hash p.id then do
    let (added, chain) ← node.chain.addBlock ext time b
    let node := { node with chain := chain }
    if added then
      let msg : LegacyMessage :=
        { funcName := .bk, data := some (.block (PBBlock.ofBlock b)) }
      pure { p.done node with sent := [.registerAndBroadcast b.hash msg] }
    else pure (p.done node)
  else pure (p.done node)

/-- `Peer.HandleTransaction`. The error it returns is not looked at. -/
def handleTransaction (p : Peer) (node : PeerNode) (m : LegacyMessage)
    (txData : Option Transaction) : Go Handled := do
  let tx ← LegacyMessage.deref txData
  let txHash ← tx.hash
  if node.mr.IsRequested txHash p.id then do
    let valid ← Chain.rejectOnError (node.chain.validateTransaction ext tx)
    if valid.isNone then pure (p.done node)
    else do
      let pool ← Chain.rejectOnError
        (node.txPool.add ext.toCrypto tx txHash node.chain.lastBlock.slotNumber time time)
      match pool with
      | none => pure (p.done node)
      | some pool =>
        let node := { node with txPool := pool }
        pure { p.done node with sent := [.registerAndBroadcast txHash m] }
  else pure (p.done node)

def attestTransactionFromPBData : ProtocolTransaction → Go Attest
  | .attest tx => .ok tx
  | _ => .error (.panic .unexpectedKind)

/-- `Chain.ValidateAttestTransaction` on the message. -/
def validateAttestPBData (c : Chain) (tx : ProtocolTransaction)
    (validators : SlotValidatorsMetaData) (partialBlockSigningHash : Hash)
    (slotNumber parentSlotNumber : UInt64) : Go Attest := do
  let s ← c.accountDB
  let attestTx ← attestTransactionFromPBData tx
  let _ ← validateAttestTx ext.toCrypto attestTx s validators partialBlockSigningHash slotNumber
    parentSlotNumber
  pure attestTx

/-- `Peer.HandleAttestTransaction`. The error it returns is not looked at. -/
def handleAttestTransaction (p : Peer) (node : PeerNode) (m : LegacyMessage) : Go Handled := do
  let txData ← LegacyMessage.deref m.getAtData
  let tx ← LegacyMessage.deref txData.tx
  let partialBlockSigningHash : Hash := Bytes.alignLeft 32 txData.partialBlockSigningHash
  let txHash ← tx.txHash ext.toCrypto partialBlockSigningHash
  if node.mr.IsRequested txHash p.id then do
    let parentBlockHash : Hash := Bytes.alignLeft 32 txData.parentHeaderHash
    match node.chain.db.blockMetaData.get parentBlockHash with
    | none => pure (p.done node)
    | some parent => do
        let validators ← Chain.rejectOnError
          (node.chain.getSlotValidatorsMetaDataBySlotNumber ext parent.trieRoot txData.slotNumber
            parentBlockHash)
        match validators with
        | none => pure (p.done node)
        | some validators => do
            let valid ← Chain.rejectOnError (validateAttestPBData ext node.chain tx validators
              partialBlockSigningHash txData.slotNumber parent.slotNumber)
            match valid with
            | none => pure (p.done node)
            | some attestTx =>
              pure { p.done node with
                sent := [.attestationReceivedForBlock attestTx, .registerAndBroadcast txHash m] }
  else pure (p.done node)

variable (marshalSize : LegacyMessage → Nat)

def handle (p : Peer) (node : PeerNode) (m : LegacyMessage) : Go Handled :=
  match m.funcName with
  | .ve => .ok (p.handleVersion marshalSize time node m)
  | .pl => p.handlePeerList node m
  | .mr => .ok { p.done node with sent := [.mrDataConn m.getMrData] }
  | .sfm => p.handleSendFullMessage marshalSize time node m
  | .ba => p.handleBlockForAttestation ext node m
  | .bk => p.handleBlock ext time node m
  | .ebhReq => p.handleEpochBlockHashesRequest marshalSize time node m
  | .ebhResp =>
    .ok ({ p with ebhRespInfo := some (m.getEpochBlockHashesResponse, time) }.done node)
  | .fb => p.handleFetchBlock marshalSize time node m
  | .pb => p.handlePushBlock node m
  | .tt => p.handleTransaction ext time node m m.getTtData
  | .st => p.handleTransaction ext time node m m.getStData
  | .attest => p.handleAttestTransaction ext node m
  | .chainState => p.handleChainState time node m
  | .p2pAck => p.handleAck marshalSize time node m
  | .pong | .sync | .unnamed _ => .ok (p.done node)

/-- One turn of `readLoop` with the message it has read: whether the loop goes on, and
    what is left. A confirmation that cannot be sent disconnects, but only the next read
    ends the loop. -/
def readNext (p : Peer) (node : PeerNode) (m : LegacyMessage) : Go (Bool × Handled) := do
  let size : UInt32 := UInt32.ofNat (marshalSize m) + 4
  let r ← handle ext time marshalSize { p with flow := p.flow.updateCounters time } node m
  if r.err.isSome then
    pure (false, { r with peer := { r.peer with flow := r.peer.flow.disconnect } })
  else
    let flow := { r.peer.flow with inCounter := r.peer.flow.inCounter + 1 }
    if Config.inRateLimit < flow.inCounter then
      pure (false, { r with peer := { r.peer with flow := flow.disconnect } })
    else if m.funcName = .p2pAck then pure (true, { r with peer := { r.peer with flow := flow } })
    else
      let (flow, err) := flow.send marshalSize time (ack size)
      pure (true, { r with
        peer := { r.peer with flow := if err.isSome then flow.disconnect else flow } })

end Node

end Peer

end Zond
