import Zond.Core.Peer

/-!
# The Server Loop

The loop runs in one goroutine for all connections, and a panic in it ends the node
as well as one in a connection.

## Main definitions

* `Server`: The peers it knows, and the messages it keeps.
* `Server.serve`: One thing that a connection hands over.
-/

namespace Zond

structure PeerInfo where
  ip : List Char
  multiAddr : List Char
  identity : List Char
  timestamp : UInt64

def newPeerInfo (multiAddr : List Char) (timestamp : UInt64) : Option PeerInfo :=
  match multiAddr.splitOn '/' with
  | [_, _, ip, _, _, _, identity] =>
    some { ip := ip, multiAddr := multiAddr, identity := identity, timestamp := timestamp }
  | _ => none

structure PeerData where
  connectedPeers : List PeerInfo
  disconnectedPeers : List PeerInfo

namespace PeerData

/-- A nil entry is put in a list and read at the latest when the list is saved, so that
    whatever is done with one ends in a panic. -/
def derefPeerInfo (multiAddr : List Char) (timestamp : UInt64) : Go PeerInfo :=
  Outcome.orFail (.panic .nilDereference) (newPeerInfo multiAddr timestamp)

/-- `PeerData.findIndex`: whether the list has a peer of the same identity. -/
def Known (info : PeerInfo) (peers : List PeerInfo) : Prop :=
  ∃ other ∈ peers, info.identity = other.identity

instance (info : PeerInfo) (peers : List PeerInfo) : Decidable (Known info peers) :=
  inferInstanceAs (Decidable (∃ other ∈ peers, info.identity = other.identity))

/-- The list without the first peer of the same identity. -/
def without (info : PeerInfo) (peers : List PeerInfo) : List PeerInfo :=
  peers.eraseP (fun other => info.identity = other.identity)

def addConnectedPeers (d : PeerData) (multiAddr : List Char) (time : UInt64) : Go PeerData := do
  let info ← derefPeerInfo multiAddr time
  pure { connectedPeers :=
           if Known info d.connectedPeers then d.connectedPeers else d.connectedPeers ++ [info]
         disconnectedPeers := without info d.disconnectedPeers }

def addDisconnectedPeers (d : PeerData) (multiAddr : List Char) (time : UInt64) : Go PeerData := do
  let info ← derefPeerInfo multiAddr time
  pure { disconnectedPeers :=
           if Known info d.disconnectedPeers then d.disconnectedPeers
           else info :: d.disconnectedPeers
         connectedPeers := without info d.connectedPeers }

/-- `PeerData.IsPeerInList`. A nil entry is only read where there is one to compare it
    with. -/
def isPeerInList (d : PeerData) (multiAddr : List Char) : Go Bool :=
  match newPeerInfo multiAddr 0 with
  | some info => .ok (Known info d.connectedPeers ∨ Known info d.disconnectedPeers : Bool)
  | none =>
    if d.connectedPeers = [] ∧ d.disconnectedPeers = [] then .ok false
    else .error (.panic .nilDereference)

/-- `PeerData.RemovePeer`. The bootstrap nodes are those of the configuration. -/
def removePeer (bootstrapNodes : List (List Char)) (d : PeerData) (multiAddr : List Char)
    (time : UInt64) : Go PeerData :=
  if multiAddr ∈ bootstrapNodes then .ok d
  else
    match newPeerInfo multiAddr time with
    | some info => .ok
        { connectedPeers := without info d.connectedPeers
          disconnectedPeers := without info d.disconnectedPeers }
    | none =>
      if d.connectedPeers = [] ∧ d.disconnectedPeers = [] then .ok d
      else .error (.panic .nilDereference)

end PeerData

structure Server where
  node : PeerNode
  peerData : PeerData

namespace Server

/-- `Server.UpdatePeerList`, for the addresses that are left. -/
def addPeers (time : UInt64) (d : PeerData) (peerIps : List (List Char)) : Go PeerData :=
  peerIps.foldlM (fun d multiAddr => do
    let known ← d.isPeerInList multiAddr
    if known then pure d else d.addDisconnectedPeers multiAddr time) d

def updatePeerList (srv : Server) (time : UInt64) (multiAddr : List Char) (plData : PLData) :
    Go Server := do
  let d ← srv.peerData.addConnectedPeers multiAddr time
  let d ← addPeers time d plData.peerIps
  pure { srv with peerData := d }

/-- The test of an announced block against the finalized one. -/
def isBeforeFinalized (srv : Server) (mrData : MRData) : Bool :=
  match srv.node.chain.db.mainChainMetaData with
  | none => false
  | some m =>
    if m.finalizedBlockHeaderHash = zeroHash then false
    else
      match srv.node.chain.db.blocks.get m.finalizedBlockHeaderHash with
      | none => true
      | some b => mrData.slotNumber ≤ b.slotNumber

def addPeer (srv : Server) (mrData : MRData) (peer : PeerId) : Go Server := do
  let mr ← srv.node.mr.addPeer mrData peer
  pure { srv with node := { srv.node with mr := mr } }

/-- The announcement of a block: asked for when its parent is here and it is not. -/
def announceBlock (srv : Server) (mrData : MRData) (peer : PeerId) : Go Server :=
  match srv.node.chain.db.blocks.get (Bytes.alignLeft 32 mrData.parentHeaderHash) with
  | none => pure srv
  | some _ =>
    if srv.node.mr.Contains mrData.hash mrData.type then pure srv else srv.addPeer mrData peer

/-- `case mrDataConn := <-srv.mrDataConn`. The peer is disconnected for any other kind, and
    asking for the message is left to a goroutine of its own. -/
def announce (srv : Server) (mrData : MRData) (peer : PeerId) : Go Server :=
  match mrData.type with
  | .ba => srv.announceBlock mrData peer
  | .bk =>
    if srv.isBeforeFinalized mrData then pure srv else srv.announceBlock mrData peer
  | .tt | .st | .attest => srv.addPeer mrData peer
  | _ => pure srv

/-- `case registerAndBroadcast := <-srv.registerAndBroadcastChan`: the message is kept,
    and the slot and the parent of a block are read for the announcement. -/
def registerAndBroadcast (srv : Server) (msgHash : Hash) (msg : LegacyMessage) : Go Server := do
  let mr ← srv.node.mr.register msgHash msg
  let srv := { srv with node := { srv.node with mr := mr } }
  match msg.getBlock, msg.getBlockForAttestation with
  | some b, _ => do
      let _ ← b.toBlock
      pure srv
  | none, some ba => do
      let b ← LegacyMessage.deref ba.block
      let _ ← b.toBlock
      pure srv
  | none, none => pure srv

/-- One turn of the loop with what the connection of `peer` has handed over. The last two
    go to the proposer loop. -/
def serve (time : UInt64) (peer : PeerId) (srv : Server) : HandedOver → Go Server
  | .addPeerToPeerList multiAddr plData => srv.updatePeerList time multiAddr plData
  | .mrDataConn mrData => do
      let mrData ← LegacyMessage.deref mrData
      srv.announce mrData peer
  | .blockAndPeer b => do
      let _ ← b.toBlock
      pure srv
  | .registerAndBroadcast msgHash msg => srv.registerAndBroadcast msgHash msg
  | .blockReceivedForAttestation _ => .ok srv
  | .attestationReceivedForBlock _ => .ok srv

end Server

end Zond
