import Zond.Core.Store

/-!
# Peer Messages

A message names a function and carries at most one payload. Nothing ties the two
together: a peer may send any name with any payload, with none, or with a payload whose
nested messages are missing, and decoding accepts it. The getters answer nil for a
payload of another kind, and a nested message that is missing is nil as well.

## Main definitions

* `LegacyMessage`: What two nodes say to each other.
* `deref`: A field read off a pointer.
-/

namespace Zond

/-- `LegacyMessage_FuncName`; `attest` is `AT`. Protobuf keeps a number it has no name
    for. -/
inductive FuncName where
  | ve
  | pl
  | pong
  | mr
  | sfm
  | ba
  | bk
  | fb
  | pb
  | tt
  | st
  | attest
  | sync
  | chainState
  | ebhReq
  | ebhResp
  | p2pAck
  | unnamed (number : Int)
deriving DecidableEq

/-- The names `messagePriority` has an entry for. -/
def FuncName.IsNamed : FuncName → Prop
  | unnamed _ => False
  | _ => True

instance : DecidablePred FuncName.IsNamed
  | .ve | .pl | .pong | .mr | .sfm | .ba | .bk | .fb | .pb | .tt | .st | .attest | .sync | .chainState
  | .ebhReq | .ebhResp | .p2pAck => .isTrue trivial
  | .unnamed _ => .isFalse id

/-- `protos.Block`: what a decoder makes of a block. -/
structure PBBlock where
  header : Option Header
  protocolTransactions : List ProtocolTransaction
  transactions : List Transaction

namespace PBBlock

def ofBlock (b : Block) : PBBlock :=
  { header := some b.header, protocolTransactions := b.protocolTransactions
    transactions := b.transactions }

/-- The block behind the message. Each use of one starts by reading a header field. -/
def toBlock (b : PBBlock) : Go Block :=
  match b.header with
  | none => .error (.panic .nilDereference)
  | some header => .ok
      { header := header, protocolTransactions := b.protocolTransactions
        transactions := b.transactions }

end PBBlock

structure VEData where
  version : List Char
  genesisPrevHash : List UInt8
  rateLimit : UInt64

structure PLData where
  peerIps : List (List Char)
  publicPort : UInt32

/-- `MRData`, without the proposer, which nobody reads. -/
structure MRData where
  hash : List UInt8
  type : FuncName
  parentHeaderHash : List UInt8
  slotNumber : UInt64

structure BlockForAttestation where
  block : Option PBBlock
  signature : List UInt8

/-- `ProtocolTransactionData`, without the proposer, which nobody reads. -/
structure ProtocolTransactionData where
  tx : Option ProtocolTransaction
  slotNumber : UInt64
  parentHeaderHash : List UInt8
  partialBlockSigningHash : List UInt8

structure NodeChainState where
  slotNumber : UInt64
  headerHash : List UInt8
  totalStakeAmount : List UInt8
  version : List Char
  timestamp : UInt64

structure EpochBlockHashesRequest where
  epoch : UInt64
  finalizedHeaderHash : List UInt8

structure EpochBlockHashesResponse where
  isHeaderHashFinalized : Bool
  epochBlockHashesMetaData : Option EpochBlockHashes

/-- The `oneof` of a message. The payloads that no function reads are `unread`. -/
inductive Payload where
  | veData (data : VEData)
  | plData (data : PLData)
  | mrData (data : MRData)
  | blockForAttestation (data : BlockForAttestation)
  | block (data : PBBlock)
  | fbData (blockHeaderHash : List UInt8)
  | pbData (block : Option PBBlock)
  | ttData (tx : Transaction)
  | stData (tx : Transaction)
  | atData (data : ProtocolTransactionData)
  | chainStateData (data : NodeChainState)
  | epochBlockHashesRequest (data : EpochBlockHashesRequest)
  | epochBlockHashesResponse (data : EpochBlockHashesResponse)
  | p2pAckData (bytesProcessed : UInt32)
  | unread

structure LegacyMessage where
  funcName : FuncName
  data : Option Payload

namespace LegacyMessage

variable (m : LegacyMessage)

def getVeData : Option VEData :=
  match m.data with
  | some (.veData data) => some data
  | _ => none

def getPlData : Option PLData :=
  match m.data with
  | some (.plData data) => some data
  | _ => none

def getMrData : Option MRData :=
  match m.data with
  | some (.mrData data) => some data
  | _ => none

def getBlockForAttestation : Option BlockForAttestation :=
  match m.data with
  | some (.blockForAttestation data) => some data
  | _ => none

def getBlock : Option PBBlock :=
  match m.data with
  | some (.block data) => some data
  | _ => none

def getFbData : Option (List UInt8) :=
  match m.data with
  | some (.fbData blockHeaderHash) => some blockHeaderHash
  | _ => none

def getPbData : Option (Option PBBlock) :=
  match m.data with
  | some (.pbData block) => some block
  | _ => none

def getTtData : Option Transaction :=
  match m.data with
  | some (.ttData tx) => some tx
  | _ => none

def getStData : Option Transaction :=
  match m.data with
  | some (.stData tx) => some tx
  | _ => none

def getAtData : Option ProtocolTransactionData :=
  match m.data with
  | some (.atData data) => some data
  | _ => none

def getChainStateData : Option NodeChainState :=
  match m.data with
  | some (.chainStateData data) => some data
  | _ => none

def getEpochBlockHashesRequest : Option EpochBlockHashesRequest :=
  match m.data with
  | some (.epochBlockHashesRequest data) => some data
  | _ => none

def getEpochBlockHashesResponse : Option EpochBlockHashesResponse :=
  match m.data with
  | some (.epochBlockHashesResponse data) => some data
  | _ => none

def getP2PAckData : Option UInt32 :=
  match m.data with
  | some (.p2pAckData bytesProcessed) => some bytesProcessed
  | _ => none

/-- A field read off a nil payload. -/
def deref {α : Type} : Option α → Go α := Outcome.orFail (.panic .nilDereference)

end LegacyMessage

end Zond
