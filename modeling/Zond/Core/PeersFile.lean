import Zond.Core.Server

/-!
# The Peers File

The file is written by `protojson`, which names the fields in lowerCamelCase, writes
64-bit numbers as strings and leaves out what is zero or empty. It is read by
`encoding/json`, which goes by the `json` tags of the generated struct, without regard
to case, skips what it does not know and takes no string for a number. The file is
modelled as the JSON value in it.

## Main definitions

* `PeerData.save`, `PeerData.load`: Writing and reading the file.
-/

namespace Zond

inductive Json where
  | str (s : List Char)
  | num (n : Nat)
  | arr (items : List Json)
  | obj (members : List (List Char × Json))

/-- The error of `json.Unmarshal`: a value of another kind than the field's. -/
inductive UnmarshalErr where
  | typeError
deriving DecidableEq

section Write

/-- A string field, left out when it is empty. -/
def strMember (name s : List Char) : List (List Char × Json) :=
  if s = [] then [] else [(name, .str s)]

def PeerInfo.toJson (info : PeerInfo) : Json :=
  .obj (strMember "ip".toList info.ip ++ strMember "multiAddr".toList info.multiAddr ++
    strMember "identity".toList info.identity ++
    if info.timestamp = 0 then []
    else [("timestamp".toList, .str (Nat.toDigits 10 info.timestamp.toNat))])

/-- A list of peers, left out when it is empty. -/
def peersMember (name : List Char) (peers : List PeerInfo) : List (List Char × Json) :=
  if peers = [] then [] else [(name, .arr (peers.map PeerInfo.toJson))]

def PeerData.save (d : PeerData) : Json :=
  .obj (peersMember "connectedPeers".toList d.connectedPeers ++
    peersMember "disconnectedPeers".toList d.disconnectedPeers)

end Write

section Read

/-- The key of a member names the field with the given tag. -/
def NamesField (tag key : List Char) : Prop := key.map Char.toLower = tag.map Char.toLower

instance (tag key : List Char) : Decidable (NamesField tag key) :=
  inferInstanceAs (Decidable (_ = _))

def Json.toStr : Json → Except UnmarshalErr (List Char)
  | .str s => .ok s
  | _ => .error .typeError

def Json.toUint64 : Json → Except UnmarshalErr UInt64
  | .num n => if n < 2 ^ 64 then .ok (UInt64.ofNat n) else .error .typeError
  | _ => .error .typeError

def readPeerInfoMember (info : PeerInfo) (member : List Char × Json) :
    Except UnmarshalErr PeerInfo :=
  if NamesField "ip".toList member.1 then do return { info with ip := ← member.2.toStr }
  else if NamesField "multi_addr".toList member.1 then do
    return { info with multiAddr := ← member.2.toStr }
  else if NamesField "identity".toList member.1 then do
    return { info with identity := ← member.2.toStr }
  else if NamesField "timestamp".toList member.1 then do
    return { info with timestamp := ← member.2.toUint64 }
  else .ok info

def Json.toPeerInfo : Json → Except UnmarshalErr PeerInfo
  | .obj members => members.foldlM readPeerInfoMember
      { ip := [], multiAddr := [], identity := [], timestamp := 0 }
  | _ => .error .typeError

def Json.toPeers : Json → Except UnmarshalErr (List PeerInfo)
  | .arr items => items.mapM Json.toPeerInfo
  | _ => .error .typeError

def readPeerDataMember (pbData : PeerData) (member : List Char × Json) :
    Except UnmarshalErr PeerData :=
  if NamesField "connected_peers".toList member.1 then do
    return { pbData with connectedPeers := ← member.2.toPeers }
  else if NamesField "disconnected_peers".toList member.1 then do
    return { pbData with disconnectedPeers := ← member.2.toPeers }
  else .ok pbData

/-- `json.Unmarshal` into the empty `PeerData` message of a new `PeerData`. -/
def Json.toPeerData : Json → Except UnmarshalErr PeerData
  | .obj members => members.foldlM readPeerDataMember
      { connectedPeers := [], disconnectedPeers := [] }
  | _ => .error .typeError

/-- `PeerData.Load` into a new `PeerData`: its list of disconnected peers. An address that
    does not parse leaves a nil entry. -/
def PeerData.load (file : Json) : Except UnmarshalErr (List (Option PeerInfo)) := do
  let pbData ← file.toPeerData
  return (pbData.connectedPeers ++ pbData.disconnectedPeers).map fun info =>
    newPeerInfo info.multiAddr info.timestamp

end Read

end Zond
