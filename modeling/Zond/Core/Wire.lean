import Zond.Core.Flow
import Zond.Core.Helper

/-!
# Messages on the Wire

The length of the encoding stands in front of it as four big-endian bytes.

## Main definitions

* `createOutgoingMessage`: A message as bytes.
* `readMsgs`: `ReadMsg`, call after call: the length rebuilt with shifts, and that much more.
-/

namespace Zond

/-- `Server.messagePriority`, as `NewServer` fills it. -/
def messagePriority : FuncName → Option UInt64
  | .ve | .pl | .pong | .fb | .pb | .sync | .chainState | .ebhReq | .ebhResp | .p2pAck => some 0
  | .sfm | .ba | .bk | .tt | .st | .attest => some 1
  | .mr => some 2
  | .unnamed _ => none

/-- `proto.Marshal` and `proto.Unmarshal` of a message. What was encoded decodes to the
    message it came from. -/
structure Codec where
  marshal : LegacyMessage → Option (List UInt8)
  unmarshal : List UInt8 → Option LegacyMessage
  unmarshal_marshal : ∀ m data, marshal m = some data → unmarshal data = some m

structure OutgoingMessage where
  msg : LegacyMessage
  priority : UInt64
  timestamp : UInt64
  bytesMessage : List UInt8

def putUint32 (v : UInt32) : List UInt8 :=
  [(v >>> 24).toUInt8, (v >>> 16).toUInt8, (v >>> 8).toUInt8, v.toUInt8]

/-- `CreateOutgoingMessage` at the given time. -/
def createOutgoingMessage (codec : Codec) (time priority : UInt64) (msg : LegacyMessage) :
    Option OutgoingMessage := do
  let data ← codec.marshal msg
  return { msg := msg, priority := priority, timestamp := time
           bytesMessage := putUint32 (UInt32.ofNat data.length) ++ data }

inductive ReadError where
  | eof
  | unexpectedEOF
  | unmarshal
deriving DecidableEq

def readFull (n : Nat) (stream : List UInt8) : Except ReadError (List UInt8 × List UInt8) :=
  if n ≤ stream.length then .ok (stream.take n, stream.drop n)
  else if stream = [] then .error .eof
  else .error .unexpectedEOF

/-- `Peer.ReadMsg`: the message with its size, and the rest of the stream. -/
def readMsg (codec : Codec) (stream : List UInt8) :
    Except ReadError ((LegacyMessage × UInt32) × List UInt8) := do
  match ← readFull 4 stream with
  | ([b0, b1, b2, b3], stream) =>
    let size := convertBytesToLong b0 b1 b2 b3
    let (buf, stream) ← readFull size.toNat stream
    match codec.unmarshal buf with
    | none => .error .unmarshal
    | some message => .ok ((message, size + 4), stream)
  -- `ReadFull` fills its buffer.
  | _ => .error .unexpectedEOF

/-- So many calls of `ReadMsg` in a row. -/
def readMsgs (codec : Codec) :
    Nat → List UInt8 → Except ReadError (List (LegacyMessage × UInt32) × List UInt8)
  | 0, stream => .ok ([], stream)
  | n + 1, stream => do
      let (first, stream) ← readMsg codec stream
      let (later, stream) ← readMsgs codec n stream
      return (first :: later, stream)

end Zond
