import Zond.Core.Message

/-!
# Sending to a Peer

The outgoing half of a connection. Every message that is written adds its size to the
counter of unconfirmed bytes. A confirmation takes off the number it carries, in
unsigned arithmetic, and the test for a negative result can never fire.

## Main definitions

* `Flow`: The queue, the counter and the stream.
* `Flow.send`, `Flow.sendNext`: Put on the queue, and write while the counter allows.
-/

namespace Zond

namespace Config

/-- `DevConfig.MaxBytesOut`: `MaxReceivableBytes - ReservedQuota`. -/
def maxBytesOut : UInt64 := 10 * 1024 * 1024 - 1024

/-- Nine tenths of `NodeConfig.PeerRateLimit`, which is 500. -/
def outRateLimit : UInt64 := 450

/-- 2.2 times `NodeConfig.PeerRateLimit`. -/
def inRateLimit : UInt64 := 1100

/-- The length of an outgoing queue that takes one more message. -/
def outgoingQueueSize : Nat := 2000

end Config

/-- The outgoing half of a connection. The queue has the last message pushed in front.
    `written` is everything written to the stream so far, the oldest first, and
    `streamUp` tells whether a write succeeds. -/
structure Flow where
  bytesSent : UInt64
  inCounter : UInt64
  outCounter : UInt64
  lastRateLimitUpdate : UInt64
  outgoingQueue : List LegacyMessage
  disconnected : Bool
  streamUp : Bool
  written : List LegacyMessage

def ack (totalBytesRead : UInt32) : LegacyMessage :=
  { funcName := .p2pAck, data := some (.p2pAckData totalBytesRead) }

namespace Flow

def new : Flow :=
  { bytesSent := 0, inCounter := 0, outCounter := 0, lastRateLimitUpdate := 0
    outgoingQueue := [], disconnected := false, streamUp := true, written := [] }

def updateCounters (f : Flow) (time : UInt64) : Flow :=
  if 60 < time - f.lastRateLimitUpdate then
    { f with outCounter := 0, inCounter := 0, lastRateLimitUpdate := time }
  else f

def disconnect (f : Flow) : Flow := { f with disconnected := true }

variable (marshalSize : LegacyMessage → Nat)

/-- `len(outgoingBytes)`: four bytes of length and the message. -/
def wireSize (m : LegacyMessage) : Nat := 4 + marshalSize m

/-- The loop of `Peer.SendNext`, over what is left of the queue. -/
def writeQueue : List LegacyMessage → Flow → Flow × Option Err
  | queue, f =>
    if f.bytesSent < Config.maxBytesOut then
      match queue with
      | [] => ({ f with outgoingQueue := [] }, none)
      | m :: rest =>
        let f := { f with bytesSent := f.bytesSent + UInt64.ofNat (wireSize marshalSize m) }
        if f.streamUp then writeQueue rest { f with written := f.written ++ [m] }
        else (disconnect { f with outgoingQueue := rest }, none)
    else ({ f with outgoingQueue := queue }, some .maxBytesOut)

def sendNext (time : UInt64) (f : Flow) : Flow × Option Err :=
  if f.disconnected then (f, some .peerDisconnected)
  else
    let f := f.updateCounters time
    if Config.outRateLimit ≤ f.outCounter then (f, none)
    else writeQueue marshalSize f.outgoingQueue f

/-- `Peer.Send`. A name without a priority is dropped. -/
def send (time : UInt64) (m : LegacyMessage) (f : Flow) : Flow × Option Err :=
  if m.funcName.IsNamed then
    if Config.outgoingQueueSize < f.outgoingQueue.length then (f, some .outgoingQueueFull)
    else sendNext marshalSize time { f with outgoingQueue := m :: f.outgoingQueue }
  else (f, none)

/-- The counter after a confirmation. The test `p.bytesSent < 0` that follows in the
    source is false of every `uint64`. -/
def settle (f : Flow) (bytesProcessed : UInt32) : Flow :=
  { f with bytesSent := f.bytesSent - bytesProcessed.toUInt64 }

end Flow

end Zond
