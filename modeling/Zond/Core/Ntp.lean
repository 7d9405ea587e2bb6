import Mathlib.Data.Int.Notation
import Mathlib.Data.Nat.Notation

/-!
# The Network Clock

`ntp/ntp.go`: a node asks time servers for the time and remembers by how much its own
clock differs. Times are Unix seconds in 64 bits. A server's answer comes with the local
time that is read right after it.

## Main definitions

* `NTP.updateTime`: Ask, and remember the difference.
* `NTP.time`: The local clock and the difference, asked for again when it is old.
-/

namespace Zond

/-- `NTP`, without its lock and configuration. -/
structure NTP where
  drift : Int64
  lastUpdate : UInt64
deriving DecidableEq

structure NTPConfig where
  retries : Int
  servers : List (List Char)
  refresh : UInt64

/-- An answer: the time of the server and of the local clock. -/
structure Reading where
  server : Int64
  localTime : Int64
deriving DecidableEq

/-- How the servers answer, by the retry and the server that is asked. -/
abbrev Query (ε : Type) := Nat → List Char → Except ε Reading

namespace NTP

variable {ε : Type} (cfg : NTPConfig)

def new : NTP := { drift := 0, lastUpdate := 0 }

/-- The first answer among the attempts, or the error of the last one. -/
def firstAnswer : List (Except ε Reading) → Option ε → Except (Option ε) Reading
  | [], err => .error err
  | .ok t :: _, _ => .ok t
  | .error e :: rest, _ => firstAnswer rest (some e)

/-- The two loops of `UpdateTime`. -/
def ask (query : Query ε) : Except (Option ε) Reading :=
  firstAnswer ((List.range (cfg.retries + 1).toNat).flatMap fun retry =>
    cfg.servers.map (query retry)) none

def updateTime (query : Query ε) (n : NTP) : NTP × Option ε :=
  match ask cfg query with
  | .ok t => ({ drift := t.localTime - t.server, lastUpdate := t.server.toUInt64 }, none)
  | .error err => (n, err)

/-- The test with which `Time` decides to ask the servers. -/
def Stale (n : NTP) (now : Int64) : Prop :=
  cfg.refresh < (now + n.drift).toUInt64 - n.lastUpdate

instance (n : NTP) (now : Int64) : Decidable (n.Stale cfg now) :=
  inferInstanceAs (Decidable (_ < _))

/-- `NTP.Time`, with the local times it reads before and after the update. -/
def time (now : Int64) (query : Query ε) (later : Int64) (n : NTP) : NTP × UInt64 :=
  let n := if n.Stale cfg now then (n.updateTime cfg query).1 else n
  (n, (later + n.drift).toUInt64)

end NTP

end Zond
