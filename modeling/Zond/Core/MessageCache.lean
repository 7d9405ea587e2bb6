import Zond.Core.Message
import Zond.Lib.Text

/-!
# The Message Caches

`p2p/mr.go`. `MessageReceipt` keeps two maps, the messages it can pass on and the messages
it has been told of, and for each a slice of the keys in the order they came, by which the
oldest entry is found when there are too many. The keys are hexadecimal texts. `CreateMR`
makes the slices with `make([]string, 1)`, so that each starts with one empty text.

## Main definitions

* `KeyCache`: A map and the slice of its keys, with what is done to each.
* `MessageCaches.step`: One call on the two caches.
* `MessageReceipt`: The caches of a node, as they come from `CreateMR`.

## Theorems

* `KeyCache.length_order_register`: The slice stays longer than its map.
-/

namespace Zond

open Outcome

def Config.messageQSize : Nat := 300

/-- A connection, as the pointer that stands for it in a map. -/
abbrev PeerId := Nat

/-- The kinds `CreateMR` allows: those that are announced before they are sent. -/
def FuncName.IsAllowedType : FuncName → Prop
  | .ba | .bk | .tt | .st | .attest => True
  | _ => False

instance : DecidablePred FuncName.IsAllowedType
  | .ba | .bk | .tt | .st | .attest => .isTrue trivial
  | .ve | .pl | .pong | .mr | .sfm | .fb | .pb | .sync | .chainState | .ebhReq | .ebhResp | .p2pAck
  | .unnamed _ => .isFalse id

/-- `misc.BytesToHexStr` of any bytes. -/
def hexKey (data : List UInt8) : List Char := '0' :: 'x' :: Text.hex data

/-- A map of `MessageReceipt` and the slice of its keys. -/
structure KeyCache (ν : Type) where
  mapping : AssocMap (List Char) ν
  order : List (List Char)

namespace KeyCache

variable {ν : Type}

def dropOldest (c : KeyCache ν) : Go (KeyCache ν) :=
  match c.order with
  | [] => .error (.panic .indexOutOfRange)
  | oldest :: order => .ok { mapping := c.mapping.erase oldest, order := order }

/-- The oldest entry makes room when the count is at the limit. -/
def makeRoom (c : KeyCache ν) (count : Nat) : Go (KeyCache ν) :=
  if Config.messageQSize ≤ count then c.dropOldest else .ok c

/-- `MessageReceipt.Register`, which counts the map. -/
def register (c : KeyCache ν) (msgHash : List Char) (msg : ν) : Go (KeyCache ν) := do
  let c ← c.makeRoom c.mapping.len
  return { mapping := c.mapping.put msgHash msg, order := c.order ++ [msgHash] }

/-- `MessageReceipt.addPeer`, for a message of an allowed type. It counts the slice. -/
def addPeer (c : KeyCache (List PeerId)) (msgHash : List Char) (peer : PeerId) :
    Go (KeyCache (List PeerId)) := do
  let c ← c.makeRoom c.order.length
  match c.mapping.get msgHash with
  | none => return { mapping := c.mapping.put msgHash [peer], order := c.order ++ [msgHash] }
  | some peers =>
    return { c with mapping := c.mapping.put msgHash (peer :: peers.erase peer) }

def removeRequestedHash (c : KeyCache ν) (msgHash : List Char) : KeyCache ν :=
  { mapping := c.mapping.erase msgHash, order := c.order.erase msgHash }

def removePeerFromRequestedHash (c : KeyCache (List PeerId)) (msgHash : List Char)
    (peer : PeerId) : KeyCache (List PeerId) :=
  match c.mapping.get msgHash with
  | none => c
  | some peers =>
    if peer ∈ peers then
      let c := { c with mapping := c.mapping.put msgHash (peers.erase peer) }
      if peers.erase peer = [] then c.removeRequestedHash msgHash else c
    else c

def isRequested (c : KeyCache (List PeerId)) (msgHash : List Char) (peer : PeerId) :
    Bool × KeyCache (List PeerId) :=
  if peer ∈ (c.mapping.get msgHash).getD [] then (true, c)
  else (false, c.removePeerFromRequestedHash msgHash peer)

theorem length_order_register {c c' : KeyCache ν} {key : List Char} {msg : ν}
    (h : min c.mapping.len Config.messageQSize < c.order.length)
    (hc' : c.register key msg = .ok c') :
    min c'.mapping.len Config.messageQSize < c'.order.length := by
  rcases bind_eq_ok.1 hc' with ⟨c₁, hroom, hput⟩
  cases hput
  rw [List.length_append, List.length_singleton]
  have hlen := c₁.mapping.len_put_le key msg
  unfold makeRoom dropOldest at hroom
  split at hroom
  · split at hroom
    · cases hroom
    · rename_i hfull oldest order horder
      cases hroom
      rw [horder, List.length_cons] at h
      dsimp only
      omega
  · cases hroom
    dsimp only
    omega

theorem get_register {c c' : KeyCache ν} {key k : List Char} {msg m : ν}
    (hc' : c.register key msg = .ok c') (hm : c'.mapping.get k = some m) :
    m = msg ∨ c.mapping.get k = some m := by
  rcases bind_eq_ok.1 hc' with ⟨c₁, hroom, hput⟩
  cases hput
  dsimp only at hm
  rw [AssocMap.get_put] at hm
  split at hm
  · exact .inl (Option.some.inj hm).symm
  · unfold makeRoom dropOldest at hroom
    split at hroom
    · split at hroom
      · cases hroom
      · cases hroom
        rw [AssocMap.get_erase] at hm
        split at hm
        · cases hm
        · exact .inr hm
    · cases hroom
      exact .inr hm

end KeyCache

structure MessageCaches where
  hashMsg : KeyCache LegacyMessage
  requestedHash : KeyCache (List PeerId)

inductive CacheCall where
  | register (msgHash : List Char) (msg : LegacyMessage)
  | addPeer (mrData : MRData) (peer : PeerId)
  | isRequested (msgHash : Hash) (peer : PeerId)
  | removeRequestedHash (msgHash : List Char)

namespace MessageCaches

def createMR : MessageCaches :=
  { hashMsg := { mapping := .empty, order := [[]] }
    requestedHash := { mapping := .empty, order := [[]] } }

def step (s : MessageCaches) : CacheCall → Go MessageCaches
  | .register msgHash msg => do return { s with hashMsg := ← s.hashMsg.register msgHash msg }
  | .addPeer mrData peer =>
    if mrData.type.IsAllowedType then do
      return { s with requestedHash := ← s.requestedHash.addPeer (hexKey mrData.hash) peer }
    else .ok s
  | .isRequested msgHash peer =>
    .ok { s with requestedHash := (s.requestedHash.isRequested (hexKey msgHash.val) peer).2 }
  | .removeRequestedHash msgHash =>
    .ok { s with requestedHash := s.requestedHash.removeRequestedHash msgHash }

end MessageCaches

/-- `MessageReceipt` as a node has it: only messages of an allowed kind are registered, and
    the slice of the messages is longer than the map, by what `CreateMR` puts in front. -/
structure MessageReceipt extends MessageCaches where
  allowed : ∀ h m, hashMsg.mapping.get h = some m → m.funcName.IsAllowedType
  listed : min hashMsg.mapping.len Config.messageQSize < hashMsg.order.length

namespace MessageReceipt

variable (mr : MessageReceipt)

def createMR : MessageReceipt :=
  { MessageCaches.createMR with allowed := nofun, listed := by decide }

def get (messageHash : List UInt8) : Option LegacyMessage :=
  mr.hashMsg.mapping.get (hexKey messageHash)

def Contains (messageHash : List UInt8) (type : FuncName) : Prop :=
  ∃ m ∈ mr.get messageHash, m.funcName = type

instance (messageHash : List UInt8) (type : FuncName) : Decidable (mr.Contains messageHash type) :=
  inferInstanceAs (Decidable (∃ m ∈ mr.get messageHash, m.funcName = type))

/-- `MessageReceipt.IsRequested`, which leaves the caches as they are. -/
def IsRequested (h : Hash) (peer : PeerId) : Prop :=
  (mr.requestedHash.isRequested (hexKey h.val) peer).1 = true

instance (h : Hash) (peer : PeerId) : Decidable (mr.IsRequested h peer) :=
  inferInstanceAs (Decidable (_ = true))

def addPeer (mrData : MRData) (peer : PeerId) : Go MessageReceipt :=
  if mrData.type.IsAllowedType then do
    return { mr with requestedHash := ← mr.requestedHash.addPeer (hexKey mrData.hash) peer }
  else .ok mr

/-- `MessageReceipt.Register`, which is called with messages of the allowed kinds. -/
def register (h : Hash) (m : LegacyMessage) : Go MessageReceipt :=
  if hm : m.funcName.IsAllowedType then
    match hc : mr.hashMsg.register (hexKey h.val) m with
    | .error e => .error e
    | .ok c => .ok
        { mr with
          hashMsg := c
          allowed := fun k m' hget => (KeyCache.get_register hc hget).elim
            (fun heq => heq ▸ hm) (mr.allowed k m')
          listed := KeyCache.length_order_register mr.listed hc }
  else .ok mr

end MessageReceipt

end Zond
