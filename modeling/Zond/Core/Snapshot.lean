import Zond.Core.StateDB
import Zond.Core.Transaction
import Zond.Lib.Rlp

/-!
# Reading an Account

The trie holds the RLP encoding of `types.StateAccount`. The snapshot holds that of its
own account type, which leaves out the storage root and the code hash when they are
those of an empty trie and of no code.

A pointer or a slice that may be nil is an `Option`. Two things that cannot be
told apart are not kept apart: a nil and an empty byte slice in a snapshot account,
of which only the length is looked at, and a nil and an empty bitfield.

## Main definitions

* `AccountReader.getDeletedStateObject`: An account that is not live, from the snapshot layer if the
  state was opened with one, and from the trie otherwise.
-/

namespace Zond

inductive RlpErr where
  | negativeBigInt
  | malformed
deriving DecidableEq, Repr

structure StateAccount where
  nonce : UInt64
  balance : Option Int
  stakeBalance : Option Int
  pendingStakeBalance : Option Int
  root : Hash
  codeHash : Option (List UInt8)
  otsBitfield : List (List.Vector UInt8 8)
deriving DecidableEq

structure SnapshotAccount where
  nonce : UInt64
  balance : Option Int
  stakeBalance : Option Int
  pendingStakeBalance : Option Int
  root : List UInt8
  codeHash : List UInt8
  otsBitfield : List (List.Vector UInt8 8)
deriving DecidableEq

def emptyRoot : Hash :=
  Bytes.alignRight 32 [0x56, 0xe8, 0x1f, 0x17, 0x1b, 0xcc, 0x55, 0xa6, 0xff, 0x83, 0x45, 0xe6,
    0x92, 0xc0, 0xf8, 0x6e, 0x5b, 0x48, 0xe0, 0x1b, 0x99, 0x6c, 0xad, 0xc0, 0x01, 0x62, 0x2f,
    0xb5, 0xe3, 0x63, 0xb4, 0x21]

/-- `emptyCodeHash`, which the snapshot package calls `emptyCode`. -/
def emptyCodeHash (c : Crypto) : List UInt8 := (c.keccak256 []).val

/-- `writeBigIntPtr`. A nil pointer is written as zero. -/
def writeBigIntPtr : Option Int → Except RlpErr Rlp.Item
  | none => .ok (.string [])
  | some x => if x < 0 then .error .negativeBigInt else .ok (Rlp.ofNat x.toNat)

/-- `decodeBigInt`: never nil. -/
def decodeBigInt (i : Rlp.Item) : Option (Option Int) :=
  i.toNat?.map (fun n : Nat => some (Int.ofNat n))

/-- The fields both account types have, as the encoder writes them. -/
def encodeFields (nonce : UInt64) (balance stakeBalance pendingStakeBalance : Option Int)
    (root codeHash : List UInt8) (otsBitfield : List (List.Vector UInt8 8)) :
    Except RlpErr Rlp.Item := do
  let balance ← writeBigIntPtr balance
  let stakeBalance ← writeBigIntPtr stakeBalance
  let pendingStakeBalance ← writeBigIntPtr pendingStakeBalance
  pure (.list [Rlp.ofNat nonce.toNat, balance, stakeBalance, pendingStakeBalance, .string root,
    .string codeHash, .list (otsBitfield.map (fun page => .string page.val))])

namespace StateAccount

def encode (a : StateAccount) : Except RlpErr Rlp.Item :=
  encodeFields a.nonce a.balance a.stakeBalance a.pendingStakeBalance a.root.val
    (a.codeHash.getD []) a.otsBitfield

/-- `rlp.DecodeBytes` into a `types.StateAccount`. The root is an array of 32 bytes. -/
def decode : Rlp.Item → Option StateAccount
  | .list [nonce, balance, stakeBalance, pendingStakeBalance, root, codeHash, otsBitfield] => do
      pure { nonce := ← nonce.toUint64?, balance := ← decodeBigInt balance
             stakeBalance := ← decodeBigInt stakeBalance
             pendingStakeBalance := ← decodeBigInt pendingStakeBalance
             root := ← root.toArray? 32, codeHash := some (← codeHash.toBytes?)
             otsBitfield := ← otsBitfield.toListOf? (fun page => page.toArray? 8) }
  | _ => none

/-- `newObject`: every field that is nil gets a value, and so does a zero root. -/
def newObject (c : Crypto) (data : StateAccount) : StateAccount :=
  { data with
    balance := some (data.balance.getD 0)
    stakeBalance := some (data.stakeBalance.getD 0)
    pendingStakeBalance := some (data.pendingStakeBalance.getD 0)
    codeHash := some (data.codeHash.getD (emptyCodeHash c))
    root := if data.root = zeroHash then emptyRoot else data.root }

end StateAccount

namespace SnapshotAccount

def encode (a : SnapshotAccount) : Except RlpErr Rlp.Item :=
  encodeFields a.nonce a.balance a.stakeBalance a.pendingStakeBalance a.root a.codeHash
    a.otsBitfield

/-- `rlp.DecodeBytes` into a `snapshot.Account`. The root is a slice. -/
def decode : Rlp.Item → Option SnapshotAccount
  | .list [nonce, balance, stakeBalance, pendingStakeBalance, root, codeHash, otsBitfield] => do
      pure { nonce := ← nonce.toUint64?, balance := ← decodeBigInt balance
             stakeBalance := ← decodeBigInt stakeBalance
             pendingStakeBalance := ← decodeBigInt pendingStakeBalance
             root := ← root.toBytes?, codeHash := ← codeHash.toBytes?
             otsBitfield := ← otsBitfield.toListOf? (fun page => page.toArray? 8) }
  | _ => none

/-- The `types.StateAccount` that `getDeletedStateObject` makes of a snapshot account. -/
def toStateAccount (c : Crypto) (acc : SnapshotAccount) : StateAccount :=
  { nonce := acc.nonce
    balance := acc.balance
    -- Not set from the snapshot, so nil.
    stakeBalance := none
    pendingStakeBalance := none
    root := if bytesToHash acc.root = zeroHash then emptyRoot else bytesToHash acc.root
    codeHash := some (if acc.codeHash.length = 0 then emptyCodeHash c else acc.codeHash)
    otsBitfield := acc.otsBitfield }

end SnapshotAccount

def slimAccount (c : Crypto) (a : StateAccount) : SnapshotAccount :=
  { nonce := a.nonce
    balance := a.balance
    stakeBalance := a.stakeBalance
    pendingStakeBalance := a.pendingStakeBalance
    root := if a.root ≠ emptyRoot then a.root.val else []
    codeHash := if a.codeHash.getD [] ≠ emptyCodeHash c then a.codeHash.getD [] else []
    otsBitfield := a.otsBitfield }

/-- `SlimAccountRLP`, with its panic as an error. -/
def slimAccountRLP (c : Crypto) (a : StateAccount) : Except RlpErr Rlp.Item :=
  (slimAccount c a).encode

def fullAccount (c : Crypto) (data : Rlp.Item) : Except RlpErr SnapshotAccount :=
  match SnapshotAccount.decode data with
  | none => .error .malformed
  | some account => .ok { account with
      root := if account.root.length = 0 then emptyRoot.val else account.root
      codeHash := if account.codeHash.length = 0 then emptyCodeHash c else account.codeHash }

def fullAccountRLP (c : Crypto) (data : Rlp.Item) : Except RlpErr Rlp.Item := do
  let account ← fullAccount c data
  account.encode

/-- What `getDeletedStateObject` reads. A layer or a trie answers with an error of type
    `ε`, with no data or with an item. -/
structure AccountReader (ε : Type) where
  stateObjects : AssocMap Address StateAccount
  snap : Option (Hash → Except ε (Option Rlp.Item))
  trie : Address → Except ε (Option Rlp.Item)
  dbErr : Option ε

namespace AccountReader

variable {ε : Type} (c : Crypto) (s : AccountReader ε) (addr : Address)

/-- `Account` of a snapshot layer. Data that do not decode are a panic. -/
def snapAccount (layer : Hash → Except ε (Option Rlp.Item)) (hash : Hash) :
    Except RlpErr (Except ε (Option SnapshotAccount)) :=
  match layer hash with
  | .error e => .ok (.error e)
  | .ok none => .ok (.ok none)
  | .ok (some item) =>
    match SnapshotAccount.decode item with
    | none => .error .malformed
    | some acc => .ok (.ok (some acc))

/-- `newObject` and `setStateObject`. -/
def insert (data : StateAccount) : Option StateAccount × AccountReader ε :=
  let obj := data.newObject c
  (some obj, { s with stateObjects := s.stateObjects.put addr obj })

/-- The trie part of `getDeletedStateObject`. The first error is remembered; data that
    do not decode are logged and count as absent. -/
def readTrie : Option StateAccount × AccountReader ε :=
  match s.trie addr with
  | .error e => (none, { s with dbErr := some (s.dbErr.getD e) })
  | .ok none => (none, s)
  | .ok (some item) =>
    match StateAccount.decode item with
    | none => (none, s)
    | some data => s.insert c addr data

def getDeletedStateObject : Except RlpErr (Option StateAccount × AccountReader ε) :=
  match s.stateObjects.get addr with
  | some obj => .ok (some obj, s)
  | none =>
    match s.snap with
    | none => .ok (s.readTrie c addr)
    | some layer =>
      match snapAccount layer (c.keccak256 addr.val) with
      | .error e => .error e
      -- A stale layer, or one that does not cover the address yet.
      | .ok (.error _) => .ok (s.readTrie c addr)
      | .ok (.ok none) => .ok (none, s)
      | .ok (.ok (some acc)) => .ok (s.insert c addr (acc.toStateAccount c))

end AccountReader

end Zond
