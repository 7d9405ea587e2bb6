import Zond.Core.Snapshot
import Zond.Lib.UndoLog

/-!
# The Journaled State

The state database as `RevertToSnapshot` finds it. Accounts are changed in place
through their live objects, and every change appends a journal entry that says how
to take it back. `StateDB` leaves the journal out and restores the value a snapshot
had; here the entries are replayed.

An account that is not live is read from below and put among the live objects. A
storage slot is looked up among the writes of the transaction, then among those of
the block, then among the slots already read, and last below; what is read is kept.
Below is a parameter: the snapshot layer or the tries, which do not change while the
state is used.

The storage of an account can be replaced for a call from outside. From then on its slots are
looked up in the fake storage and written there, past the journal.

## Main definitions

* `LiveObject`: An account in use, with its caches.
* `LiveState`: The fields of the state that journal entries act on.
* `JournalEntry.revert`: How an entry is taken back.
* `JournaledDB`: The state with its journal and snapshots.
* `Op`: The operations that are journaled, and those that go back.
-/

namespace Zond

/-- `types.StateAccount` in a live object, where `newObject` has left nothing nil. -/
structure ObjectData where
  nonce : UInt64
  balance : Int
  stakeBalance : Int
  pendingStakeBalance : Int
  root : Hash
  codeHash : Hash
  otsBitfield : List (List.Vector UInt8 8)
deriving DecidableEq

namespace ObjectData

def new (c : Crypto) : ObjectData :=
  { nonce := 0, balance := 0, stakeBalance := 0, pendingStakeBalance := 0, root := emptyRoot
    codeHash := c.keccak256 [], otsBitfield := [] }

def encode (d : ObjectData) : Except RlpErr Rlp.Item :=
  encodeFields d.nonce (some d.balance) (some d.stakeBalance) (some d.pendingStakeBalance)
    d.root.val d.codeHash.val d.otsBitfield

end ObjectData

def setByte (page : List.Vector UInt8 8) (n : Nat) (value : UInt8) : List.Vector UInt8 8 :=
  ⟨page.val.set n value, (List.length_set ..).trans page.property⟩

structure LiveObject where
  data : ObjectData
  code : Option (List UInt8)
  originStorage : AssocMap Hash Hash
  pendingStorage : AssocMap Hash Hash
  dirtyStorage : AssocMap Hash Hash
  fakeStorage : Option (AssocMap Hash Hash)
  suicided : Bool
  deleted : Bool

structure Backend where
  /-- The account the snapshot or the trie has for an address. -/
  account : Address → Option ObjectData
  /-- `Database.ContractCode`. -/
  contractCode : Address → Hash → List UInt8
  /-- The slots of a storage trie, by its root. -/
  storage : Address → Hash → Hash → Hash
  /-- `Storage` of the snapshot, if there is one; it may fail. -/
  snapStorage : Option (Address → Hash → Option Hash)

namespace LiveObject

def new (data : ObjectData) : LiveObject :=
  { data := data, code := none, originStorage := AssocMap.empty, pendingStorage := AssocMap.empty
    dirtyStorage := AssocMap.empty, fakeStorage := none, suicided := false, deleted := false }

def Empty (c : Crypto) (obj : LiveObject) : Prop :=
  obj.data.nonce = 0 ∧ obj.data.balance = 0 ∧ obj.data.codeHash = c.keccak256 []

instance (c : Crypto) (obj : LiveObject) : Decidable (obj.Empty c) :=
  inferInstanceAs (Decidable (_ ∧ _ ∧ _))

def setBalance (obj : LiveObject) (amount : Int) : LiveObject :=
  { obj with data := { obj.data with balance := amount } }

def setStakeBalance (obj : LiveObject) (amount : Int) : LiveObject :=
  { obj with data := { obj.data with stakeBalance := amount } }

def setPendingStakeBalance (obj : LiveObject) (amount : Int) : LiveObject :=
  { obj with data := { obj.data with pendingStakeBalance := amount } }

def setNonce (obj : LiveObject) (nonce : UInt64) : LiveObject :=
  { obj with data := { obj.data with nonce := nonce } }

def setCode (obj : LiveObject) (codeHash : Hash) (code : List UInt8) : LiveObject :=
  { obj with code := some code, data := { obj.data with codeHash := codeHash } }

def setState (obj : LiveObject) (key value : Hash) : LiveObject :=
  { obj with dirtyStorage := obj.dirtyStorage.put key value }

/-- `stateObject.SetStorage`: what is given is put into the fake storage, made if there is none. -/
def setStorage (obj : LiveObject) (storage : List (Hash × Hash)) : LiveObject :=
  { obj with
    fakeStorage := some (storage.foldl (fun fake kv => fake.put kv.1 kv.2)
      (obj.fakeStorage.getD AssocMap.empty)) }

/-- `stateObject.setOTSBitfield`: the field is made if there is none, and one byte of it is
    set to 0 when reverting and to 1 otherwise. -/
def setOTSBitfield (obj : LiveObject) (addr : Address) (otsIndex : Nat) (revert : Bool) :
    Go LiveObject :=
  let field := otsField addr obj.data.otsBitfield
  match field[otsIndex / 8]? with
  | none => .error (.panic .indexOutOfRange)
  | some page =>
    let page := setByte page (otsIndex % 8) (if revert then 0 else 1)
    .ok { obj with data := { obj.data with otsBitfield := field.set (otsIndex / 8) page } }

/-- `stateObject.Code`, with the object that remembers what was loaded. -/
def getCode (c : Crypto) (db : Backend) (addr : Address) (obj : LiveObject) :
    List UInt8 × LiveObject :=
  match obj.code with
  | some code => (code, obj)
  | none =>
    if obj.data.codeHash = c.keccak256 [] then ([], obj)
    else
      let code := db.contractCode addr obj.data.codeHash
      (code, { obj with code := some code })

/-- A slot as it is read below the object. In an account destructed in this block a slot that
    the snapshot would answer for is zero, which is not remembered. -/
def readSlot (db : Backend) (destructed : Bool) (addr : Address) (obj : LiveObject) (key : Hash) :
    Option Hash :=
  match db.snapStorage with
  | none => some (db.storage addr obj.data.root key)
  | some layer =>
    if destructed then none
    else some ((layer addr key).getD (db.storage addr obj.data.root key))

def getCommittedState (db : Backend) (destructed : Bool) (addr : Address) (obj : LiveObject)
    (key : Hash) : Hash × LiveObject :=
  match obj.fakeStorage with
  | some fake => ((fake.get key).getD zeroHash, obj)
  | none =>
    match obj.pendingStorage.get key with
    | some value => (value, obj)
    | none =>
      match obj.originStorage.get key with
      | some value => (value, obj)
      | none =>
        match obj.readSlot db destructed addr key with
        | none => (zeroHash, obj)
        | some value => (value, { obj with originStorage := obj.originStorage.put key value })

def getState (db : Backend) (destructed : Bool) (addr : Address) (obj : LiveObject) (key : Hash) :
    Hash × LiveObject :=
  match obj.fakeStorage with
  | some fake => ((fake.get key).getD zeroHash, obj)
  | none =>
    match obj.dirtyStorage.get key with
    | some value => (value, obj)
    | none => obj.getCommittedState db destructed addr key

end LiveObject

/-- The slots accessed of one account, of which there is at least one. -/
abbrev SlotSet := { slots : List Hash // slots ≠ [] }

/-- `accessList`. An address without slots has no index into `slots`, for which the source has
    the index -1. -/
structure AccessList where
  addresses : AssocMap Address (Option Nat)
  slots : List SlotSet

namespace AccessList

def new : AccessList := { addresses := AssocMap.empty, slots := [] }

def containsAddress (al : AccessList) (address : Address) : Bool :=
  (al.addresses.get address).isSome

/-- `Contains`: whether the address is there, and whether the slot is. -/
def contains (al : AccessList) (address : Address) (slot : Hash) : Go (Bool × Bool) :=
  match al.addresses.get address with
  | none => .ok (false, false)
  | some none => .ok (true, false)
  | some (some idx) =>
    match al.slots[idx]? with
    | none => .error (.panic .indexOutOfRange)
    | some slotmap => .ok (true, decide (slot ∈ slotmap.val))

/-- `AddAddress`: the list after it, and whether it has changed. -/
def addAddress (al : AccessList) (address : Address) : AccessList × Bool :=
  match al.addresses.get address with
  | some _ => (al, false)
  | none => ({ al with addresses := al.addresses.put address none }, true)

/-- `AddSlot` when the address has no slots yet. -/
def addFirstSlot (al : AccessList) (address : Address) (slot : Hash) : AccessList :=
  { addresses := al.addresses.put address (some al.slots.length)
    slots := al.slots ++ [⟨[slot], List.cons_ne_nil _ _⟩] }

/-- `AddSlot`: the list after it, whether the address is new and whether the slot is. -/
def addSlot (al : AccessList) (address : Address) (slot : Hash) : Go (AccessList × Bool × Bool) :=
  match al.addresses.get address with
  | none => .ok (al.addFirstSlot address slot, true, true)
  | some none => .ok (al.addFirstSlot address slot, false, true)
  | some (some idx) =>
    match al.slots[idx]? with
    | none => .error (.panic .indexOutOfRange)
    | some slotmap =>
      if slot ∈ slotmap.val then .ok (al, false, false)
      else .ok ({ al with
        slots := al.slots.set idx ⟨slot :: slotmap.val, List.cons_ne_nil _ _⟩ }, false, true)

/-- `DeleteSlot`: with its last slot the account leaves `slots`, and all after it. -/
def deleteSlot (al : AccessList) (address : Address) (slot : Hash) : Go AccessList :=
  match al.addresses.get address with
  | none => .error (.panic .accessListSlotWithoutAddress)
  | some none => .error (.panic .indexOutOfRange)
  | some (some idx) =>
    match al.slots[idx]? with
    | none => .error (.panic .indexOutOfRange)
    | some slotmap =>
      let rest := slotmap.val.filter (fun s => s ≠ slot)
      if h : rest = [] then
        .ok { addresses := al.addresses.put address none, slots := al.slots.take idx }
      else .ok { al with slots := al.slots.set idx ⟨rest, h⟩ }

def deleteAddress (al : AccessList) (address : Address) : AccessList :=
  { al with addresses := al.addresses.erase address }

end AccessList

/-- The state the journal entries act on: the fields of `StateDB`, and the dirty counts of its
    journal. -/
structure LiveState where
  db : Backend
  stateObjects : AssocMap Address LiveObject
  snapDestructs : List Address
  refund : UInt64
  thash : Hash
  txIndex : Nat
  logs : AssocMap Hash (List Log)
  logSize : Nat
  preimages : AssocMap Hash (List UInt8)
  accessList : AccessList
  dirties : AssocMap Address Int

namespace LiveState

def new (db : Backend) : LiveState :=
  { db := db, stateObjects := AssocMap.empty, snapDestructs := [], refund := 0, thash := zeroHash
    txIndex := 0, logs := AssocMap.empty, logSize := 0, preimages := AssocMap.empty
    accessList := AccessList.new, dirties := AssocMap.empty }

def setStateObject (s : LiveState) (addr : Address) (obj : LiveObject) : LiveState :=
  { s with stateObjects := s.stateObjects.put addr obj }

/-- `StateDB.getDeletedStateObject`, with the state that has the object among its live ones. -/
def getDeletedStateObject (s : LiveState) (addr : Address) : Option LiveObject × LiveState :=
  match s.stateObjects.get addr with
  | some obj => (some obj, s)
  | none =>
    match s.db.account addr with
    | none => (none, s)
    | some data => (some (LiveObject.new data), s.setStateObject addr (LiveObject.new data))

def getStateObject (s : LiveState) (addr : Address) : Option LiveObject × LiveState :=
  let (obj, s) := s.getDeletedStateObject addr
  (obj.filter (fun obj => !obj.deleted), s)

/-- Whether the snapshot no longer answers for the slots of the account. -/
def destructed (s : LiveState) (addr : Address) : Bool := decide (addr ∈ s.snapDestructs)

def destruct (s : LiveState) (addr : Address) : LiveState :=
  { s with snapDestructs := insertNew addr s.snapDestructs }

def undestruct (s : LiveState) (addr : Address) : LiveState :=
  { s with snapDestructs := s.snapDestructs.filter (fun a => a ≠ addr) }

def eraseObject (s : LiveState) (addr : Address) : LiveState :=
  { s with stateObjects := s.stateObjects.erase addr }

def found (s : LiveState) (addr : Address) : Option LiveObject := (s.getStateObject addr).1

def exist (s : LiveState) (addr : Address) : Bool := (s.found addr).isSome

def empty (c : Crypto) (s : LiveState) (addr : Address) : Bool :=
  (s.found addr).all (fun obj => decide (obj.Empty c))

def getBalance (s : LiveState) (addr : Address) : Int :=
  (s.found addr).elim 0 (fun obj => obj.data.balance)

def getStakeBalance (s : LiveState) (addr : Address) : Int :=
  (s.found addr).elim 0 (fun obj => obj.data.stakeBalance)

def getPendingStakeBalance (s : LiveState) (addr : Address) : Int :=
  (s.found addr).elim 0 (fun obj => obj.data.pendingStakeBalance)

def getNonce (s : LiveState) (addr : Address) : UInt64 :=
  (s.found addr).elim 0 (fun obj => obj.data.nonce)

def getOTSBitfield (s : LiveState) (addr : Address) : List (List.Vector UInt8 8) :=
  (s.found addr).elim [] (fun obj => obj.data.otsBitfield)

def getCode (c : Crypto) (s : LiveState) (addr : Address) : List UInt8 :=
  (s.found addr).elim [] (fun obj => (obj.getCode c s.db addr).1)

def getCodeSize (c : Crypto) (s : LiveState) (addr : Address) : Nat := (s.getCode c addr).length

def getCodeHash (s : LiveState) (addr : Address) : Hash :=
  (s.found addr).elim zeroHash (fun obj => obj.data.codeHash)

def getState (s : LiveState) (addr : Address) (key : Hash) : Hash :=
  (s.found addr).elim zeroHash (fun obj => (obj.getState s.db (s.destructed addr) addr key).1)

def getCommittedState (s : LiveState) (addr : Address) (key : Hash) : Hash :=
  (s.found addr).elim zeroHash
    (fun obj => (obj.getCommittedState s.db (s.destructed addr) addr key).1)

def hasSuicided (s : LiveState) (addr : Address) : Bool := (s.found addr).any (fun o => o.suicided)

def getLogs (s : LiveState) (hash blockHash : Hash) : List Log :=
  ((s.logs.get hash).getD []).map (fun l => { l with blockHash := blockHash })

/-- The encoding of the account an address is read through. -/
def encoding (s : LiveState) (addr : Address) : Option (Except RlpErr Rlp.Item) :=
  (s.found addr).map (fun obj => obj.data.encode)

def dirtyCount (s : LiveState) (addr : Address) : Int := (s.dirties.get addr).getD 0

/-- `journal.dirty`, and the dirty count of `journal.append`. -/
def addDirty (s : LiveState) (addr : Address) : LiveState :=
  { s with dirties := s.dirties.put addr (s.dirtyCount addr + 1) }

/-- The dirty count of `journal.revert`. -/
def dropDirty (s : LiveState) (addr : Address) : LiveState :=
  let count := s.dirtyCount addr - 1
  { s with dirties := if count = 0 then s.dirties.erase addr else s.dirties.put addr count }

end LiveState

inductive JournalEntry where
  | createObject (account : Address)
  | resetObject (account : Address) (prev : LiveObject) (prevdestruct : Bool)
  | suicide (account : Address) (prev : Bool) (prevbalance : Int)
  | balance (account : Address) (prev : Int)
  | stakeBalance (account : Address) (prev : Int)
  | pendingStakeBalance (account : Address) (prev : Int)
  | nonce (account : Address) (prev : UInt64)
  | otsBitfield (account : Address) (otsIndex : Nat)
  | storage (account : Address) (key prevalue : Hash)
  | code (account : Address) (prevcode : List UInt8) (prevhash : Hash)
  | refund (prev : UInt64)
  | addLog (txhash : Hash)
  | addPreimage (hash : Hash)
  | touch (account : Address)
  | accessListAddAccount (address : Address)
  | accessListAddSlot (address : Address) (slot : Hash)

namespace JournalEntry

def dirtied : JournalEntry → Option Address
  | createObject a | suicide a _ _ | balance a _ | stakeBalance a _ | pendingStakeBalance a _
  | nonce a _ | otsBitfield a _ | storage a _ _ | code a _ _ | touch a => some a
  | resetObject _ _ _ | refund _ | addLog _ | addPreimage _ | accessListAddAccount _
  | accessListAddSlot _ _ => none

/-- Change the object of an address. Without an object there is a nil pointer. -/
def alter (account : Address) (f : LiveObject → Go LiveObject) (s : LiveState) : Go LiveState :=
  match s.getStateObject account with
  | (none, _) => .error (.panic .nilDereference)
  | (some obj, s) => do
      let obj ← f obj
      pure (s.setStateObject account obj)

def resetBack (account : Address) (prev : LiveObject) (prevdestruct : Bool) (s : LiveState) :
    LiveState :=
  let s := s.setStateObject account prev
  if prevdestruct = false ∧ s.db.snapStorage.isSome then s.undestruct account else s

def suicideBack (account : Address) (prev : Bool) (prevbalance : Int) (s : LiveState) : LiveState :=
  match s.getStateObject account with
  | (none, s) => s
  | (some obj, s) => s.setStateObject account { obj.setBalance prevbalance with suicided := prev }

def dropLog (txhash : Hash) (s : LiveState) : Go LiveState :=
  let logs := (s.logs.get txhash).getD []
  if logs.length = 0 then .error (.panic .indexOutOfRange)
  else
    let left := if logs.length = 1 then s.logs.erase txhash else s.logs.put txhash logs.dropLast
    .ok { s with logs := left, logSize := s.logSize - 1 }

/-- The `revert` method of each kind of entry. -/
def undo : JournalEntry → LiveState → Go LiveState
  | createObject account, s => .ok (s.eraseObject account)
  | resetObject account prev prevdestruct, s => .ok (resetBack account prev prevdestruct s)
  | suicide account prev prevbalance, s => .ok (suicideBack account prev prevbalance s)
  | balance account prev, s => alter account (fun obj => .ok (obj.setBalance prev)) s
  | stakeBalance account prev, s => alter account (fun obj => .ok (obj.setStakeBalance prev)) s
  | pendingStakeBalance account prev, s =>
    alter account (fun obj => .ok (obj.setPendingStakeBalance prev)) s
  | nonce account prev, s => alter account (fun obj => .ok (obj.setNonce prev)) s
  | otsBitfield account otsIndex, s =>
    alter account (fun obj => obj.setOTSBitfield account otsIndex true) s
  | storage account key prevalue, s => alter account (fun obj => .ok (obj.setState key prevalue)) s
  | code account prevcode prevhash, s =>
    alter account (fun obj => .ok (obj.setCode prevhash prevcode)) s
  | refund prev, s => .ok { s with refund := prev }
  | addLog txhash, s => dropLog txhash s
  | addPreimage hash, s => .ok { s with preimages := s.preimages.erase hash }
  | touch _, s => .ok s
  | accessListAddAccount address, s =>
    .ok { s with accessList := s.accessList.deleteAddress address }
  | accessListAddSlot address slot, s => do
      let accessList ← s.accessList.deleteSlot address slot
      pure { s with accessList := accessList }

/-- One turn of the loop of `journal.revert`. -/
def revert (e : JournalEntry) (s : LiveState) : Go LiveState := do
  let s ← e.undo s
  pure (e.dirtied.elim s s.dropDirty)

end JournalEntry

abbrev JournaledDB := UndoLog.Journal LiveState JournalEntry

namespace JournaledDB

def new (db : Backend) : JournaledDB :=
  { state := LiveState.new db, entries := [], validRevisions := [], nextRevisionId := 0 }

def revertToSnapshot (j : JournaledDB) (revid : Nat) : Go JournaledDB :=
  UndoLog.Journal.revertToSnapshot JournalEntry.revert (.panic (.invalidRevision revid)) j revid

def withState (j : JournaledDB) (s : LiveState) : JournaledDB := { j with state := s }

def append (j : JournaledDB) (e : JournalEntry) : JournaledDB :=
  { j with state := e.dirtied.elim j.state j.state.addDirty, entries := j.entries ++ [e] }

def setStateObject (j : JournaledDB) (addr : Address) (obj : LiveObject) : JournaledDB :=
  j.withState (j.state.setStateObject addr obj)

/-- `StateDB.createObject`: the state with the new object, and the one it is put in place of. -/
def createObject (c : Crypto) (j : JournaledDB) (addr : Address) :
    JournaledDB × Option LiveObject :=
  let (prev, s) := j.state.getDeletedStateObject addr
  let obj := LiveObject.new (ObjectData.new c)
  match prev with
  | none => (((j.withState s).append (.createObject addr)).setStateObject addr obj, none)
  | some prev =>
    let prevdestruct := s.db.snapStorage.isSome && s.destructed addr
    let s := if s.db.snapStorage.isSome then s.destruct addr else s
    ((((j.withState s).append (.resetObject addr prev prevdestruct)).setStateObject addr obj),
      if prev.deleted then none else some prev)

def getOrNewStateObject (c : Crypto) (j : JournaledDB) (addr : Address) :
    LiveObject × JournaledDB :=
  match j.state.getStateObject addr with
  | (some obj, s) => (obj, j.withState s)
  | (none, s) => (LiveObject.new (ObjectData.new c), (createObject c (j.withState s) addr).1)

/-- A setter of `stateObject`: journal the change, then make it. -/
def write (c : Crypto) (j : JournaledDB) (addr : Address) (entry : LiveObject → JournalEntry)
    (f : LiveObject → LiveObject) : JournaledDB :=
  let (obj, j) := getOrNewStateObject c j addr
  (j.append (entry obj)).setStateObject addr (f obj)

def setBalance (c : Crypto) (j : JournaledDB) (addr : Address) (amount : Int) : JournaledDB :=
  write c j addr (fun obj => .balance addr obj.data.balance) (fun obj => obj.setBalance amount)

def setStakeBalance (c : Crypto) (j : JournaledDB) (addr : Address) (amount : Int) : JournaledDB :=
  write c j addr (fun obj => .stakeBalance addr obj.data.stakeBalance)
    (fun obj => obj.setStakeBalance amount)

def setPendingStakeBalance (c : Crypto) (j : JournaledDB) (addr : Address) (amount : Int) :
    JournaledDB :=
  write c j addr (fun obj => .pendingStakeBalance addr obj.data.pendingStakeBalance)
    (fun obj => obj.setPendingStakeBalance amount)

def setNonce (c : Crypto) (j : JournaledDB) (addr : Address) (nonce : UInt64) : JournaledDB :=
  write c j addr (fun obj => .nonce addr obj.data.nonce) (fun obj => obj.setNonce nonce)

def setCode (c : Crypto) (j : JournaledDB) (addr : Address) (code : List UInt8) : JournaledDB :=
  write c j addr (fun obj => .code addr (obj.getCode c j.state.db addr).1 obj.data.codeHash)
    (fun obj => obj.setCode (c.keccak256 code) code)

/-- `StateDB.AddBalance`: adding zero touches an empty account. -/
def addBalance (c : Crypto) (j : JournaledDB) (addr : Address) (amount : Int) : JournaledDB :=
  let (obj, j) := getOrNewStateObject c j addr
  if amount = 0 then
    if obj.Empty c then
      let j := j.append (.touch addr)
      if addr = ripemd then j.withState (j.state.addDirty addr) else j
    else j
  else setBalance c j addr (obj.data.balance + amount)

def subBalance (c : Crypto) (j : JournaledDB) (addr : Address) (amount : Int) : JournaledDB :=
  let (obj, j) := getOrNewStateObject c j addr
  if amount = 0 then j else setBalance c j addr (obj.data.balance - amount)

/-- `StateDB.SetState`: a value that is there already is not written. A write to fake storage is
    not journaled. -/
def setState (c : Crypto) (j : JournaledDB) (addr : Address) (key value : Hash) : JournaledDB :=
  let (obj, j) := getOrNewStateObject c j addr
  match obj.fakeStorage with
  | some fake => j.setStateObject addr { obj with fakeStorage := some (fake.put key value) }
  | none =>
    let (prev, obj) := obj.getState j.state.db (j.state.destructed addr) addr key
    if prev = value then j.setStateObject addr obj
    else (j.append (.storage addr key prev)).setStateObject addr (obj.setState key value)

def setStorage (c : Crypto) (j : JournaledDB) (addr : Address) (storage : List (Hash × Hash)) :
    JournaledDB :=
  let (obj, j) := getOrNewStateObject c j addr
  j.setStateObject addr (obj.setStorage storage)

def setOTSBitfield (c : Crypto) (j : JournaledDB) (addr : Address) (otsIndex : Nat)
    (revert : Bool) : Go JournaledDB := do
  let (obj, j) := getOrNewStateObject c j addr
  let obj ← obj.setOTSBitfield addr otsIndex revert
  pure ((j.append (.otsBitfield addr otsIndex)).setStateObject addr obj)

/-- `StateDB.CreateAccount`: a new object that keeps the balance. -/
def createAccount (c : Crypto) (j : JournaledDB) (addr : Address) : JournaledDB :=
  match createObject c j addr with
  | (j, none) => j
  | (j, some prev) =>
    j.setStateObject addr ((LiveObject.new (ObjectData.new c)).setBalance prev.data.balance)

def suicide (j : JournaledDB) (addr : Address) : JournaledDB :=
  match j.state.getStateObject addr with
  | (none, s) => j.withState s
  | (some obj, s) =>
    ((j.withState s).append (.suicide addr obj.suicided obj.data.balance)).setStateObject
      addr { obj.setBalance 0 with suicided := true }

def addRefund (j : JournaledDB) (gas : UInt64) : JournaledDB :=
  let j := j.append (.refund j.state.refund)
  j.withState { j.state with refund := j.state.refund + gas }

def subRefund (j : JournaledDB) (gas : UInt64) : Go JournaledDB :=
  let j := j.append (.refund j.state.refund)
  if j.state.refund < gas then .error (.panic (.refundBelowZero gas j.state.refund))
  else .ok (j.withState { j.state with refund := j.state.refund - gas })

/-- `StateDB.AddLog`: hash, transaction and index are filled in. -/
def addLog (j : JournaledDB) (log : Log) : JournaledDB :=
  let j := j.append (.addLog j.state.thash)
  let s := j.state
  let log := { log with txHash := s.thash, txIndex := s.txIndex, index := s.logSize }
  j.withState { s with
    logs := s.logs.put s.thash ((s.logs.get s.thash).getD [] ++ [log])
    logSize := s.logSize + 1 }

def addPreimage (j : JournaledDB) (hash : Hash) (preimage : List UInt8) : JournaledDB :=
  match j.state.preimages.get hash with
  | some _ => j
  | none =>
    let j := j.append (.addPreimage hash)
    j.withState { j.state with preimages := j.state.preimages.put hash preimage }

def addAddressToAccessList (j : JournaledDB) (addr : Address) : JournaledDB :=
  let (accessList, changed) := j.state.accessList.addAddress addr
  let j := j.withState { j.state with accessList := accessList }
  if changed then j.append (.accessListAddAccount addr) else j

def addSlotToAccessList (j : JournaledDB) (addr : Address) (slot : Hash) : Go JournaledDB := do
  let (accessList, addrMod, slotMod) ← j.state.accessList.addSlot addr slot
  let j := j.withState { j.state with accessList := accessList }
  let j := if addrMod then j.append (.accessListAddAccount addr) else j
  pure (if slotMod then j.append (.accessListAddSlot addr slot) else j)

/-- `StateDB.PrepareAccessList` for a transaction without an access list of its own. The new list
    is not journaled. -/
def prepareAccessList (j : JournaledDB) (sender : Address) (dst : Option Address)
    (precompiles : List Address) : JournaledDB :=
  let j := j.withState { j.state with accessList := AccessList.new }
  (sender :: dst.toList ++ precompiles).foldl addAddressToAccessList j

def readState (j : JournaledDB) (addr : Address) (key : Hash) : JournaledDB :=
  match j.state.getStateObject addr with
  | (none, s) => j.withState s
  | (some obj, s) =>
    (j.withState s).setStateObject addr
      (obj.getState s.db (s.destructed addr) addr key).2

def readCode (c : Crypto) (j : JournaledDB) (addr : Address) : JournaledDB :=
  match j.state.getStateObject addr with
  | (none, s) => j.withState s
  | (some obj, s) => (j.withState s).setStateObject addr (obj.getCode c s.db addr).2

end JournaledDB

/-- The operations that are journaled, the reads that fill the caches, and snapshots. `SetStorage`
    and `PrepareAccessList` are not among them. -/
inductive Op where
  | readState (addr : Address) (key : Hash)
  | readCode (addr : Address)
  | getOrNewStateObject (addr : Address)
  | setBalance (addr : Address) (amount : Int)
  | addBalance (addr : Address) (amount : Int)
  | subBalance (addr : Address) (amount : Int)
  | setStakeBalance (addr : Address) (amount : Int)
  | setPendingStakeBalance (addr : Address) (amount : Int)
  | setNonce (addr : Address) (nonce : UInt64)
  | setCode (addr : Address) (code : List UInt8)
  | setState (addr : Address) (key value : Hash)
  | setOTSBitfield (addr : Address) (otsIndex : Nat) (revert : Bool)
  | createAccount (addr : Address)
  | suicide (addr : Address)
  | addRefund (gas : UInt64)
  | subRefund (gas : UInt64)
  | addLog (log : Log)
  | addPreimage (hash : Hash) (preimage : List UInt8)
  | addAddressToAccessList (addr : Address)
  | addSlotToAccessList (addr : Address) (slot : Hash)
  | snapshot
  | revertToSnapshot (revid : Nat)

namespace JournaledDB

def apply (c : Crypto) (j : JournaledDB) : Op → Go JournaledDB
  | .readState addr key => .ok (j.readState addr key)
  | .readCode addr => .ok (j.readCode c addr)
  | .getOrNewStateObject addr => .ok (getOrNewStateObject c j addr).2
  | .setBalance addr amount => .ok (setBalance c j addr amount)
  | .addBalance addr amount => .ok (addBalance c j addr amount)
  | .subBalance addr amount => .ok (subBalance c j addr amount)
  | .setStakeBalance addr amount => .ok (setStakeBalance c j addr amount)
  | .setPendingStakeBalance addr amount => .ok (setPendingStakeBalance c j addr amount)
  | .setNonce addr nonce => .ok (setNonce c j addr nonce)
  | .setCode addr code => .ok (setCode c j addr code)
  | .setState addr key value => .ok (setState c j addr key value)
  | .setOTSBitfield addr otsIndex revert => setOTSBitfield c j addr otsIndex revert
  | .createAccount addr => .ok (createAccount c j addr)
  | .suicide addr => .ok (j.suicide addr)
  | .addRefund gas => .ok (j.addRefund gas)
  | .subRefund gas => j.subRefund gas
  | .addLog log => .ok (j.addLog log)
  | .addPreimage hash preimage => .ok (j.addPreimage hash preimage)
  | .addAddressToAccessList addr => .ok (j.addAddressToAccessList addr)
  | .addSlotToAccessList addr slot => j.addSlotToAccessList addr slot
  | .snapshot => .ok (UndoLog.Journal.snapshot j).2
  | .revertToSnapshot revid => j.revertToSnapshot revid

def run (c : Crypto) (ops : List Op) (j : JournaledDB) : Go JournaledDB := ops.foldlM (apply c) j

end JournaledDB

end Zond
