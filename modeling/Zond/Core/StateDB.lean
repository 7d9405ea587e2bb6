import Zond.Core.Failure
import Zond.Lib.AssocMap

/-!
# Account State

Reverting to a snapshot restores the value the state had when the snapshot was
taken, so the journal itself is not kept; only its dirty set is, because
`Finalise` deletes the empty accounts in it. One entry of that set survives a
revert, the ripemd precompile, and is tracked by a flag.

## Main definitions

* `StateDB`: The trie, the live objects laid over it, and the addresses that are dirty
  or wait to be written back.
* `StateDB.account`: What a read finds at an address.
* `StateDB.finalise`, `StateDB.commit`: The end of a transaction, and of a block.

## Theorems

* `account_modify`: A write changes one account.
-/

namespace Zond

variable {s s' : StateDB} {addr x : Address} {obj : StateObject}

/-- An account: `types.StateAccount` with its code and storage in place of their
    hashes. -/
structure Account where
  nonce : UInt64
  balance : Int
  stakeBalance : Int
  pendingStakeBalance : Int
  code : List UInt8
  storage : AssocMap Hash Hash
  otsBitfield : List (List.Vector UInt8 8)

namespace Account

/-- The account `newObject` makes of `types.StateAccount{}`. -/
def new : Account :=
  { nonce := 0, balance := 0, stakeBalance := 0, pendingStakeBalance := 0, code := [],
    storage := AssocMap.empty, otsBitfield := [] }

instance : Inhabited Account := ⟨new⟩

def Empty (a : Account) : Prop := a.nonce = 0 ∧ a.balance = 0 ∧ a.code = []

instance (a : Account) : Decidable a.Empty := inferInstanceAs (Decidable (_ ∧ _ ∧ _))

/-- RLP has no encoding for a negative integer. -/
def Encodable (a : Account) : Prop :=
  0 ≤ a.balance ∧ 0 ≤ a.stakeBalance ∧ 0 ≤ a.pendingStakeBalance

instance (a : Account) : Decidable a.Encodable := inferInstanceAs (Decidable (_ ∧ _ ∧ _))

def coins (a : Account) : Int := a.balance + a.stakeBalance + a.pendingStakeBalance

@[simp] theorem coins_new : new.coins = 0 := rfl

theorem new_empty : new.Empty := ⟨rfl, rfl, rfl⟩

theorem new_encodable : new.Encodable := ⟨le_refl _, le_refl _, le_refl _⟩

theorem Encodable.coins_nonneg {a : Account} (h : a.Encodable) : 0 ≤ a.coins := by
  unfold coins
  have := h.1
  have := h.2.1
  have := h.2.2
  omega

end Account

/-- A live object. `committedStorage` is the storage at the start of the
    transaction. -/
structure StateObject where
  data : Account
  committedStorage : AssocMap Hash Hash
  suicided : Bool
  deleted : Bool

def newObject (a : Account) : StateObject :=
  { data := a, committedStorage := a.storage, suicided := false, deleted := false }

structure Log where
  address : Address
  topics : List Hash
  data : List UInt8
  blockNumber : UInt64
  txHash : Hash
  txIndex : Nat
  blockHash : Hash
  index : Nat
deriving DecidableEq

structure StateDB where
  trie : AssocMap Address Account
  stateObjects : AssocMap Address StateObject
  dirties : List Address
  stateObjectsPending : List Address
  ripemdTouched : Bool
  refund : UInt64
  thash : Hash
  txIndex : Nat
  logs : AssocMap Hash (List Log)
  logSize : Nat
  accessListAddresses : List Address
  accessListSlots : List (Address × Hash)

/-- The precompile address that stays dirty when its touch is reverted. -/
def ripemd : Address := Bytes.alignRight 20 [3]

def insertNew {α : Type} [DecidableEq α] (a : α) (l : List α) : List α :=
  if a ∈ l then l else a :: l

@[simp] theorem mem_insertNew {α : Type} [DecidableEq α] (a b : α) (l : List α) :
    b ∈ insertNew a l ↔ b = a ∨ b ∈ l := by
  unfold insertNew
  by_cases h : a ∈ l
  · rw [if_pos h]
    exact ⟨.inr, fun hb => hb.elim (fun hb => hb ▸ h) id⟩
  · rw [if_neg h, List.mem_cons]

namespace StateDB

def new (trie : AssocMap Address Account) : StateDB :=
  { trie := trie, stateObjects := AssocMap.empty, dirties := [], stateObjectsPending := [],
    ripemdTouched := false, refund := 0, thash := zeroHash, txIndex := 0,
    logs := AssocMap.empty, logSize := 0, accessListAddresses := [], accessListSlots := [] }

/-- `StateDB.getDeletedStateObject`: the live object, or a fresh one on the trie's
    account. -/
def getDeletedStateObject (s : StateDB) (addr : Address) : Option StateObject :=
  match s.stateObjects.get addr with
  | some obj => some obj
  | none => (s.trie.get addr).map newObject

def getStateObject (s : StateDB) (addr : Address) : Option StateObject :=
  match s.getDeletedStateObject addr with
  | some obj => if obj.deleted then none else some obj
  | none => none

def exist (s : StateDB) (addr : Address) : Bool := (s.getStateObject addr).isSome

/-- The account the getters read: that of the live object, or zero values. -/
def account (s : StateDB) (addr : Address) : Account :=
  match s.getStateObject addr with
  | some obj => obj.data
  | none => Account.new

def getBalance (s : StateDB) (addr : Address) : Int := (s.account addr).balance

def getStakeBalance (s : StateDB) (addr : Address) : Int := (s.account addr).stakeBalance

def getPendingStakeBalance (s : StateDB) (addr : Address) : Int :=
  (s.account addr).pendingStakeBalance

def getNonce (s : StateDB) (addr : Address) : UInt64 := (s.account addr).nonce

def getCode (s : StateDB) (addr : Address) : List UInt8 := (s.account addr).code

def getCodeSize (s : StateDB) (addr : Address) : Nat := (s.getCode addr).length

def hasSuicided (s : StateDB) (addr : Address) : Bool :=
  match s.getStateObject addr with
  | some obj => obj.suicided
  | none => false

/-- `StateDB.createObject`. Overwriting an object journals a reset, which marks
    nothing dirty. -/
def createObject (s : StateDB) (addr : Address) : StateDB :=
  { s with
    stateObjects := s.stateObjects.put addr (newObject Account.new)
    dirties := match s.getDeletedStateObject addr with
      | some _ => s.dirties
      | none => insertNew addr s.dirties }

def getOrNewStateObject (s : StateDB) (addr : Address) : StateDB :=
  match s.getStateObject addr with
  | some _ => s
  | none => s.createObject addr

/-- Write an account through its live object and journal the change. Every setter
    of `stateObject` is an instance. -/
def modify (s : StateDB) (addr : Address) (f : Account → Account) : StateDB :=
  let s := s.getOrNewStateObject addr
  match s.getStateObject addr with
  | some obj =>
    { s with
      stateObjects := s.stateObjects.put addr { obj with data := f obj.data }
      dirties := insertNew addr s.dirties }
  | none => s

def touch (s : StateDB) (addr : Address) : StateDB :=
  { s with
    dirties := insertNew addr s.dirties
    ripemdTouched := s.ripemdTouched || (addr == ripemd) }

def setBalance (s : StateDB) (addr : Address) (amount : Int) : StateDB :=
  s.modify addr (fun a => { a with balance := amount })

/-- `StateDB.AddBalance`: adding zero touches an empty account. -/
def addBalance (s : StateDB) (addr : Address) (amount : Int) : StateDB :=
  let s := s.getOrNewStateObject addr
  if amount = 0 then
    if (s.account addr).Empty then s.touch addr else s
  else s.setBalance addr (s.getBalance addr + amount)

def subBalance (s : StateDB) (addr : Address) (amount : Int) : StateDB :=
  let s := s.getOrNewStateObject addr
  if amount = 0 then s else s.setBalance addr (s.getBalance addr - amount)

def setStakeBalance (s : StateDB) (addr : Address) (amount : Int) : StateDB :=
  s.modify addr (fun a => { a with stakeBalance := amount })

def setPendingStakeBalance (s : StateDB) (addr : Address) (amount : Int) : StateDB :=
  s.modify addr (fun a => { a with pendingStakeBalance := amount })

def setNonce (s : StateDB) (addr : Address) (nonce : UInt64) : StateDB :=
  s.modify addr (fun a => { a with nonce := nonce })

def setCode (s : StateDB) (addr : Address) (code : List UInt8) : StateDB :=
  s.modify addr (fun a => { a with code := code })

/-- `StateDB.CreateAccount`: a fresh account that keeps the balance. -/
def createAccount (s : StateDB) (addr : Address) : StateDB :=
  let fresh := s.createObject addr
  match s.getStateObject addr with
  | some prev =>
    let carried := newObject { Account.new with balance := prev.data.balance }
    { fresh with stateObjects := fresh.stateObjects.put addr carried }
  | none => fresh

def prepare (s : StateDB) (thash : Hash) (txIndex : Nat) : StateDB :=
  { s with thash := thash, txIndex := txIndex }

def getLogs (s : StateDB) (hash blockHash : Hash) : List Log :=
  ((s.logs.get hash).getD []).map (fun l => { l with blockHash := blockHash })

/-- `StateDB.PrepareAccessList`, without an access list in the message. -/
def prepareAccessList (s : StateDB) (sender : Address) (dst : Option Address)
    (precompiles : List Address) : StateDB :=
  { s with
    accessListAddresses := (sender :: dst.toList ++ precompiles).foldl
      (fun l a => insertNew a l) []
    accessListSlots := [] }

def addAddressToAccessList (s : StateDB) (addr : Address) : StateDB :=
  { s with accessListAddresses := insertNew addr s.accessListAddresses }

/-- `StateDB.RevertToSnapshot`, given the state when the snapshot was taken. -/
def revertToSnapshot (s snapshot : StateDB) : StateDB :=
  { snapshot with
    dirties := if s.ripemdTouched then insertNew ripemd snapshot.dirties else snapshot.dirties
    ripemdTouched := s.ripemdTouched }

/-- An object `Finalise(true)` deletes. -/
def Doomed (obj : StateObject) : Prop := obj.suicided = true ∨ obj.data.Empty

instance (obj : StateObject) : Decidable (Doomed obj) := inferInstanceAs (Decidable (_ ∨ _))

/-- What `Finalise(true)` makes of one dirty object. -/
def finaliseObject (obj : StateObject) : StateObject :=
  if Doomed obj then { obj with deleted := true }
  else { obj with committedStorage := obj.data.storage }

/-- One address of the loop of `Finalise(true)`. -/
def finaliseAddress (s : StateDB) (addr : Address) : StateDB :=
  match s.stateObjects.get addr with
  | none => s
  | some obj =>
    { s with
      stateObjects := s.stateObjects.put addr (finaliseObject obj)
      stateObjectsPending := insertNew addr s.stateObjectsPending }

def finalise (s : StateDB) : StateDB :=
  { s.dirties.foldl finaliseAddress s with dirties := [], ripemdTouched := false, refund := 0 }

/-- One address of the write-back loop of `IntermediateRoot`. An account that
    cannot be encoded sets an error nobody reads and leaves the trie as it is. -/
def updateTrie (s : StateDB) (trie : AssocMap Address Account) (addr : Address) :
    AssocMap Address Account :=
  match s.stateObjects.get addr with
  | none => trie
  | some obj =>
    if obj.deleted then trie.erase addr
    else if obj.data.Encodable then trie.put addr obj.data else trie

/-- `StateDB.Commit(true)`: the trie that is written. -/
def commit (s : StateDB) : AssocMap Address Account :=
  let s := s.finalise
  s.stateObjectsPending.foldl s.updateTrie s.trie

theorem account_of_getStateObject
    (h : s.getStateObject addr = some obj) : s.account addr = obj.data := by
  unfold account
  rw [h]

theorem account_of_not_exist (h : s.getStateObject addr = none) : s.account addr = Account.new := by
  unfold account
  rw [h]

theorem account_new (trie : AssocMap Address Account) (addr : Address) :
    (new trie).account addr = (trie.get addr).getD Account.new := by
  unfold account getStateObject getDeletedStateObject new
  cases htrie : trie.get addr with
  | none => simp only [AssocMap.get_empty, Option.map_none, Option.getD_none]
  | some a =>
    simp only [AssocMap.get_empty, Option.map_some, Option.getD_some, newObject,
      Bool.false_eq_true, if_false]

theorem getStateObject_of_get
    (h : s.stateObjects.get addr = some obj) (hdel : obj.deleted = false) :
    s.getStateObject addr = some obj := by
  unfold getStateObject getDeletedStateObject
  simp only [h, hdel, Bool.false_eq_true, if_false]

theorem getStateObject_congr
    (hobj : s'.stateObjects.get addr = s.stateObjects.get addr) (htrie : s'.trie = s.trie) :
    s'.getStateObject addr = s.getStateObject addr := by
  unfold getStateObject getDeletedStateObject
  rw [hobj, htrie]

theorem account_congr
    (hobj : s'.stateObjects.get addr = s.stateObjects.get addr) (htrie : s'.trie = s.trie) :
    s'.account addr = s.account addr := by
  unfold account
  rw [getStateObject_congr hobj htrie]

theorem getStateObject_not_deleted
    (h : s.getStateObject addr = some obj) : obj.deleted = false := by
  unfold getStateObject at h
  split at h
  · rename_i o _
    by_cases hdel : o.deleted = true
    · rw [if_pos hdel] at h
      cases h
    · rw [if_neg hdel, Option.some.injEq] at h
      rw [← h]
      exact Bool.eq_false_iff.2 hdel
  · cases h

theorem getStateObject_createObject_self (s : StateDB) (addr : Address) :
    (s.createObject addr).getStateObject addr = some (newObject Account.new) :=
  getStateObject_of_get (AssocMap.get_put_self ..) rfl

theorem getStateObject_createObject_ne (s : StateDB) (h : addr ≠ x) :
    (s.createObject addr).getStateObject x = s.getStateObject x :=
  getStateObject_congr (AssocMap.get_put_ne _ _ h) rfl

@[simp] theorem trie_getOrNewStateObject (s : StateDB) (addr : Address) :
    (s.getOrNewStateObject addr).trie = s.trie := by
  unfold getOrNewStateObject
  split <;> rfl

theorem getStateObject_getOrNew_ne (s : StateDB) (h : addr ≠ x) :
    (s.getOrNewStateObject addr).getStateObject x = s.getStateObject x := by
  unfold getOrNewStateObject
  split
  · rfl
  · exact getStateObject_createObject_ne s h

theorem hasSuicided_of_getStateObject
    (h : s.getStateObject addr = some obj) : s.hasSuicided addr = obj.suicided := by
  unfold hasSuicided
  rw [h]

theorem hasSuicided_congr (h : s'.getStateObject addr = s.getStateObject addr) :
    s'.hasSuicided addr = s.hasSuicided addr := by
  unfold hasSuicided
  rw [h]

section Accounts

variable (s addr)

theorem getStateObject_getOrNew_self :
    ∃ obj, (s.getOrNewStateObject addr).getStateObject addr = some obj ∧
      obj.data = s.account addr ∧ obj.suicided = s.hasSuicided addr := by
  unfold getOrNewStateObject
  cases h : s.getStateObject addr with
  | some obj =>
    exact ⟨obj, h, (account_of_getStateObject h).symm, (hasSuicided_of_getStateObject h).symm⟩
  | none =>
    refine ⟨_, getStateObject_createObject_self s addr, (account_of_not_exist h).symm, ?_⟩
    unfold hasSuicided
    rw [h]
    rfl

@[simp] theorem account_getOrNewStateObject (x : Address) :
    (s.getOrNewStateObject addr).account x = s.account x := by
  by_cases h : addr = x
  · subst h
    rcases getStateObject_getOrNew_self s addr with ⟨obj, hget, hdata, -⟩
    rw [account_of_getStateObject hget, hdata]
  · unfold account
    rw [getStateObject_getOrNew_ne s h]

@[simp] theorem trie_modify (f : Account → Account) : (s.modify addr f).trie = s.trie := by
  unfold modify
  simp only
  split
  · exact trie_getOrNewStateObject s addr
  · exact trie_getOrNewStateObject s addr

theorem account_modify (f : Account → Account) (x : Address) :
    (s.modify addr f).account x = if addr = x then f (s.account addr) else s.account x := by
  rcases getStateObject_getOrNew_self s addr with ⟨obj, hget, hdata, -⟩
  unfold modify
  simp only [hget]
  by_cases h : addr = x
  · subst h
    have hdel : obj.deleted = false := getStateObject_not_deleted hget
    rw [if_pos rfl, ← hdata]
    exact @account_of_getStateObject _ _ { obj with data := f obj.data }
      (getStateObject_of_get (AssocMap.get_put_self ..) hdel)
  · rw [if_neg h, ← account_getOrNewStateObject s addr x]
    exact account_congr (AssocMap.get_put_ne _ _ h) rfl

theorem hasSuicided_modify (f : Account → Account) (x : Address) :
    (s.modify addr f).hasSuicided x = s.hasSuicided x := by
  rcases getStateObject_getOrNew_self s addr with ⟨obj, hget, -, hmark⟩
  unfold modify
  simp only [hget]
  by_cases h : addr = x
  · subst h
    have hdel : obj.deleted = false := getStateObject_not_deleted hget
    rw [← hmark]
    exact @hasSuicided_of_getStateObject _ _ { obj with data := f obj.data }
      (getStateObject_of_get (AssocMap.get_put_self ..) hdel)
  · rw [← hasSuicided_congr (getStateObject_getOrNew_ne s h)]
    exact hasSuicided_congr (getStateObject_congr (AssocMap.get_put_ne _ _ h) rfl)

@[simp] theorem account_touch (x : Address) : (s.touch addr).account x = s.account x := rfl

@[simp] theorem account_prepare (thash : Hash) (i : Nat) (x : Address) :
    (s.prepare thash i).account x = s.account x := rfl

theorem account_addBalance (amount : Int) (x : Address) :
    (s.addBalance addr amount).account x =
      if addr = x then { s.account addr with balance := (s.account addr).balance + amount }
      else s.account x := by
  unfold addBalance
  by_cases h0 : amount = 0
  · have hself : { s.account addr with balance := (s.account addr).balance + amount }
        = s.account addr := by rw [h0, add_zero]
    rw [hself, if_pos h0]
    have hx : (if addr = x then s.account addr else s.account x) = s.account x := by
      by_cases h : addr = x
      · rw [if_pos h, h]
      · rw [if_neg h]
    rw [hx]
    split
    · rw [account_touch, account_getOrNewStateObject]
    · rw [account_getOrNewStateObject]
  · rw [if_neg h0]
    unfold setBalance getBalance
    rw [account_modify]
    simp only [account_getOrNewStateObject]

theorem account_subBalance (amount : Int) (x : Address) :
    (s.subBalance addr amount).account x =
      if addr = x then { s.account addr with balance := (s.account addr).balance - amount }
      else s.account x := by
  unfold subBalance
  by_cases h0 : amount = 0
  · rw [if_pos h0, account_getOrNewStateObject, h0, sub_zero]
    by_cases h : addr = x
    · rw [if_pos h, h]
    · rw [if_neg h]
  · rw [if_neg h0]
    unfold setBalance getBalance
    rw [account_modify]
    simp only [account_getOrNewStateObject]

theorem account_createAccount (x : Address) : (s.createAccount addr).account x =
      if addr = x then { Account.new with balance := (s.account addr).balance }
      else s.account x := by
  unfold createAccount
  by_cases h : addr = x
  · subst h
    rw [if_pos rfl]
    cases hget : s.getStateObject addr with
    | some prev =>
      rw [account_of_getStateObject hget]
      exact @account_of_getStateObject _ _ (newObject _)
        (getStateObject_of_get (AssocMap.get_put_self ..) rfl)
    | none =>
      rw [account_of_not_exist hget]
      exact account_of_getStateObject (getStateObject_createObject_self s addr)
  · rw [if_neg h]
    have hcreate : (s.createObject addr).account x = s.account x :=
      account_congr (AssocMap.get_put_ne _ _ h) rfl
    split
    · rw [← hcreate]
      exact account_congr (AssocMap.get_put_ne _ _ h) rfl
    · exact hcreate

end Accounts

/-- The live object at an address is deleted when `Finalise(true)` runs now. -/
def Deletes (s : StateDB) (addr : Address) : Prop :=
  addr ∈ s.dirties ∧ ∃ obj, s.stateObjects.get addr = some obj ∧ Doomed obj

theorem finaliseObject_idem (obj : StateObject) :
    finaliseObject (finaliseObject obj) = finaliseObject obj := by
  unfold finaliseObject
  by_cases h : Doomed obj
  · rw [if_pos h, if_pos (show Doomed { obj with deleted := true } from h)]
  · rw [if_neg h, if_neg (show ¬Doomed { obj with committedStorage := obj.data.storage } from h)]

@[simp] theorem trie_finaliseAddress (s : StateDB) (addr : Address) :
    (s.finaliseAddress addr).trie = s.trie := by
  unfold finaliseAddress
  split <;> rfl

theorem get_finaliseAddress (s : StateDB) (addr x : Address) :
    (s.finaliseAddress addr).stateObjects.get x =
      if addr = x then (s.stateObjects.get x).map finaliseObject else s.stateObjects.get x := by
  unfold finaliseAddress
  by_cases h : addr = x
  · subst h
    rw [if_pos rfl]
    cases hget : s.stateObjects.get addr with
    | none => simp only [hget, Option.map_none]
    | some obj => simp only [AssocMap.get_put_self, Option.map_some]
  · rw [if_neg h]
    split
    · rfl
    · exact AssocMap.get_put_ne _ _ h

theorem get_foldl_finaliseAddress (l : List Address) (s : StateDB) (x : Address) :
    (l.foldl finaliseAddress s).stateObjects.get x =
      if x ∈ l then (s.stateObjects.get x).map finaliseObject else s.stateObjects.get x := by
  induction l generalizing s with
  | nil => simp only [List.foldl_nil, List.not_mem_nil, if_false]
  | cons addr rest ih =>
    rw [List.foldl_cons, ih, get_finaliseAddress]
    by_cases haddr : addr = x
    · subst haddr
      have hidem : (s.stateObjects.get addr).map (finaliseObject ∘ finaliseObject)
          = (s.stateObjects.get addr).map finaliseObject :=
        congrArg (fun g => (s.stateObjects.get addr).map g)
          (funext finaliseObject_idem)
      simp only [List.mem_cons, true_or, if_true, Option.map_map, hidem, ite_self]
    · simp only [List.mem_cons, haddr, if_false, eq_comm (a := x), false_or]

theorem trie_foldl_finaliseAddress (l : List Address) (s : StateDB) :
    (l.foldl finaliseAddress s).trie = s.trie := by
  induction l generalizing s with
  | nil => rfl
  | cons addr rest ih => rw [List.foldl_cons, ih, trie_finaliseAddress]

theorem get_finalise (s : StateDB) (x : Address) : s.finalise.stateObjects.get x =
      if x ∈ s.dirties then (s.stateObjects.get x).map finaliseObject
      else s.stateObjects.get x :=
  get_foldl_finaliseAddress s.dirties s x

@[simp] theorem trie_finalise (s : StateDB) : s.finalise.trie = s.trie :=
  trie_foldl_finaliseAddress s.dirties s

theorem account_finalise_of_deletes (h : s.Deletes x) : s.finalise.account x = Account.new := by
  obtain ⟨hmem, obj, hget, hdoomed⟩ := h
  have hfin : s.finalise.stateObjects.get x = some { obj with deleted := true } := by
    rw [get_finalise, if_pos hmem, hget, Option.map_some, finaliseObject, if_pos hdoomed]
  apply account_of_not_exist
  unfold getStateObject getDeletedStateObject
  simp only [hfin, if_true]

theorem account_finalise_of_not_deletes (h : ¬s.Deletes x) :
    s.finalise.account x = s.account x := by
  by_cases hmem : x ∈ s.dirties
  · cases hget : s.stateObjects.get x with
    | none =>
      refine account_congr ?_ (trie_finalise s)
      rw [get_finalise, if_pos hmem, hget, Option.map_none]
    | some obj =>
      have hdoomed : ¬Doomed obj := fun hd => h ⟨hmem, obj, hget, hd⟩
      have hfin : s.finalise.stateObjects.get x
          = some { obj with committedStorage := obj.data.storage } := by
        rw [get_finalise, if_pos hmem, hget, Option.map_some, finaliseObject, if_neg hdoomed]
      unfold account getStateObject getDeletedStateObject
      simp only [hfin, hget]
      cases obj.deleted with
      | true => simp only [if_true]
      | false => simp only [Bool.false_eq_true, if_false]
  · refine account_congr ?_ (trie_finalise s)
    rw [get_finalise, if_neg hmem]

end StateDB

def isUsedOTSIndex (otsIndex : Nat) (bitfield : List (List.Vector UInt8 8)) : Bool :=
  if bitfield.length = 0 then false
  else match bitfield[otsIndex / 8]? with
    | none => true
    | some byte => byte.val[otsIndex % 8]? == some 1

/-- `misc.GetMaxOTSBitfieldSizeFromAddress`: the height is read from the second
    address byte. -/
def getMaxOTSBitfieldSizeFromAddress (addr : Address) : Nat :=
  let height := (addr.val.getD 1 0).toNat % 16 * 2
  (2 * 2 ^ height + 7) / 8

/-- The field of used one-time keys, made when the first is marked. -/
def otsField (x : Address) (field : List (List.Vector UInt8 8)) : List (List.Vector UInt8 8) :=
  if field.length = 0 then List.replicate (getMaxOTSBitfieldSizeFromAddress x) (Bytes.zeros 8)
  else field

/-- `StateDB.SetOTSBitfield` with `revert` unset: indexes past the field panic. -/
def StateDB.setOTSBitfield (s : StateDB) (addr : Address) (otsIndex : Nat) : Go StateDB :=
  let field := (s.account addr).otsBitfield
  let field := if field.length = 0 then
      List.replicate (getMaxOTSBitfieldSizeFromAddress addr) (Bytes.zeros 8) else field
  match field[otsIndex / 8]? with
  | none => .error (.panic .indexOutOfRange)
  | some byte =>
    .ok (s.modify addr (fun a => { a with
      otsBitfield := field.set (otsIndex / 8)
        ⟨byte.val.set (otsIndex % 8) 1, (List.length_set ..).trans byte.property⟩ }))

end Zond
