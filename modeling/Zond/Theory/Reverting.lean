import Zond.Core.Journal

/-!
# Taking Back a Journal Entry

One kind of entry is not an inverse. A write to the field of used one-time keys leaves
the index in the journal and not the byte that was there, and taking it back writes a
zero. An account that was made anew is replaced by the old one when that is taken back,
and with it what was written to its field. So an entry that does this drops the marks of
its account.

## Main definitions

* `Seen`: What can be read of an object. A read or a write leaves objects and slots in
  the caches that no entry removes.
* `Cleared`: The second state is read as the first, with the marked bytes set to zero.
-/

namespace Zond

open Outcome UndoLog

/-- What can be read of an object, or could be without its fake storage. -/
structure Seen where
  data : ObjectData
  code : List UInt8
  committed : Hash → Hash
  state : Hash → Hash
  suicided : Bool
  deleted : Bool
  fake : Bool

namespace LiveObject

section Values

variable (c : Crypto) (db : Backend) (gone : Bool) (addr : Address) (obj : LiveObject) (key : Hash)

def codeValue : List UInt8 :=
  obj.code.getD (if obj.data.codeHash = c.keccak256 [] then []
    else db.contractCode addr obj.data.codeHash)

/-- A slot at the start of the transaction, cached or not. -/
def committedValue : Hash :=
  (obj.pendingStorage.get key).getD
    ((obj.originStorage.get key).getD ((obj.readSlot db gone addr key).getD zeroHash))

def stateValue : Hash := (obj.dirtyStorage.get key).getD (obj.committedValue db gone addr key)

def seen : Seen :=
  { data := obj.data
    code := obj.codeValue c db addr
    committed := obj.committedValue db gone addr
    state := obj.stateValue db gone addr
    suicided := obj.suicided
    deleted := obj.deleted
    fake := obj.fakeStorage.isSome }

theorem getCode_fst : (obj.getCode c db addr).1 = obj.codeValue c db addr := by
  unfold getCode codeValue
  cases obj.code with
  | some code => rfl
  | none =>
    by_cases h : obj.data.codeHash = c.keccak256 []
    · rw [if_pos h, if_pos h]
      rfl
    · rw [if_neg h, if_neg h]
      rfl

theorem getCommittedState_fst (hreal : obj.fakeStorage = none) :
    (obj.getCommittedState db gone addr key).1 = obj.committedValue db gone addr key := by
  unfold getCommittedState committedValue
  rw [hreal]
  cases obj.pendingStorage.get key with
  | some value => rfl
  | none =>
    cases obj.originStorage.get key with
    | some value => rfl
    | none =>
      cases obj.readSlot db gone addr key with
      | some value => rfl
      | none => rfl

theorem getState_fst (hreal : obj.fakeStorage = none) :
    (obj.getState db gone addr key).1 = obj.stateValue db gone addr key := by
  unfold getState stateValue
  rw [hreal]
  cases obj.dirtyStorage.get key with
  | some value => rfl
  | none => exact getCommittedState_fst db gone addr obj key hreal

end Values

end LiveObject

section Fields

/-- The field with one byte set to zero, made if there is none. -/
def clearBit (addr : Address) (field : List (List.Vector UInt8 8)) (i : Nat) :
    List (List.Vector UInt8 8) :=
  (otsField addr field).modify (i / 8) (fun page => setByte page (i % 8) 0)

def clearBits (addr : Address) (is : List Nat) (field : List (List.Vector UInt8 8)) :
    List (List.Vector UInt8 8) :=
  is.foldl (clearBit addr) field

/-- There is a field, and the byte of the index is zero in it. -/
def Unmarked (field : List (List.Vector UInt8 8)) (i : Nat) : Prop :=
  field ≠ [] ∧ ∀ page, field[i / 8]? = some page → page.val[i % 8]? = some 0

variable {addr : Address} {field : List (List.Vector UInt8 8)} {is : List Nat} {i k : Nat}

theorem setByte_comm (page : List.Vector UInt8 8) (n m : Nat) (v : UInt8) :
    setByte (setByte page n v) m v = setByte (setByte page m v) n v := by
  apply Subtype.ext
  by_cases h : n = m
  · rw [h]
  · exact List.set_comm _ _ h

theorem setByte_self (page : List.Vector UInt8 8) (n : Nat) (v : UInt8) :
    setByte (setByte page n v) n v = setByte page n v :=
  Subtype.ext (List.set_set ..)

theorem setByte_eq_self_iff (page : List.Vector UInt8 8) {n : Nat} (hn : n < 8) (v : UInt8) :
    setByte page n v = page ↔ page.val[n]? = some v := by
  have hlt : n < page.val.length := page.property.symm ▸ hn
  refine ⟨fun h => ?_, fun h => ?_⟩
  · have hbyte : (setByte page n v).val[n]? = some v := List.getElem?_set_self hlt
    rw [h] at hbyte
    exact hbyte
  · rcases List.getElem?_eq_some_iff.1 h with ⟨hlt, hval⟩
    apply Subtype.ext
    rw [← hval]
    exact List.set_getElem_self hlt

theorem otsField_ne_nil (addr : Address) (field : List (List.Vector UInt8 8)) :
    otsField addr field ≠ [] := by
  unfold otsField
  by_cases h : field.length = 0
  · rw [if_pos h]
    intro hnil
    have hlength := congrArg List.length hnil
    rw [List.length_replicate, List.length_nil] at hlength
    unfold getMaxOTSBitfieldSizeFromAddress at hlength
    dsimp only at hlength
    have hpos := Nat.two_pow_pos ((addr.val.getD 1 0).toNat % 16 * 2)
    omega
  · rw [if_neg h]
    exact fun hnil => h (List.length_eq_zero_iff.2 hnil)

theorem otsField_of_ne_nil (h : field ≠ []) : otsField addr field = field :=
  if_neg (fun hlength => h (List.length_eq_zero_iff.1 hlength))

theorem clearBit_ne_nil (addr : Address) (field : List (List.Vector UInt8 8)) (i : Nat) :
    clearBit addr field i ≠ [] := by
  intro h
  have hlength := congrArg List.length h
  rw [clearBit, List.length_modify, List.length_nil] at hlength
  exact otsField_ne_nil addr field (List.length_eq_zero_iff.1 hlength)

theorem clearBit_clearBit (addr : Address) (field : List (List.Vector UInt8 8)) (i k : Nat) :
    clearBit addr (clearBit addr field i) k = clearBit addr (clearBit addr field k) i := by
  have hfix (i : Nat) : otsField addr (clearBit addr field i) = clearBit addr field i :=
    otsField_of_ne_nil (clearBit_ne_nil addr field i)
  conv_lhs => rw [clearBit, hfix i, clearBit]
  conv_rhs => rw [clearBit, hfix k, clearBit]
  by_cases hpage : i / 8 = k / 8
  · rw [hpage, List.modify_modify_eq, List.modify_modify_eq]
    congr 1
    funext page
    exact setByte_comm page (i % 8) (k % 8) 0
  · exact List.modify_modify_ne _ _ _ hpage

theorem clearBit_self (addr : Address) (field : List (List.Vector UInt8 8)) (i : Nat) :
    clearBit addr (clearBit addr field i) i = clearBit addr field i := by
  conv_lhs => rw [clearBit, otsField_of_ne_nil (clearBit_ne_nil addr field i), clearBit]
  conv_rhs => rw [clearBit]
  rw [List.modify_modify_eq]
  congr 1
  funext page
  exact setByte_self page (i % 8) 0

theorem clearBits_clearBit (addr : Address) (is : List Nat) (field : List (List.Vector UInt8 8))
    (i : Nat) : clearBits addr is (clearBit addr field i) =
      clearBit addr (clearBits addr is field) i := by
  induction is generalizing field with
  | nil => rfl
  | cons k is ih =>
    unfold clearBits at ih ⊢
    rw [List.foldl_cons, List.foldl_cons, clearBit_clearBit, ih]

theorem clearBits_append (addr : Address) (is ks : List Nat) (field : List (List.Vector UInt8 8)) :
    clearBits addr (is ++ ks) field = clearBits addr ks (clearBits addr is field) :=
  List.foldl_append

theorem clearBit_clearBits_of_mem (h : i ∈ is) :
    clearBit addr (clearBits addr is field) i = clearBits addr is field := by
  induction is generalizing field with
  | nil => cases h
  | cons k is ih =>
    have hcons : clearBits addr (k :: is) field = clearBits addr is (clearBit addr field k) := rfl
    rw [hcons]
    rcases List.mem_cons.1 h with rfl | h
    · rw [← clearBits_clearBit, clearBit_self]
    · exact ih h

theorem clearBit_eq_self_iff : clearBit addr field i = field ↔ Unmarked field i := by
  have hlt : i % 8 < 8 := Nat.mod_lt i (by decide)
  refine ⟨fun h => ?_, fun ⟨hne, hzero⟩ => ?_⟩
  · have hne : field ≠ [] := fun hnil => clearBit_ne_nil addr field i (h.trans hnil)
    refine ⟨hne, fun page hpage => ?_⟩
    rw [clearBit, otsField_of_ne_nil hne] at h
    have hget : (field.modify (i / 8) (fun page => setByte page (i % 8) 0))[i / 8]? = some page :=
      h.symm ▸ hpage
    rw [List.getElem?_modify_eq, hpage, Option.map_eq_map, Option.map_some,
      Option.some.injEq] at hget
    exact (setByte_eq_self_iff page hlt 0).1 hget
  · rw [clearBit, otsField_of_ne_nil hne]
    apply List.ext_getElem?
    intro n
    rw [List.getElem?_modify, Option.map_eq_map]
    by_cases hn : i / 8 = n
    · subst hn
      cases hpage : field[i / 8]? with
      | none => rfl
      | some page =>
        rw [Option.map_some, if_pos rfl, (setByte_eq_self_iff page hlt 0).2 (hzero page hpage)]
    · cases field[n]? with
      | none => rfl
      | some page => rw [Option.map_some, if_neg hn]

theorem clearBits_eq_self_iff : clearBits addr is field = field ↔ ∀ i ∈ is, Unmarked field i := by
  refine ⟨fun h i hi => ?_, fun h => ?_⟩
  · have habsorb : clearBit addr (clearBits addr is field) i = clearBits addr is field :=
      clearBit_clearBits_of_mem hi
    rw [h] at habsorb
    exact clearBit_eq_self_iff.1 habsorb
  · induction is with
    | nil => rfl
    | cons k is ih =>
      have hcons : clearBits addr (k :: is) field = clearBits addr is (clearBit addr field k) := rfl
      rw [hcons, clearBit_eq_self_iff.2 (h k List.mem_cons_self)]
      exact ih (fun i hi => h i (List.mem_cons_of_mem _ hi))

end Fields

def Seen.write (key value : Hash) (a : Seen) : Seen :=
  { a with state := fun k => if key = k then value else a.state k }

theorem Seen.write_write (key value : Hash) (a : Seen) :
    (a.write key value).write key (a.state key) = a := by
  have hstate : (fun k => if key = k then a.state key else if key = k then value else a.state k)
      = a.state := by
    funext k
    by_cases hk : key = k
    · rw [if_pos hk, hk]
    · rw [if_neg hk, if_neg hk]
  unfold Seen.write
  rw [hstate]

abbrev Marks := Address → List Nat

def Seen.clear (addr : Address) (is : List Nat) (a : Seen) : Seen :=
  { a with data := { a.data with otsBitfield := clearBits addr is a.data.otsBitfield } }

namespace LiveState

def object (c : Crypto) (s : LiveState) (addr : Address) : Option Seen :=
  (s.getDeletedStateObject addr).1.map (fun obj => obj.seen c s.db (s.destructed addr) addr)

section Reading

variable {c : Crypto} {s : LiveState} {addr x : Address} {obj : LiveObject}

theorem getDeletedStateObject_of_get (h : s.stateObjects.get addr = some obj) :
    s.getDeletedStateObject addr = (some obj, s) := by
  unfold getDeletedStateObject
  rw [h]

theorem object_of_get (h : s.stateObjects.get addr = some obj) :
    s.object c addr = some (obj.seen c s.db (s.destructed addr) addr) := by
  unfold object
  rw [getDeletedStateObject_of_get h]
  rfl

theorem object_of_get_none (h : s.stateObjects.get addr = none) :
    s.object c addr = (s.db.account addr).map
      (fun data => (LiveObject.new data).seen c s.db (s.destructed addr) addr) := by
  unfold object getDeletedStateObject
  rw [h]
  cases s.db.account addr with
  | none => rfl
  | some data => rfl

theorem object_congr {s' : LiveState} (hget : s'.stateObjects.get x = s.stateObjects.get x)
    (hdb : s'.db = s.db) (hgone : s'.destructed x = s.destructed x) :
    s'.object c x = s.object c x := by
  cases hobj : s.stateObjects.get x with
  | some obj => rw [object_of_get hobj, object_of_get (hget.trans hobj), hdb, hgone]
  | none => rw [object_of_get_none hobj, object_of_get_none (hget.trans hobj), hdb, hgone]

theorem object_setStateObject (c : Crypto) (s : LiveState) (addr : Address) (obj : LiveObject)
    (x : Address) : (s.setStateObject addr obj).object c x =
      if addr = x then some (obj.seen c s.db (s.destructed addr) addr) else s.object c x := by
  by_cases hx : addr = x
  · rw [if_pos hx, ← hx]
    exact object_of_get (AssocMap.get_put_self ..)
  · rw [if_neg hx]
    exact object_congr (AssocMap.get_put_ne _ _ hx) rfl rfl

theorem getDeletedStateObject_cases (s : LiveState) (addr : Address) :
    (∃ obj, s.stateObjects.get addr = some obj ∧ s.getDeletedStateObject addr = (some obj, s)) ∨
    (s.stateObjects.get addr = none ∧ s.db.account addr = none ∧
      s.getDeletedStateObject addr = (none, s)) ∨
    ∃ data, s.stateObjects.get addr = none ∧ s.db.account addr = some data ∧
      s.getDeletedStateObject addr =
        (some (LiveObject.new data), s.setStateObject addr (LiveObject.new data)) := by
  cases hobj : s.stateObjects.get addr with
  | some obj => exact .inl ⟨obj, rfl, getDeletedStateObject_of_get hobj⟩
  | none =>
    right
    cases hdata : s.db.account addr with
    | none =>
      left
      refine ⟨rfl, rfl, ?_⟩
      unfold getDeletedStateObject
      rw [hobj, hdata]
    | some data =>
      right
      refine ⟨data, rfl, rfl, ?_⟩
      unfold getDeletedStateObject
      rw [hobj, hdata]

end Reading

end LiveState

/-- The second state reads as the first, but for the bytes that are set to zero in the fields
    of accounts, and for the dirty count of the one account that stays dirty. -/
structure Cleared (c : Crypto) (marks : Marks) (s t : LiveState) : Prop where
  db : t.db = s.db
  object : ∀ x, t.object c x = (s.object c x).map (Seen.clear x (marks x))
  snapDestructs : ∀ x, t.destructed x = s.destructed x
  refund : t.refund = s.refund
  thash : t.thash = s.thash
  txIndex : t.txIndex = s.txIndex
  logs : ∀ h, (t.logs.get h).getD [] = (s.logs.get h).getD []
  logSize : t.logSize = s.logSize
  preimages : ∀ h, t.preimages.get h = s.preimages.get h
  addresses : ∀ x, t.accessList.addresses.get x = s.accessList.addresses.get x
  slots : t.accessList.slots = s.accessList.slots
  dirties : ∀ x, x ≠ ripemd → t.dirtyCount x = s.dirtyCount x

def Marks.none : Marks := fun _ => []

section Cleared

variable {c : Crypto} {marks marks' : Marks} {s t u : LiveState} {addr x : Address}

theorem map_clear_nil (addr : Address) (a : Option Seen) : a.map (Seen.clear addr []) = a := by
  cases a <;> rfl

theorem Cleared.refl (c : Crypto) (s : LiveState) : Cleared c Marks.none s s :=
  ⟨rfl, fun x => (map_clear_nil x _).symm, fun _ => rfl, rfl, rfl, rfl, fun _ => rfl, rfl,
    fun _ => rfl, fun _ => rfl, rfl, fun _ _ => rfl⟩

theorem Cleared.trans (h : Cleared c marks s t) (h' : Cleared c marks' t u) :
    Cleared c (fun x => marks x ++ marks' x) s u := by
  refine ⟨h'.db.trans h.db, fun x => ?_, fun x => (h'.snapDestructs x).trans (h.snapDestructs x),
    h'.refund.trans h.refund, h'.thash.trans h.thash, h'.txIndex.trans h.txIndex,
    fun k => (h'.logs k).trans (h.logs k), h'.logSize.trans h.logSize,
    fun k => (h'.preimages k).trans (h.preimages k),
    fun x => (h'.addresses x).trans (h.addresses x), h'.slots.trans h.slots,
    fun x hx => (h'.dirties x hx).trans (h.dirties x hx)⟩
  rw [h'.object, h.object, Option.map_map]
  congr 1
  funext a
  unfold Seen.clear
  rw [Function.comp_apply, clearBits_append]

theorem cleared_of_objects (hobject : ∀ x, t.object c x = (s.object c x).map (Seen.clear x (marks x)))
    (ht : t = { s with stateObjects := t.stateObjects }) : Cleared c marks s t := by
  refine ⟨?_, hobject, fun x => ?_, ?_, ?_, ?_, fun h => ?_, ?_, fun h => ?_, fun x => ?_, ?_,
    fun x _ => ?_⟩
  all_goals rw [ht]
  · rfl
  · rfl

theorem cleared_getDeletedStateObject (c : Crypto) (s : LiveState) (addr : Address) :
    Cleared c Marks.none s (s.getDeletedStateObject addr).2 := by
  rcases s.getDeletedStateObject_cases addr with ⟨obj, -, hread⟩ | ⟨-, -, hread⟩ |
    ⟨data, hget, hdata, hread⟩
  · rw [hread]
    exact Cleared.refl c s
  · rw [hread]
    exact Cleared.refl c s
  · rw [hread]
    refine cleared_of_objects (fun x => ?_) rfl
    rw [LiveState.object_setStateObject]
    by_cases hx : addr = x
    · rw [if_pos hx, ← hx, LiveState.object_of_get_none hget, hdata]
      rfl
    · rw [if_neg hx]
      exact (map_clear_nil x _).symm

theorem Cleared.getStateObject (h : Cleared c marks s t) (addr : Address) :
    (s.getStateObject addr).1 = none ∧ (t.getStateObject addr).1 = none ∨
    ∃ obj obj', (s.getStateObject addr).1 = some obj ∧ (t.getStateObject addr).1 = some obj' ∧
      obj'.seen c s.db (s.destructed addr) addr =
        (obj.seen c s.db (s.destructed addr) addr).clear addr (marks addr) := by
  have hobject := h.object addr
  unfold LiveState.object at hobject
  rw [h.db, h.snapDestructs] at hobject
  unfold LiveState.getStateObject
  dsimp only
  cases hs : (s.getDeletedStateObject addr).1 with
  | none =>
    rw [hs, Option.map_none, Option.map_none, Option.map_eq_none_iff] at hobject
    exact .inl ⟨rfl, by rw [hobject]; rfl⟩
  | some obj =>
    rw [hs, Option.map_some, Option.map_some, Option.map_eq_some_iff] at hobject
    rcases hobject with ⟨obj', ht, hseen⟩
    have hdeleted : obj'.deleted = obj.deleted := congrArg Seen.deleted hseen
    rw [ht]
    by_cases hdel : obj.deleted = true
    · left
      simp only [Option.filter, hdeleted, hdel, Bool.not_true, Bool.false_eq_true, if_false,
        and_self]
    · right
      refine ⟨obj, obj', ?_, ?_, hseen⟩
      · simp only [Option.filter, hdel, Bool.not_false, if_true]
      · simp only [Option.filter, hdeleted, hdel, Bool.not_false, if_true]

theorem Cleared.object_of_same (h : Cleared c marks s t) {s' t' : LiveState}
    (hs : s'.stateObjects = s.stateObjects) (hdb : s'.db = s.db)
    (hgone : s'.snapDestructs = s.snapDestructs) (ht : t'.stateObjects = t.stateObjects)
    (hdb' : t'.db = t.db) (hgone' : t'.snapDestructs = t.snapDestructs) (x : Address) :
    t'.object c x = (s'.object c x).map (Seen.clear x (marks x)) := by
  have hs' : s'.object c x = s.object c x :=
    LiveState.object_congr (by rw [hs]) hdb (by unfold LiveState.destructed; rw [hgone])
  have ht' : t'.object c x = t.object c x :=
    LiveState.object_congr (by rw [ht]) hdb' (by unfold LiveState.destructed; rw [hgone'])
  rw [hs', ht', h.object]

theorem Cleared.setStateObject (h : Cleared c marks s t) {obj obj' : LiveObject}
    (hseen : obj'.seen c s.db (s.destructed addr) addr =
      (obj.seen c s.db (s.destructed addr) addr).clear addr (marks addr)) :
    Cleared c marks (s.setStateObject addr obj) (t.setStateObject addr obj') := by
  refine { h with object := fun x => ?_ }
  rw [LiveState.object_setStateObject, LiveState.object_setStateObject, h.db, h.snapDestructs]
  by_cases hx : addr = x
  · rw [if_pos hx, if_pos hx, Option.map_some, hseen, ← hx]
  · rw [if_neg hx, if_neg hx, h.object]

theorem Cleared.load (h : Cleared c marks s t) (addr : Address) :
    Cleared c marks (s.getDeletedStateObject addr).2 (t.getDeletedStateObject addr).2 := by
  have hs := cleared_getDeletedStateObject c s addr
  have ht := cleared_getDeletedStateObject c t addr
  refine ⟨ht.db.trans (h.db.trans hs.db.symm), fun x => ?_, fun x => ?_,
    ht.refund.trans (h.refund.trans hs.refund.symm), ht.thash.trans (h.thash.trans hs.thash.symm),
    ht.txIndex.trans (h.txIndex.trans hs.txIndex.symm), fun k => ?_,
    ht.logSize.trans (h.logSize.trans hs.logSize.symm), fun k => ?_, fun x => ?_,
    ht.slots.trans (h.slots.trans hs.slots.symm), fun x hx => ?_⟩
  · rw [ht.object, hs.object, h.object, Marks.none, map_clear_nil, map_clear_nil]
  · rw [ht.snapDestructs, hs.snapDestructs, h.snapDestructs]
  · rw [ht.logs, hs.logs, h.logs]
  · rw [ht.preimages, hs.preimages, h.preimages]
  · rw [ht.addresses, hs.addresses, h.addresses]
  · rw [ht.dirties x hx, hs.dirties x hx, h.dirties x hx]

theorem dirtyCount_addDirty (s : LiveState) (addr x : Address) :
    (s.addDirty addr).dirtyCount x = if addr = x then s.dirtyCount addr + 1 else s.dirtyCount x := by
  unfold LiveState.addDirty LiveState.dirtyCount
  rw [AssocMap.get_put]
  by_cases hx : addr = x
  · rw [if_pos hx, if_pos hx, Option.getD_some]
  · rw [if_neg hx, if_neg hx]

theorem dirtyCount_dropDirty (s : LiveState) (addr x : Address) :
    (s.dropDirty addr).dirtyCount x = if addr = x then s.dirtyCount addr - 1 else s.dirtyCount x := by
  unfold LiveState.dropDirty LiveState.dirtyCount
  dsimp only
  by_cases hzero : (s.dirties.get addr).getD 0 - 1 = 0
  · rw [if_pos hzero, AssocMap.get_erase]
    by_cases hx : addr = x
    · rw [if_pos hx, if_pos hx, Option.getD_none, hzero]
    · rw [if_neg hx, if_neg hx]
  · rw [if_neg hzero, AssocMap.get_put]
    by_cases hx : addr = x
    · rw [if_pos hx, if_pos hx, Option.getD_some]
    · rw [if_neg hx, if_neg hx]

theorem dirtyCount_dropDirty_addDirty (h : t.dirties = (s.addDirty addr).dirties) (x : Address) :
    (t.dropDirty addr).dirtyCount x = s.dirtyCount x := by
  have hcount (x : Address) : t.dirtyCount x = (s.addDirty addr).dirtyCount x := by
    unfold LiveState.dirtyCount
    rw [h]
  rw [dirtyCount_dropDirty, hcount, hcount, dirtyCount_addDirty, dirtyCount_addDirty, if_pos rfl]
  by_cases hx : addr = x
  · rw [if_pos hx, ← hx]
    omega
  · rw [if_neg hx, if_neg hx]

theorem Cleared.dropDirty (h : Cleared c marks s t) (addr : Address) :
    Cleared c marks (s.dropDirty addr) (t.dropDirty addr) := by
  refine { h with object := h.object_of_same rfl rfl rfl rfl rfl rfl, dirties := fun x hx => ?_ }
  rw [dirtyCount_dropDirty, dirtyCount_dropDirty]
  by_cases haddr : addr = x
  · rw [if_pos haddr, if_pos haddr, haddr, h.dirties x hx]
  · rw [if_neg haddr, if_neg haddr, h.dirties x hx]

theorem Cleared.alter {f : LiveObject → Go LiveObject} (h : Cleared c marks s t)
    (hf : ∀ {obj obj' o : LiveObject}, obj'.seen c s.db (s.destructed addr) addr =
        (obj.seen c s.db (s.destructed addr) addr).clear addr (marks addr) → f obj = .ok o →
      ∃ o', f obj' = .ok o' ∧ o'.seen c s.db (s.destructed addr) addr =
        (o.seen c s.db (s.destructed addr) addr).clear addr (marks addr))
    (hu : JournalEntry.alter addr f s = .ok u) :
    ∃ v, JournalEntry.alter addr f t = .ok v ∧ Cleared c marks u v := by
  have hload := h.load addr
  have hs := cleared_getDeletedStateObject c s addr
  unfold JournalEntry.alter at hu ⊢
  rcases h.getStateObject addr with ⟨hnone, -⟩ | ⟨obj, obj', hobj, hobj', hseen⟩
  · have hpair : s.getStateObject addr = (none, (s.getStateObject addr).2) := Prod.ext hnone rfl
    rw [hpair] at hu
    cases hu
  · have hpair : s.getStateObject addr = (some obj, (s.getDeletedStateObject addr).2) :=
      Prod.ext hobj rfl
    have hpair' : t.getStateObject addr = (some obj', (t.getDeletedStateObject addr).2) :=
      Prod.ext hobj' rfl
    rw [hpair] at hu
    rw [hpair']
    rcases bind_eq_ok.1 hu with ⟨o, ho, hput⟩
    rcases hf hseen ho with ⟨o', ho', hseen'⟩
    rw [pure_eq_ok] at hput
    refine ⟨(t.getDeletedStateObject addr).2.setStateObject addr o', ?_, ?_⟩
    · dsimp only
      rw [ho', ok_bind]
      rfl
    · rw [← hput]
      refine hload.setStateObject ?_
      rw [hs.db, hs.snapDestructs]
      exact hseen'

theorem Cleared.alter_pure {f : LiveObject → LiveObject} (h : Cleared c marks s t) (φ : Seen → Seen)
    (hf : ∀ obj, (f obj).seen c s.db (s.destructed addr) addr =
      φ (obj.seen c s.db (s.destructed addr) addr))
    (hφ : ∀ a, φ (a.clear addr (marks addr)) = (φ a).clear addr (marks addr))
    (hu : JournalEntry.alter addr (fun obj => .ok (f obj)) s = .ok u) :
    ∃ v, JournalEntry.alter addr (fun obj => .ok (f obj)) t = .ok v ∧ Cleared c marks u v := by
  refine h.alter (fun {obj obj' o} hseen ho => ?_) hu
  cases ho
  refine ⟨f obj', rfl, ?_⟩
  rw [hf, hf, hseen, hφ]

end Cleared

section Undo

variable {c : Crypto} {marks : Marks} {s t u : LiveState}

/-- The account whose object an entry takes away or puts back. -/
def JournalEntry.recreated : JournalEntry → Option Address
  | createObject a | resetObject a _ _ => some a
  | _ => none

/-- What is left of marks when an entry is taken back: an object that is put back has none. -/
def Marks.after (e : JournalEntry) (marks : Marks) : Marks :=
  fun x => if e.recreated = some x then [] else marks x

theorem seen_setState (c : Crypto) (db : Backend) (gone : Bool) (addr : Address) (obj : LiveObject)
    (key value : Hash) : (obj.setState key value).seen c db gone addr =
      (obj.seen c db gone addr).write key value := by
  have hstate : (obj.setState key value).stateValue db gone addr =
      fun k => if key = k then value else obj.stateValue db gone addr k := by
    funext k
    unfold LiveObject.stateValue LiveObject.setState
    rw [AssocMap.get_put]
    by_cases hk : key = k
    · rw [if_pos hk, if_pos hk, Option.getD_some]
    · rw [if_neg hk, if_neg hk]
      rfl
  unfold LiveObject.seen
  rw [hstate]
  rfl

theorem setOTSBitfield_eq_ok {obj o : LiveObject} {addr : Address} {i : Nat} {revert : Bool} :
    obj.setOTSBitfield addr i revert = .ok o ↔
      i / 8 < (otsField addr obj.data.otsBitfield).length ∧
        o = { obj with data := { obj.data with
          otsBitfield := (otsField addr obj.data.otsBitfield).modify (i / 8)
            (fun page => setByte page (i % 8) (if revert then 0 else 1)) } } := by
  unfold LiveObject.setOTSBitfield
  dsimp only
  by_cases hlt : i / 8 < (otsField addr obj.data.otsBitfield).length
  · rw [List.getElem?_eq_getElem hlt, List.modify_eq_set_getElem?, List.getElem?_eq_getElem hlt]
    dsimp only [Option.map_eq_map, Option.map_some, Option.getD_some]
    rw [Except.ok.injEq, eq_comm]
    exact ⟨fun h => ⟨hlt, h⟩, fun h => h.2⟩
  · rw [List.getElem?_eq_none (Nat.le_of_not_lt hlt)]
    exact ⟨fun h => (nomatch h), fun h => absurd h.1 hlt⟩

theorem length_otsField_clearBits (addr : Address) (is : List Nat)
    (field : List (List.Vector UInt8 8)) :
    (otsField addr (clearBits addr is field)).length = (otsField addr field).length := by
  induction is generalizing field with
  | nil => rfl
  | cons i is ih =>
    have hcons : clearBits addr (i :: is) field = clearBits addr is (clearBit addr field i) := rfl
    rw [hcons, ih, otsField_of_ne_nil (clearBit_ne_nil addr field i), clearBit, List.length_modify]

theorem get_eraseObject (s : LiveState) (a x : Address) :
    (s.eraseObject a).stateObjects.get x = if a = x then none else s.stateObjects.get x :=
  AssocMap.get_erase ..

theorem object_eraseObject (c : Crypto) (s : LiveState) (a x : Address) :
    (s.eraseObject a).object c x = if a = x then (s.db.account x).map
      (fun data => (LiveObject.new data).seen c s.db (s.destructed x) x) else s.object c x := by
  by_cases hx : a = x
  · have hnone : (s.eraseObject a).stateObjects.get x = none := by rw [get_eraseObject, if_pos hx]
    rw [if_pos hx, LiveState.object_of_get_none hnone]
    rfl
  · rw [if_neg hx]
    exact LiveState.object_congr (by rw [get_eraseObject, if_neg hx]) rfl rfl

theorem cleared_eraseObject (h : Cleared c marks s t) (a : Address) :
    Cleared c (marks.after (.createObject a)) (s.eraseObject a) (t.eraseObject a) := by
  refine { h with object := fun x => ?_ }
  rw [object_eraseObject, object_eraseObject, h.db, h.snapDestructs]
  unfold Marks.after JournalEntry.recreated
  by_cases hx : a = x
  · rw [if_pos hx, if_pos hx, if_pos (congrArg some hx), map_clear_nil]
  · rw [if_neg hx, if_neg hx, if_neg (fun heq => hx (Option.some_inj.1 heq)), h.object]

theorem destructed_undestruct (s : LiveState) (a x : Address) :
    (s.undestruct a).destructed x = (s.destructed x && decide (x ≠ a)) := by
  unfold LiveState.destructed LiveState.undestruct
  rw [← Bool.decide_and]
  exact decide_eq_decide.2 (by rw [List.mem_filter, decide_eq_true_iff])

theorem object_undestruct_ne (c : Crypto) (s : LiveState) {a x : Address} (hx : a ≠ x) :
    (s.undestruct a).object c x = s.object c x := by
  refine LiveState.object_congr rfl rfl ?_
  rw [destructed_undestruct, decide_eq_true (Ne.symm hx), Bool.and_true]

theorem Cleared.undestruct (h : Cleared c marks s t) {a : Address} {obj : LiveObject}
    (hs : s.stateObjects.get a = some obj) (ht : t.stateObjects.get a = some obj)
    (hmarks : marks a = []) : Cleared c marks (s.undestruct a) (t.undestruct a) := by
  have hgone (x : Address) : (t.undestruct a).destructed x = (s.undestruct a).destructed x := by
    rw [destructed_undestruct, destructed_undestruct, h.snapDestructs]
  refine { h with object := fun x => ?_, snapDestructs := hgone }
  by_cases hx : a = x
  · subst hx
    have hs' : (s.undestruct a).stateObjects.get a = some obj := hs
    have ht' : (t.undestruct a).stateObjects.get a = some obj := ht
    have hdb : (t.undestruct a).db = (s.undestruct a).db := h.db
    rw [LiveState.object_of_get hs', LiveState.object_of_get ht', hgone, hdb, hmarks]
    rfl
  · rw [object_undestruct_ne c t hx, object_undestruct_ne c s hx, h.object]

theorem cleared_resetBack (h : Cleared c marks s t) (a : Address) (prev : LiveObject)
    (prevdestruct : Bool) : Cleared c (marks.after (.resetObject a prev prevdestruct))
      (JournalEntry.resetBack a prev prevdestruct s)
      (JournalEntry.resetBack a prev prevdestruct t) := by
  -- What is read at the address is the object put back, in both states.
  have hput : Cleared c (marks.after (.resetObject a prev prevdestruct)) (s.setStateObject a prev)
      (t.setStateObject a prev) := by
    refine { h with object := fun x => ?_ }
    rw [LiveState.object_setStateObject, LiveState.object_setStateObject, h.db, h.snapDestructs]
    unfold Marks.after JournalEntry.recreated
    by_cases hx : a = x
    · rw [if_pos hx, if_pos hx, if_pos (congrArg some hx)]
      rfl
    · rw [if_neg hx, if_neg hx, if_neg (fun heq => hx (Option.some_inj.1 heq)), h.object]
  unfold JournalEntry.resetBack
  by_cases hflag : prevdestruct = false ∧ (s.setStateObject a prev).db.snapStorage.isSome = true
  · rw [if_pos hflag, if_pos (by rw [hput.db]; exact hflag)]
    exact hput.undestruct (AssocMap.get_put_self ..) (AssocMap.get_put_self ..) (if_pos rfl)
  · rw [if_neg hflag, if_neg (by rw [hput.db]; exact hflag)]
    exact hput

theorem cleared_suicideBack (h : Cleared c marks s t) (a : Address) (prev : Bool)
    (prevbalance : Int) : Cleared c marks (JournalEntry.suicideBack a prev prevbalance s)
      (JournalEntry.suicideBack a prev prevbalance t) := by
  have hload := h.load a
  have hs := cleared_getDeletedStateObject c s a
  unfold JournalEntry.suicideBack
  rcases h.getStateObject a with ⟨hnone, hnone'⟩ | ⟨obj, obj', hobj, hobj', hseen⟩
  · have hpair : s.getStateObject a = (none, (s.getDeletedStateObject a).2) := Prod.ext hnone rfl
    have hpair' : t.getStateObject a = (none, (t.getDeletedStateObject a).2) :=
      Prod.ext hnone' rfl
    rw [hpair, hpair']
    exact hload
  · have hpair : s.getStateObject a = (some obj, (s.getDeletedStateObject a).2) :=
      Prod.ext hobj rfl
    have hpair' : t.getStateObject a = (some obj', (t.getDeletedStateObject a).2) :=
      Prod.ext hobj' rfl
    rw [hpair, hpair']
    refine hload.setStateObject ?_
    rw [hs.db, hs.snapDestructs]
    have hback : ∀ o : LiveObject, ({ o.setBalance prevbalance with suicided := prev } :
        LiveObject).seen c s.db (s.destructed a) a =
          { o.seen c s.db (s.destructed a) a with
            suicided := prev
            data := { o.data with balance := prevbalance } } := fun _ => rfl
    have hdata : obj'.data = { obj.data with
        otsBitfield := clearBits a (marks a) obj.data.otsBitfield } := congrArg Seen.data hseen
    rw [hback, hback, hseen, hdata]
    rfl

theorem deleteSlot_congr {al al' al₁ : AccessList} {a : Address} {slot : Hash}
    (haddresses : ∀ x, al'.addresses.get x = al.addresses.get x) (hslots : al'.slots = al.slots)
    (h : al.deleteSlot a slot = .ok al₁) : ∃ al₁', al'.deleteSlot a slot = .ok al₁' ∧
      (∀ x, al₁'.addresses.get x = al₁.addresses.get x) ∧ al₁'.slots = al₁.slots := by
  unfold AccessList.deleteSlot at h ⊢
  rw [haddresses a, hslots]
  cases hidx : al.addresses.get a with
  | none =>
    rw [hidx] at h
    cases h
  | some o =>
    cases o with
    | none =>
      rw [hidx] at h
      cases h
    | some idx =>
      rw [hidx] at h
      dsimp only at h ⊢
      cases hmap : al.slots[idx]? with
      | none =>
        rw [hmap] at h
        cases h
      | some slotmap =>
        rw [hmap] at h
        dsimp only at h ⊢
        by_cases hrest : slotmap.val.filter (fun s => s ≠ slot) = []
        · rw [dif_pos hrest] at h ⊢
          cases h
          refine ⟨_, rfl, fun x => ?_, rfl⟩
          dsimp only
          rw [AssocMap.get_put, AssocMap.get_put, haddresses x]
        · rw [dif_neg hrest] at h ⊢
          cases h
          exact ⟨_, rfl, haddresses, rfl⟩

theorem cleared_undo {e : JournalEntry} (h : Cleared c marks s t) (hu : e.undo s = .ok u) :
    ∃ v, e.undo t = .ok v ∧ Cleared c (marks.after e) u v := by
  cases e with
  | createObject a =>
    cases hu
    exact ⟨_, rfl, cleared_eraseObject h a⟩
  | resetObject a prev prevdestruct =>
    cases hu
    exact ⟨_, rfl, cleared_resetBack h a prev prevdestruct⟩
  | suicide a prev prevbalance =>
    cases hu
    exact ⟨_, rfl, cleared_suicideBack h a prev prevbalance⟩
  | balance a prev =>
    exact h.alter_pure (fun x => { x with data := { x.data with balance := prev } })
      (fun _ => rfl) (fun _ => rfl) hu
  | stakeBalance a prev =>
    exact h.alter_pure (fun x => { x with data := { x.data with stakeBalance := prev } })
      (fun _ => rfl) (fun _ => rfl) hu
  | pendingStakeBalance a prev =>
    exact h.alter_pure (fun x => { x with data := { x.data with pendingStakeBalance := prev } })
      (fun _ => rfl) (fun _ => rfl) hu
  | nonce a prev =>
    exact h.alter_pure (fun x => { x with data := { x.data with nonce := prev } })
      (fun _ => rfl) (fun _ => rfl) hu
  | otsBitfield a i =>
    refine h.alter (fun {obj obj' o} hseen ho => ?_) hu
    rcases setOTSBitfield_eq_ok.1 ho with ⟨hlt, rfl⟩
    have hdata : obj'.data = { obj.data with
        otsBitfield := clearBits a (marks a) obj.data.otsBitfield } := congrArg Seen.data hseen
    have hfield : obj'.data.otsBitfield = clearBits a (marks a) obj.data.otsBitfield :=
      congrArg ObjectData.otsBitfield hdata
    refine ⟨_, setOTSBitfield_eq_ok.2 ⟨?_, rfl⟩, ?_⟩
    · rw [hfield, length_otsField_clearBits]
      exact hlt
    · have hback : ∀ o : LiveObject, ({ o with data := { o.data with
          otsBitfield := clearBit a o.data.otsBitfield i } } :
            LiveObject).seen c s.db (s.destructed a) a =
              { o.seen c s.db (s.destructed a) a with
                data := { o.data with otsBitfield := clearBit a o.data.otsBitfield i } } :=
        fun _ => rfl
      refine (hback obj').trans ?_
      refine Eq.trans ?_ (congrArg (Seen.clear a (marks a)) (hback obj)).symm
      rw [hseen, hdata]
      unfold Seen.clear
      dsimp only
      rw [clearBits_clearBit]
  | storage a key prevalue =>
    exact h.alter_pure (Seen.write key prevalue) (fun obj => seen_setState ..) (fun _ => rfl) hu
  | code a prevcode prevhash =>
    exact h.alter_pure
      (fun x => { x with code := prevcode, data := { x.data with codeHash := prevhash } })
      (fun _ => rfl) (fun _ => rfl) hu
  | refund prev =>
    cases hu
    exact ⟨_, rfl, { h with object := h.object_of_same rfl rfl rfl rfl rfl rfl, refund := rfl }⟩
  | addLog txhash =>
    unfold JournalEntry.undo JournalEntry.dropLog at hu ⊢
    dsimp only at hu ⊢
    rw [h.logs]
    by_cases hnil : ((s.logs.get txhash).getD []).length = 0
    · rw [if_pos hnil] at hu
      cases hu
    · rw [if_neg hnil] at hu ⊢
      cases hu
      refine ⟨_, rfl, { h with
        object := h.object_of_same rfl rfl rfl rfl rfl rfl
        logs := fun k => ?_
        logSize := congrArg (· - 1) h.logSize }⟩
      dsimp only
      by_cases hone : ((s.logs.get txhash).getD []).length = 1
      · rw [if_pos hone, if_pos hone, AssocMap.get_erase, AssocMap.get_erase]
        by_cases hk : txhash = k
        · rw [if_pos hk, if_pos hk]
        · rw [if_neg hk, if_neg hk, h.logs]
      · rw [if_neg hone, if_neg hone, AssocMap.get_put, AssocMap.get_put]
        by_cases hk : txhash = k
        · rw [if_pos hk, if_pos hk]
        · rw [if_neg hk, if_neg hk, h.logs]
  | addPreimage hash =>
    cases hu
    refine ⟨_, rfl, { h with
      object := h.object_of_same rfl rfl rfl rfl rfl rfl
      preimages := fun k => ?_ }⟩
    dsimp only
    rw [AssocMap.get_erase, AssocMap.get_erase, h.preimages]
  | touch a =>
    cases hu
    exact ⟨t, rfl, h⟩
  | accessListAddAccount a =>
    cases hu
    refine ⟨_, rfl, { h with
      object := h.object_of_same rfl rfl rfl rfl rfl rfl
      addresses := fun x => ?_ }⟩
    unfold AccessList.deleteAddress
    dsimp only
    rw [AssocMap.get_erase, AssocMap.get_erase, h.addresses]
  | accessListAddSlot a slot =>
    rcases bind_eq_ok.1 hu with ⟨al, hal, hput⟩
    rw [pure_eq_ok] at hput
    rcases deleteSlot_congr h.addresses h.slots hal with ⟨al', hal', haddresses, hslots⟩
    refine ⟨{ t with accessList := al' }, bind_eq_ok.2 ⟨al', hal', rfl⟩, ?_⟩
    · rw [← hput]
      exact { h with
        object := h.object_of_same rfl rfl rfl rfl rfl rfl
        addresses := haddresses
        slots := hslots }

theorem cleared_revert {e : JournalEntry} (h : Cleared c marks s t) (hu : e.revert s = .ok u) :
    ∃ v, e.revert t = .ok v ∧ Cleared c (marks.after e) u v := by
  rcases bind_eq_ok.1 hu with ⟨u', hu', hdrop⟩
  rw [pure_eq_ok] at hdrop
  rcases cleared_undo h hu' with ⟨v', hv', hrel⟩
  refine ⟨e.dirtied.elim v' v'.dropDirty, bind_eq_ok.2 ⟨v', hv', rfl⟩, ?_⟩
  rw [← hdrop]
  cases e.dirtied with
  | none => exact hrel
  | some a => exact hrel.dropDirty a

end Undo

end Zond
