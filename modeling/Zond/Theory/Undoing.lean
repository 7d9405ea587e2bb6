import Zond.Theory.Reverting

/-!
# Taking Back an Operation

An operation is a few small changes, each with its entry. Reading is an operation too,
because of what it leaves in the caches, and has no entries. Only a write to the field of
used one-time keys leaves a mark, and only if the account was there before the call: what
is written to an account made by the call goes away with the account.

## Main definitions

* `Undoes`: What an operation appends to the journal takes it back.
* `Opened`: The object of an account, made if there was none.

## Theorems

* `Undoes.trans`: The entries of the whole are those of the parts.
* `undoes_apply`: Every operation.
-/

namespace Zond

open Outcome UndoLog

/-- The second journal has gone on from the first by some entries, which take it back. -/
structure Undoes (c : Crypto) (marks : Marks) (es : List JournalEntry) (j j' : JournaledDB) :
    Prop where
  entries : j'.entries = j.entries ++ es
  validRevisions : j'.validRevisions = j.validRevisions
  nextRevisionId : j'.nextRevisionId = j.nextRevisionId
  unwinds : ∃ t, unwind JournalEntry.revert es j'.state = .ok t ∧ Cleared c marks j.state t

section After

variable {es : List JournalEntry} {marks : Marks} {x : Address}

def Marks.afterAll (es : List JournalEntry) (marks : Marks) : Marks := es.foldr Marks.after marks

theorem afterAll_of_mem (h : ∃ e ∈ es, e.recreated = some x) : marks.afterAll es x = [] := by
  induction es with
  | nil =>
    rcases h with ⟨e, he, -⟩
    cases he
  | cons e es ih =>
    unfold Marks.afterAll Marks.after at ih ⊢
    rw [List.foldr_cons]
    by_cases he : e.recreated = some x
    · rw [if_pos he]
    · rw [if_neg he]
      rcases h with ⟨e', he', hx⟩
      rcases List.mem_cons.1 he' with rfl | he'
      · exact absurd hx he
      · exact ih ⟨e', he', hx⟩

theorem afterAll_of_not_mem (h : ∀ e ∈ es, e.recreated ≠ some x) :
    marks.afterAll es x = marks x := by
  induction es with
  | nil => rfl
  | cons e es ih =>
    unfold Marks.afterAll Marks.after at ih ⊢
    rw [List.foldr_cons, if_neg (h e List.mem_cons_self)]
    exact ih (fun e he => h e (List.mem_cons_of_mem _ he))

theorem afterAll_subset (h : marks x = []) : marks.afterAll es x = [] := by
  by_cases hmem : ∃ e ∈ es, e.recreated = some x
  · exact afterAll_of_mem hmem
  · rw [afterAll_of_not_mem (fun e he hx => hmem ⟨e, he, hx⟩), h]

theorem afterAll_none : Marks.none.afterAll es = Marks.none :=
  funext (fun _ => afterAll_subset rfl)

end After

section Undoing

variable {c : Crypto} {marks marks' : Marks} {es es' : List JournalEntry} {j j₁ j₂ : JournaledDB}
variable {addr : Address} {obj : LiveObject}
variable {e : JournalEntry} {s t : LiveState} {objects : AssocMap Address LiveObject}

theorem cleared_unwind {s t u : LiveState} (h : Cleared c marks s t)
    (hu : unwind JournalEntry.revert es s = .ok u) :
    ∃ v, unwind JournalEntry.revert es t = .ok v ∧ Cleared c (marks.afterAll es) u v := by
  refine @unwind_sim _ _ _ JournalEntry.revert _ Marks.after (Cleared c) ?_ _ _ _ _ _ h hu
  intro marks e s t u hrel hlast
  exact cleared_revert hrel hlast

/-- Two steps: the marks of the second go through the entries of the first. -/
theorem Undoes.trans (h : Undoes c marks es j j₁) (h' : Undoes c marks' es' j₁ j₂) :
    Undoes c (fun x => marks x ++ marks'.afterAll es x) (es ++ es') j j₂ := by
  refine ⟨?_, h'.validRevisions.trans h.validRevisions, h'.nextRevisionId.trans h.nextRevisionId,
    ?_⟩
  · rw [h'.entries, h.entries, List.append_assoc]
  · rcases h.unwinds with ⟨t, ht, hrel⟩
    rcases h'.unwinds with ⟨t', ht', hrel'⟩
    rcases cleared_unwind hrel' ht with ⟨v, hv, hlast⟩
    refine ⟨v, ?_, hrel.trans hlast⟩
    rw [unwind_append, ht', ok_bind, hv]

theorem Undoes.trans_none (h : Undoes c Marks.none es j j₁) (h' : Undoes c Marks.none es' j₁ j₂) :
    Undoes c Marks.none (es ++ es') j j₂ := by
  have htrans := h.trans h'
  rw [afterAll_none] at htrans
  exact htrans

theorem undoes_withState (j : JournaledDB) (h : Cleared c Marks.none j.state s) :
    Undoes c Marks.none [] j (j.withState s) :=
  ⟨(List.append_nil _).symm, rfl, rfl, s, rfl, h⟩

theorem Undoes.refl (c : Crypto) (j : JournaledDB) : Undoes c Marks.none [] j j :=
  undoes_withState j (Cleared.refl c j.state)

theorem revert_of_dirtied (he : e.dirtied = some addr)
    (h : e.undo s = .ok t) : e.revert s = .ok (t.dropDirty addr) := by
  unfold JournalEntry.revert
  rw [h, he]
  rfl

theorem revert_of_not_dirtied (he : e.dirtied = none)
    (h : e.undo s = .ok t) : e.revert s = .ok t := by
  unfold JournalEntry.revert
  rw [h, he]
  rfl

theorem undoes_entry (he : e.dirtied = none)
    (hundo : e.undo s = .ok t) (h : Cleared c marks j.state t) :
    Undoes c marks [e] j ((j.append e).withState s) := by
  refine ⟨rfl, rfl, rfl, t, ?_, h⟩
  rw [unwind_singleton]
  exact revert_of_not_dirtied he hundo

theorem cleared_overwrite {obj₁ obj₂ : LiveObject} (hget : s.stateObjects.get addr = some obj)
    (hseen : obj₂.seen c s.db (s.destructed addr) addr =
      (obj.seen c s.db (s.destructed addr) addr).clear addr (marks addr))
    (hmarks : ∀ x, addr ≠ x → marks x = []) :
    Cleared c marks s ((((s.addDirty addr).setStateObject addr obj₁).setStateObject addr
      obj₂).dropDirty addr) := by
  refine ⟨rfl, fun x => ?_, fun _ => rfl, rfl, rfl, rfl, fun _ => rfl, rfl, fun _ => rfl,
    fun _ => rfl, rfl, fun x _ => ?_⟩
  · have hfields : ((((s.addDirty addr).setStateObject addr obj₁).setStateObject addr
        obj₂).dropDirty addr).object c x = (((s.addDirty addr).setStateObject addr
          obj₁).setStateObject addr obj₂).object c x := LiveState.object_congr rfl rfl rfl
    have hdirty : (s.addDirty addr).object c x = s.object c x := LiveState.object_congr rfl rfl rfl
    rw [hfields, LiveState.object_setStateObject, LiveState.object_setStateObject, hdirty]
    by_cases hx : addr = x
    · rw [if_pos hx, ← hx, LiveState.object_of_get hget, Option.map_some]
      exact congrArg some hseen
    · rw [if_neg hx, if_neg hx, hmarks x hx, map_clear_nil]
  · exact dirtyCount_dropDirty_addDirty rfl x

theorem undoes_change {obj₁ : LiveObject} (obj₂ : LiveObject)
    (hget : j.state.stateObjects.get addr = some obj) (he : e.dirtied = some addr)
    (hundo : ∀ s : LiveState, s.stateObjects.get addr = some obj₁ →
      e.undo s = .ok (s.setStateObject addr obj₂))
    (hseen : obj₂.seen c j.state.db (j.state.destructed addr) addr =
      (obj.seen c j.state.db (j.state.destructed addr) addr).clear addr (marks addr))
    (hmarks : ∀ x, addr ≠ x → marks x = []) :
    Undoes c marks [e] j ((j.append e).setStateObject addr obj₁) := by
  have hstate : ((j.append e).setStateObject addr obj₁).state =
      (j.state.addDirty addr).setStateObject addr obj₁ := by
    unfold JournaledDB.setStateObject JournaledDB.withState JournaledDB.append
    rw [he]
    rfl
  have hback := @cleared_overwrite c marks addr obj j.state obj₁ obj₂ hget hseen hmarks
  refine ⟨rfl, rfl, rfl, _, ?_, hback⟩
  rw [unwind_singleton, hstate]
  exact revert_of_dirtied he (hundo _ (AssocMap.get_put_self ..))

theorem getStateObject_of_get (hget : s.stateObjects.get addr = some obj)
    (hlive : obj.deleted = false) : s.getStateObject addr = (some obj, s) := by
  unfold LiveState.getStateObject
  rw [LiveState.getDeletedStateObject_of_get hget]
  dsimp only
  rw [Option.filter_some, hlive]
  rfl

theorem alter_of_get {o : LiveObject} {f : LiveObject → Go LiveObject}
    (hget : s.stateObjects.get addr = some obj) (hlive : obj.deleted = false)
    (hf : f obj = .ok o) : JournalEntry.alter addr f s = .ok (s.setStateObject addr o) := by
  unfold JournalEntry.alter
  rw [getStateObject_of_get hget hlive]
  dsimp only
  rw [hf]
  rfl

/-- An operation has got at the object of an address, making one if there was none. -/
structure Opened (c : Crypto) (addr : Address) (obj : LiveObject) (es : List JournalEntry)
    (j j' : JournaledDB) : Prop where
  undoes : Undoes c Marks.none es j j'
  get : j'.state.stateObjects.get addr = some obj
  live : obj.deleted = false
  db : j'.state.db = j.state.db
  made : (j.state.exist addr = true ∧ es = []) ∨
    (j.state.exist addr = false ∧ ∃ e ∈ es, e.recreated = some addr)

theorem get_getDeletedStateObject (h : (s.getDeletedStateObject addr).1 = some obj) :
    (s.getDeletedStateObject addr).2.stateObjects.get addr = some obj := by
  rcases s.getDeletedStateObject_cases addr with ⟨obj', hget, hread⟩ | ⟨-, -, hread⟩ |
    ⟨data, -, -, hread⟩
  · rw [hread] at h ⊢
    cases h
    exact hget
  · rw [hread] at h
    cases h
  · rw [hread] at h ⊢
    cases h
    exact AssocMap.get_put_self ..

theorem getStateObject_cases (s : LiveState) (addr : Address) :
    (s.exist addr = false ∧ s.getStateObject addr = (none, (s.getDeletedStateObject addr).2)) ∨
    ∃ obj, s.exist addr = true ∧ obj.deleted = false ∧
      (s.getDeletedStateObject addr).2.stateObjects.get addr = some obj ∧
      s.getStateObject addr = (some obj, (s.getDeletedStateObject addr).2) := by
  have hfound : (s.getStateObject addr).1 =
      (s.getDeletedStateObject addr).1.filter (fun obj => !obj.deleted) := rfl
  unfold LiveState.exist LiveState.found
  cases hobj : (s.getStateObject addr).1 with
  | none => exact .inl ⟨rfl, Prod.ext hobj rfl⟩
  | some obj =>
    right
    rw [hfound, Option.filter_eq_some_iff] at hobj
    refine ⟨obj, rfl, ?_, get_getDeletedStateObject hobj.1, Prod.ext ?_ rfl⟩
    · exact Bool.not_eq_true' .. ▸ hobj.2
    · rw [hfound, Option.filter_eq_some_iff]
      exact hobj

theorem undoes_createObject_of_none (hget : j.state.stateObjects.get addr = none)
    (hobjects : ∀ x, addr ≠ x → objects.get x = j.state.stateObjects.get x) :
    Undoes c Marks.none [.createObject addr] j ((j.append (.createObject addr)).withState
      { j.state.addDirty addr with stateObjects := objects }) := by
  refine ⟨rfl, rfl, rfl, ({ j.state.addDirty addr with stateObjects := objects }.eraseObject
    addr).dropDirty addr, rfl, ?_⟩
  refine ⟨rfl, fun x => ?_, fun _ => rfl, rfl, rfl, rfl, fun _ => rfl, rfl, fun _ => rfl,
    fun _ => rfl, rfl, fun x _ => dirtyCount_dropDirty_addDirty rfl x⟩
  have hfields : (({ j.state.addDirty addr with stateObjects := objects }.eraseObject
      addr).dropDirty addr).object c x = ({ j.state.addDirty addr with
        stateObjects := objects }.eraseObject addr).object c x := LiveState.object_congr rfl rfl rfl
  rw [hfields, object_eraseObject, Marks.none, map_clear_nil]
  by_cases hx : addr = x
  · rw [if_pos hx, ← hx, LiveState.object_of_get_none hget]
    rfl
  · rw [if_neg hx]
    exact LiveState.object_congr (hobjects x hx) rfl rfl

theorem destructed_destruct (s : LiveState) (a x : Address) :
    (s.destruct a).destructed x = (decide (x = a) || s.destructed x) := by
  unfold LiveState.destructed LiveState.destruct
  rw [← Bool.decide_or]
  exact decide_eq_decide.2 (mem_insertNew ..)

theorem cleared_putBack {prev : LiveObject} (hget : s.stateObjects.get addr = some prev)
    (hobjects : ∀ x, addr ≠ x → objects.get x = s.stateObjects.get x) (ht : t = { s with
      stateObjects := objects.put addr prev
      snapDestructs := t.snapDestructs })
    (hgone : ∀ x, t.destructed x = s.destructed x) : Cleared c Marks.none s t := by
  have hdb : t.db = s.db := by rw [ht]
  have hput : t.stateObjects = objects.put addr prev := by rw [ht]
  refine ⟨hdb, fun x => ?_, hgone, by rw [ht], by rw [ht], by rw [ht], fun _ => by rw [ht],
    by rw [ht], fun _ => by rw [ht], fun _ => by rw [ht], by rw [ht], fun _ _ => by rw [ht]; rfl⟩
  rw [Marks.none, map_clear_nil]
  refine LiveState.object_congr ?_ hdb (hgone x)
  rw [hput, AssocMap.get_put]
  by_cases hx : addr = x
  · rw [if_pos hx, ← hx, hget]
  · rw [if_neg hx, hobjects x hx]

/-- `createObject` marks the account as destructed if there is a snapshot. -/
def LiveState.supersede (s : LiveState) (addr : Address) : LiveState :=
  if s.db.snapStorage.isSome then s.destruct addr else s

theorem supersede_db (s : LiveState) (addr : Address) : (s.supersede addr).db = s.db := by
  unfold LiveState.supersede
  split <;> rfl

theorem supersede_stateObjects (s : LiveState) (addr : Address) :
    (s.supersede addr).stateObjects = s.stateObjects := by
  unfold LiveState.supersede
  split <;> rfl

theorem undoes_resetObject {prev : LiveObject} (hget : j.state.stateObjects.get addr = some prev)
    (hobjects : ∀ x, addr ≠ x → objects.get x = (j.state.supersede addr).stateObjects.get x) :
    Undoes c Marks.none
      [.resetObject addr prev (j.state.db.snapStorage.isSome && j.state.destructed addr)] j
      (((j.withState (j.state.supersede addr)).append (.resetObject addr prev
        (j.state.db.snapStorage.isSome && j.state.destructed addr))).withState
          { j.state.supersede addr with stateObjects := objects }) := by
  refine ⟨rfl, rfl, rfl, JournalEntry.resetBack addr prev
    (j.state.db.snapStorage.isSome && j.state.destructed addr)
      { j.state.supersede addr with stateObjects := objects }, rfl, ?_⟩
  rw [supersede_stateObjects] at hobjects
  unfold JournalEntry.resetBack LiveState.supersede
  by_cases hsnap : j.state.db.snapStorage.isSome = true
  · rw [if_pos hsnap, hsnap, Bool.true_and]
    have hdb : ({ j.state.destruct addr with stateObjects := objects }.setStateObject addr
        prev).db.snapStorage.isSome = true := hsnap
    by_cases hgone : j.state.destructed addr = true
    · rw [hgone, if_neg (fun h => Bool.noConfusion h.1)]
      refine cleared_putBack hget hobjects rfl (fun x => ?_)
      refine (destructed_destruct j.state addr x).trans ?_
      by_cases hx : x = addr
      · rw [hx, decide_eq_true rfl, Bool.true_or, hgone]
      · rw [decide_eq_false hx, Bool.false_or]
    · rw [Bool.not_eq_true] at hgone
      rw [hgone, if_pos ⟨rfl, hdb⟩]
      refine cleared_putBack hget hobjects rfl (fun x => ?_)
      rw [destructed_undestruct]
      refine (congrArg (· && decide (x ≠ addr)) (destructed_destruct j.state addr x)).trans ?_
      by_cases hx : x = addr
      · rw [hx, hgone, decide_eq_false (not_not.2 rfl), Bool.and_false]
      · rw [decide_eq_false hx, Bool.false_or, decide_eq_true hx, Bool.and_true]
  · rw [if_neg hsnap, if_neg (fun h => hsnap h.2)]
    exact cleared_putBack hget hobjects rfl (fun _ => rfl)

theorem createObject_cases (c : Crypto) (j : JournaledDB) (addr : Address) :
    (JournaledDB.createObject c j addr).1.state.stateObjects.get addr =
        some (LiveObject.new (ObjectData.new c)) ∧
      (JournaledDB.createObject c j addr).1.state.db = j.state.db ∧
      ∃ e, e.recreated = some addr ∧
        Undoes c Marks.none [e] j (JournaledDB.createObject c j addr).1 ∧
        ∀ obj, Undoes c Marks.none [e] j
          ((JournaledDB.createObject c j addr).1.setStateObject addr obj) := by
  have hone (m : AssocMap Address LiveObject) (obj : LiveObject) (x : Address) (hx : addr ≠ x) :
      (m.put addr obj).get x = m.get x := AssocMap.get_put_ne _ _ hx
  have htwo (m : AssocMap Address LiveObject) (obj obj' : LiveObject) (x : Address)
      (hx : addr ≠ x) : ((m.put addr obj).put addr obj').get x = m.get x :=
    (hone _ _ x hx).trans (hone _ _ x hx)
  -- The address is first read, which is undone by doing nothing.
  have hload := undoes_withState j (cleared_getDeletedStateObject c j.state addr)
  unfold JournaledDB.createObject
  rcases j.state.getDeletedStateObject_cases addr with ⟨prev, hprev, hpair⟩ | ⟨hnone, -, hpair⟩ |
    ⟨data, hnone, -, hpair⟩
  · rw [hpair]
    refine ⟨AssocMap.get_put_self .., supersede_db .., .resetObject addr prev
      (j.state.db.snapStorage.isSome && j.state.destructed addr), rfl, ?_, fun obj => ?_⟩
    · exact undoes_resetObject hprev (hone _ _)
    · exact undoes_resetObject hprev (htwo _ _ _)
  · rw [hpair]
    refine ⟨AssocMap.get_put_self .., rfl, .createObject addr, rfl, ?_, fun obj => ?_⟩
    · exact undoes_createObject_of_none hnone (hone _ _)
    · exact undoes_createObject_of_none hnone (htwo _ _ _)
  · rw [hpair] at hload ⊢
    have hprev : (j.withState (j.state.setStateObject addr (LiveObject.new
        data))).state.stateObjects.get addr = some (LiveObject.new data) :=
      AssocMap.get_put_self ..
    refine ⟨AssocMap.get_put_self .., supersede_db .., .resetObject addr (LiveObject.new data)
      (j.state.db.snapStorage.isSome && j.state.destructed addr), rfl, ?_, fun obj => ?_⟩
    · exact hload.trans_none (undoes_resetObject hprev (hone _ _))
    · exact hload.trans_none (undoes_resetObject hprev (htwo _ _ _))

theorem opened_getOrNewStateObject (c : Crypto) (j : JournaledDB) (addr : Address) :
    ∃ obj j₁ es, JournaledDB.getOrNewStateObject c j addr = (obj, j₁) ∧
      Opened c addr obj es j j₁ := by
  have hcleared := cleared_getDeletedStateObject c j.state addr
  have hload := undoes_withState j hcleared
  unfold JournaledDB.getOrNewStateObject
  rcases getStateObject_cases j.state addr with ⟨hexist, hpair⟩ | ⟨obj, hexist, hlive, hget, hpair⟩
  · rw [hpair]
    rcases createObject_cases c (j.withState (j.state.getDeletedStateObject addr).2) addr with
      ⟨hget, hdb, e, he, hundoes, -⟩
    exact ⟨_, _, _, rfl, hload.trans_none hundoes, hget, rfl, hdb.trans hcleared.db,
      .inr ⟨hexist, e, List.mem_singleton_self e, he⟩⟩
  · rw [hpair]
    exact ⟨obj, _, [], rfl, hload, hget, hlive, hcleared.db, .inl ⟨hexist, rfl⟩⟩

theorem Opened.change {obj₁ obj₂ : LiveObject} (h : Opened c addr obj es j j₁)
    (he : e.dirtied = some addr) (hundo : ∀ s : LiveState, s.stateObjects.get addr = some obj₁ →
      e.undo s = .ok (s.setStateObject addr obj₂))
    (hseen : ∀ gone, obj₂.seen c j.state.db gone addr = obj.seen c j.state.db gone addr) :
    Undoes c Marks.none (es ++ [e]) j ((j₁.append e).setStateObject addr obj₁) := by
  refine h.undoes.trans_none (undoes_change obj₂ h.get he hundo ?_ (fun _ _ => rfl))
  rw [h.db]
  exact hseen _

theorem undoes_write {entry : LiveObject → JournalEntry} {f : LiveObject → LiveObject}
    {back : LiveObject → LiveObject → LiveObject} (he : ∀ obj, (entry obj).dirtied = some addr)
    (hundo : ∀ obj, (entry obj).undo = JournalEntry.alter addr (fun o => .ok (back obj o)))
    (hdeleted : ∀ obj, (f obj).deleted = obj.deleted)
    (hseen : ∀ obj gone, (back obj (f obj)).seen c j.state.db gone addr =
      obj.seen c j.state.db gone addr) :
    ∃ es, Undoes c Marks.none es j (JournaledDB.write c j addr entry f) := by
  rcases opened_getOrNewStateObject c j addr with ⟨obj, j₁, es, hopen, h⟩
  refine ⟨es ++ [entry obj], ?_⟩
  unfold JournaledDB.write
  rw [hopen]
  refine h.change (he obj) (fun s hget => ?_) (hseen obj)
  rw [hundo]
  exact alter_of_get hget ((hdeleted obj).trans h.live) rfl

theorem undoes_setBalance (c : Crypto) (j : JournaledDB) (addr : Address) (amount : Int) :
    ∃ es, Undoes c Marks.none es j (JournaledDB.setBalance c j addr amount) :=
  undoes_write (fun _ => rfl) (fun _ => rfl) (fun _ => rfl) (fun _ _ => rfl)

theorem undoes_setCode (c : Crypto) (j : JournaledDB) (addr : Address) (code : List UInt8) :
    ∃ es, Undoes c Marks.none es j (JournaledDB.setCode c j addr code) := by
  refine undoes_write (fun _ => rfl) (fun _ => rfl) (fun _ => rfl) (fun obj gone => ?_)
  -- The entry has the code as it was read, which need not have been in the object.
  rw [LiveObject.getCode_fst]
  rfl

theorem undoes_touch (j : JournaledDB) (addr : Address) :
    Undoes c Marks.none [.touch addr] j (j.append (.touch addr)) := by
  refine ⟨rfl, rfl, rfl, (j.state.addDirty addr).dropDirty addr, rfl, ?_⟩
  refine ⟨rfl, fun x => ?_, fun _ => rfl, rfl, rfl, rfl, fun _ => rfl, rfl, fun _ => rfl,
    fun _ => rfl, rfl, fun x _ => dirtyCount_dropDirty_addDirty rfl x⟩
  rw [Marks.none, map_clear_nil]
  exact LiveState.object_congr rfl rfl rfl

theorem cleared_addDirty_ripemd (s : LiveState) : Cleared c Marks.none s (s.addDirty ripemd) := by
  refine ⟨rfl, fun x => ?_, fun _ => rfl, rfl, rfl, rfl, fun _ => rfl, rfl, fun _ => rfl,
    fun _ => rfl, rfl, fun x hx => ?_⟩
  · rw [Marks.none, map_clear_nil]
    exact LiveState.object_congr rfl rfl rfl
  · rw [dirtyCount_addDirty, if_neg (Ne.symm hx)]

theorem undoes_addBalance (c : Crypto) (j : JournaledDB) (addr : Address) (amount : Int) :
    ∃ es, Undoes c Marks.none es j (JournaledDB.addBalance c j addr amount) := by
  rcases opened_getOrNewStateObject c j addr with ⟨obj, j₁, es, hopen, h⟩
  unfold JournaledDB.addBalance
  rw [hopen]
  dsimp only
  by_cases hzero : amount = 0
  · rw [if_pos hzero]
    by_cases hempty : obj.Empty c
    · rw [if_pos hempty]
      have htouch := h.undoes.trans_none (undoes_touch j₁ addr)
      by_cases haddr : addr = ripemd
      · rw [if_pos haddr]
        subst haddr
        exact ⟨_, htouch.trans_none (undoes_withState _ (cleared_addDirty_ripemd _))⟩
      · rw [if_neg haddr]
        exact ⟨_, htouch⟩
    · rw [if_neg hempty]
      exact ⟨es, h.undoes⟩
  · rw [if_neg hzero]
    rcases undoes_setBalance c j₁ addr (obj.data.balance + amount) with ⟨es', h'⟩
    exact ⟨_, h.undoes.trans_none h'⟩

theorem undoes_subBalance (c : Crypto) (j : JournaledDB) (addr : Address) (amount : Int) :
    ∃ es, Undoes c Marks.none es j (JournaledDB.subBalance c j addr amount) := by
  rcases opened_getOrNewStateObject c j addr with ⟨obj, j₁, es, hopen, h⟩
  unfold JournaledDB.subBalance
  rw [hopen]
  dsimp only
  by_cases hzero : amount = 0
  · rw [if_pos hzero]
    exact ⟨es, h.undoes⟩
  · rw [if_neg hzero]
    rcases undoes_setBalance c j₁ addr (obj.data.balance - amount) with ⟨es', h'⟩
    exact ⟨_, h.undoes.trans_none h'⟩

theorem seen_getCommittedState (c : Crypto) (db : Backend) (gone : Bool) (addr : Address)
    (obj : LiveObject) (key : Hash) :
    (obj.getCommittedState db gone addr key).2.seen c db gone addr = obj.seen c db gone addr ∧
      (obj.getCommittedState db gone addr key).2.deleted = obj.deleted := by
  unfold LiveObject.getCommittedState
  split
  · exact ⟨rfl, rfl⟩
  cases obj.pendingStorage.get key with
  | some value => exact ⟨rfl, rfl⟩
  | none =>
    cases horigin : obj.originStorage.get key with
    | some value => exact ⟨rfl, rfl⟩
    | none =>
      cases hslot : obj.readSlot db gone addr key with
      | none => exact ⟨rfl, rfl⟩
      | some value =>
        refine ⟨?_, rfl⟩
        have hcommitted : ({ obj with originStorage := obj.originStorage.put key value } :
            LiveObject).committedValue db gone addr = obj.committedValue db gone addr := by
          funext k
          unfold LiveObject.committedValue
          rw [AssocMap.get_put]
          by_cases hk : key = k
          · subst hk
            rw [if_pos rfl, Option.getD_some, horigin, hslot]
            rfl
          · rw [if_neg hk]
            rfl
        have hstate : ({ obj with originStorage := obj.originStorage.put key value } :
            LiveObject).stateValue db gone addr = obj.stateValue db gone addr := by
          funext k
          unfold LiveObject.stateValue
          rw [hcommitted]
        unfold LiveObject.seen
        rw [hcommitted, hstate]
        rfl

theorem seen_getState (c : Crypto) (db : Backend) (gone : Bool) (addr : Address)
    (obj : LiveObject) (key : Hash) :
    (obj.getState db gone addr key).2.seen c db gone addr = obj.seen c db gone addr ∧
      (obj.getState db gone addr key).2.deleted = obj.deleted := by
  unfold LiveObject.getState
  split
  · exact ⟨rfl, rfl⟩
  cases obj.dirtyStorage.get key with
  | some value => exact ⟨rfl, rfl⟩
  | none => exact seen_getCommittedState c db gone addr obj key

theorem seen_getCode (c : Crypto) (db : Backend) (gone : Bool) (addr : Address) (obj : LiveObject) :
    (obj.getCode c db addr).2.seen c db gone addr = obj.seen c db gone addr := by
  unfold LiveObject.getCode
  cases hcode : obj.code with
  | some code => rfl
  | none =>
    by_cases h : obj.data.codeHash = c.keccak256 []
    · rw [if_pos h]
    · rw [if_neg h]
      unfold LiveObject.seen LiveObject.codeValue
      rw [hcode, Option.getD_none, if_neg h]
      rfl

theorem undoes_recache {obj' : LiveObject} (hget : j.state.stateObjects.get addr = some obj)
    (hseen : obj'.seen c j.state.db (j.state.destructed addr) addr =
      obj.seen c j.state.db (j.state.destructed addr) addr) :
    Undoes c Marks.none [] j (j.setStateObject addr obj') := by
  refine undoes_withState j (cleared_of_objects (fun x => ?_) rfl)
  rw [LiveState.object_setStateObject, Marks.none, map_clear_nil]
  by_cases hx : addr = x
  · rw [if_pos hx, ← hx, LiveState.object_of_get hget, hseen]
  · rw [if_neg hx]

theorem undoes_setState (c : Crypto) (j : JournaledDB) (addr : Address) (key value : Hash) :
    ∃ es, Undoes c Marks.none es j (JournaledDB.setState c j addr key value) := by
  rcases opened_getOrNewStateObject c j addr with ⟨obj, j₁, es, hopen, h⟩
  have hseen := seen_getState c j₁.state.db (j₁.state.destructed addr) addr obj key
  unfold JournaledDB.setState
  rw [hopen]
  dsimp only
  cases hreal : obj.fakeStorage with
  | some fake =>
    -- Fake storage is not looked at.
    refine ⟨_, h.undoes.trans_none (undoes_recache h.get ?_)⟩
    unfold LiveObject.seen
    rw [hreal]
    rfl
  | none =>
    by_cases hsame : (obj.getState j₁.state.db (j₁.state.destructed addr) addr key).1 = value
    · rw [if_pos hsame]
      exact ⟨_, h.undoes.trans_none (undoes_recache h.get hseen.1)⟩
    · rw [if_neg hsame]
      refine ⟨_, h.undoes.trans_none (undoes_change (((obj.getState j₁.state.db
        (j₁.state.destructed addr) addr key).2.setState key value).setState key (obj.getState
          j₁.state.db (j₁.state.destructed addr) addr key).1) h.get rfl (fun s hget => ?_) ?_
            (fun _ _ => rfl))⟩
      · exact alter_of_get hget (hseen.2.trans h.live) rfl
      · -- Both writes are to one slot, and the second puts back what was read.
        rw [seen_setState, seen_setState, hseen.1, LiveObject.getState_fst _ _ _ _ _ hreal]
        exact Seen.write_write key value _

theorem undoes_readState (c : Crypto) (j : JournaledDB) (addr : Address) (key : Hash) :
    Undoes c Marks.none [] j (j.readState addr key) := by
  have hload := undoes_withState j (cleared_getDeletedStateObject c j.state addr)
  unfold JournaledDB.readState
  rcases getStateObject_cases j.state addr with ⟨-, hpair⟩ | ⟨obj, -, -, hget, hpair⟩
  · rw [hpair]
    exact hload
  · rw [hpair]
    exact hload.trans_none (undoes_recache hget (seen_getState ..).1)

theorem undoes_readCode (c : Crypto) (j : JournaledDB) (addr : Address) :
    Undoes c Marks.none [] j (j.readCode c addr) := by
  have hload := undoes_withState j (cleared_getDeletedStateObject c j.state addr)
  unfold JournaledDB.readCode
  rcases getStateObject_cases j.state addr with ⟨-, hpair⟩ | ⟨obj, -, -, hget, hpair⟩
  · rw [hpair]
    exact hload
  · rw [hpair]
    exact hload.trans_none (undoes_recache hget (seen_getCode ..))

theorem undoes_createAccount (c : Crypto) (j : JournaledDB) (addr : Address) :
    ∃ es, Undoes c Marks.none es j (JournaledDB.createAccount c j addr) := by
  rcases createObject_cases c j addr with ⟨-, -, e, -, hnew, hkept⟩
  unfold JournaledDB.createAccount
  cases hcreate : JournaledDB.createObject c j addr with
  | mk j₁ prev =>
    rw [hcreate] at hnew hkept
    cases prev with
    | none => exact ⟨_, hnew⟩
    | some prev => exact ⟨_, hkept _⟩

theorem undoes_suicide (c : Crypto) (j : JournaledDB) (addr : Address) :
    ∃ es, Undoes c Marks.none es j (j.suicide addr) := by
  have hload := undoes_withState j (cleared_getDeletedStateObject c j.state addr)
  unfold JournaledDB.suicide
  rcases getStateObject_cases j.state addr with ⟨-, hpair⟩ | ⟨obj, -, hlive, hget, hpair⟩
  · rw [hpair]
    exact ⟨_, hload⟩
  · rw [hpair]
    refine ⟨_, hload.trans_none (undoes_change obj hget rfl (fun s hlast => ?_) rfl
      (fun _ _ => rfl))⟩
    refine congrArg Except.ok ?_
    unfold JournalEntry.suicideBack
    rw [getStateObject_of_get hlast hlive]
    rfl

theorem cleared_of_fields (hdb : t.db = s.db)
    (hobjects : t.stateObjects = s.stateObjects) (hgone : t.snapDestructs = s.snapDestructs)
    (hdirties : t.dirties = s.dirties) (hrefund : t.refund = s.refund) (hthash : t.thash = s.thash)
    (htxIndex : t.txIndex = s.txIndex) (hlogs : ∀ h, (t.logs.get h).getD [] = (s.logs.get h).getD [])
    (hlogSize : t.logSize = s.logSize) (hpreimages : ∀ h, t.preimages.get h = s.preimages.get h)
    (haddresses : ∀ x, t.accessList.addresses.get x = s.accessList.addresses.get x)
    (hslots : t.accessList.slots = s.accessList.slots) : Cleared c Marks.none s t := by
  have hdestructed (x : Address) : t.destructed x = s.destructed x := by
    unfold LiveState.destructed
    rw [hgone]
  refine ⟨hdb, fun x => ?_, hdestructed, hrefund, hthash, htxIndex, hlogs, hlogSize, hpreimages,
    haddresses, hslots, fun x _ => ?_⟩
  · rw [Marks.none, map_clear_nil]
    exact LiveState.object_congr (by rw [hobjects]) hdb (hdestructed x)
  · unfold LiveState.dirtyCount
    rw [hdirties]

theorem undoes_refund (j : JournaledDB) (gas : UInt64) :
    Undoes c Marks.none [.refund j.state.refund] j
      ((j.append (.refund j.state.refund)).withState { j.state with refund := gas }) :=
  undoes_entry rfl rfl (Cleared.refl c j.state)

theorem dropLog_of_append (c : Crypto) (s : LiveState) (log : Log) :
    ∃ t, JournalEntry.dropLog s.thash { s with
        logs := s.logs.put s.thash ((s.logs.get s.thash).getD [] ++ [log])
        logSize := s.logSize + 1 } = .ok t ∧ Cleared c Marks.none s t := by
  unfold JournalEntry.dropLog
  dsimp only
  rw [AssocMap.get_put_self, Option.getD_some, List.length_append, List.length_singleton,
    if_neg (Nat.succ_ne_zero _), List.dropLast_concat]
  refine ⟨_, rfl, cleared_of_fields rfl rfl rfl rfl rfl rfl rfl (fun h => ?_) rfl (fun _ => rfl)
    (fun _ => rfl) rfl⟩
  dsimp only
  by_cases hone : ((s.logs.get s.thash).getD []).length + 1 = 1
  · rw [if_pos hone, AssocMap.get_erase, AssocMap.get_put]
    by_cases hh : s.thash = h
    · rw [if_pos hh, ← hh, List.length_eq_zero_iff.1 (Nat.succ.inj hone)]
      rfl
    · rw [if_neg hh, if_neg hh]
  · rw [if_neg hone, AssocMap.get_put, AssocMap.get_put]
    by_cases hh : s.thash = h
    · rw [if_pos hh, hh, Option.getD_some]
    · rw [if_neg hh, if_neg hh]

theorem undoes_addLog (c : Crypto) (j : JournaledDB) (log : Log) :
    ∃ es, Undoes c Marks.none es j (j.addLog log) := by
  rcases dropLog_of_append c j.state { log with
    txHash := j.state.thash, txIndex := j.state.txIndex, index := j.state.logSize } with
    ⟨t, ht, hback⟩
  exact ⟨[.addLog j.state.thash], undoes_entry rfl ht hback⟩

theorem undoes_addPreimage (c : Crypto) (j : JournaledDB) (hash : Hash) (preimage : List UInt8) :
    ∃ es, Undoes c Marks.none es j (j.addPreimage hash preimage) := by
  unfold JournaledDB.addPreimage
  cases hget : j.state.preimages.get hash with
  | some old => exact ⟨[], Undoes.refl c j⟩
  | none =>
    refine ⟨[.addPreimage hash], undoes_entry rfl rfl ?_⟩
    refine cleared_of_fields rfl rfl rfl rfl rfl rfl rfl (fun _ => rfl) rfl (fun h => ?_)
      (fun _ => rfl) rfl
    refine (AssocMap.get_erase ..).trans ?_
    by_cases hh : hash = h
    · rw [if_pos hh, ← hh, hget]
    · rw [if_neg hh]
      exact AssocMap.get_put_ne _ _ hh

theorem undoes_accessList {al al' : AccessList} (he : e.dirtied = none)
    (hundo : e.undo { j.state with accessList := al } = .ok { j.state with accessList := al' })
    (haddresses : ∀ x, al'.addresses.get x = j.state.accessList.addresses.get x)
    (hslots : al'.slots = j.state.accessList.slots) :
    Undoes c Marks.none [e] j ((j.withState { j.state with accessList := al }).append e) := by
  refine ⟨rfl, rfl, rfl, { j.state with accessList := al' }, ?_, ?_⟩
  · have hstate : ((j.withState { j.state with accessList := al }).append e).state =
        { j.state with accessList := al } := by
      unfold JournaledDB.append
      rw [he]
      rfl
    rw [unwind_singleton, hstate]
    exact revert_of_not_dirtied he hundo
  · exact cleared_of_fields rfl rfl rfl rfl rfl rfl rfl (fun _ => rfl) rfl (fun _ => rfl)
      haddresses hslots

theorem undoes_addAddress (hget : j.state.accessList.addresses.get addr = none) :
    Undoes c Marks.none [.accessListAddAccount addr] j
      ((j.withState { j.state with accessList := { j.state.accessList with
        addresses := j.state.accessList.addresses.put addr none } }).append
          (.accessListAddAccount addr)) := by
  refine undoes_accessList rfl rfl (fun x => ?_) rfl
  refine (AssocMap.get_erase ..).trans ?_
  by_cases hx : addr = x
  · rw [if_pos hx, ← hx, hget]
  · rw [if_neg hx]
    exact AssocMap.get_put_ne _ _ hx

theorem undoes_addAddressToAccessList (c : Crypto) (j : JournaledDB) (addr : Address) :
    ∃ es, Undoes c Marks.none es j (j.addAddressToAccessList addr) := by
  unfold JournaledDB.addAddressToAccessList AccessList.addAddress
  cases hget : j.state.accessList.addresses.get addr with
  | some idx => exact ⟨[], Undoes.refl c j⟩
  | none => exact ⟨_, undoes_addAddress hget⟩

theorem deleteSlot_first {addresses : AssocMap Address (Option Nat)} {slots : List SlotSet}
    {slot : Hash} (hget : addresses.get addr = some (some slots.length)) :
    AccessList.deleteSlot { addresses := addresses
                            slots := slots ++ [⟨[slot], List.cons_ne_nil _ _⟩] } addr slot =
      .ok { addresses := addresses.put addr none, slots := slots } := by
  have hrest : [slot].filter (fun s => s ≠ slot) = [] := by
    rw [List.filter_cons, if_neg (by rw [decide_eq_true_iff]; exact not_not.2 rfl),
      List.filter_nil]
  unfold AccessList.deleteSlot
  dsimp only
  rw [hget]
  dsimp only
  rw [List.getElem?_concat_length]
  dsimp only
  rw [dif_pos hrest, List.take_left]

theorem deleteSlot_added {al : AccessList} {idx : Nat} {slotmap : SlotSet} {slot : Hash}
    (hget : al.addresses.get addr = some (some idx)) (hmap : al.slots[idx]? = some slotmap)
    (hnew : slot ∉ slotmap.val) : AccessList.deleteSlot { al with
      slots := al.slots.set idx ⟨slot :: slotmap.val, List.cons_ne_nil _ _⟩ } addr slot = .ok al := by
  rcases List.getElem?_eq_some_iff.1 hmap with ⟨hlt, hval⟩
  have hrest : (slot :: slotmap.val).filter (fun s => s ≠ slot) = slotmap.val := by
    rw [List.filter_cons, if_neg (by rw [decide_eq_true_iff]; exact not_not.2 rfl)]
    refine List.filter_eq_self.2 (fun s hs => ?_)
    exact decide_eq_true (fun heq => hnew (heq ▸ hs))
  unfold AccessList.deleteSlot
  dsimp only
  rw [hget]
  dsimp only
  rw [List.getElem?_set_self hlt]
  dsimp only
  rw [dif_neg (by rw [hrest]; exact slotmap.property), List.set_set]
  have hback : (⟨(slot :: slotmap.val).filter (fun s => s ≠ slot),
      by rw [hrest]; exact slotmap.property⟩ : SlotSet) = al.slots[idx] :=
    Subtype.ext (hrest.trans (congrArg Subtype.val hval.symm))
  rw [hback, List.set_getElem_self]

theorem undoes_addFirstSlot {slot : Hash} {addresses : AssocMap Address (Option Nat)}
    (hget : j.state.accessList.addresses.get addr = some none)
    (haddresses : ∀ x, addr ≠ x → addresses.get x = j.state.accessList.addresses.get x) :
    Undoes c Marks.none [.accessListAddSlot addr slot] j
      ((j.withState { j.state with accessList :=
        { addresses := addresses.put addr (some j.state.accessList.slots.length)
          slots := j.state.accessList.slots ++ [⟨[slot], List.cons_ne_nil _ _⟩] } }).append
        (.accessListAddSlot addr slot)) := by
  have hdelete := @deleteSlot_first addr _ j.state.accessList.slots slot
    (AssocMap.get_put_self addresses addr (some j.state.accessList.slots.length))
  refine undoes_accessList rfl (bind_eq_ok.2 ⟨_, hdelete, rfl⟩) (fun x => ?_) rfl
  rw [AssocMap.get_put, AssocMap.get_put]
  by_cases hx : addr = x
  · rw [if_pos hx, ← hx, hget]
  · rw [if_neg hx, if_neg hx, haddresses x hx]

theorem undoes_addSlotToAccessList {slot : Hash} (h : j.addSlotToAccessList addr slot = .ok j₁) :
    ∃ es, Undoes c Marks.none es j j₁ := by
  rcases bind_eq_ok.1 h with ⟨⟨al, addrMod, slotMod⟩, hadd, hj⟩
  unfold AccessList.addSlot at hadd
  cases hget : j.state.accessList.addresses.get addr with
  | none =>
    rw [hget] at hadd
    cases hadd
    cases hj
    -- Two entries: the address is added, and then its first slot.
    exact ⟨_, (undoes_addAddress hget).trans_none (undoes_addFirstSlot (AssocMap.get_put_self ..)
      (fun x hx => (AssocMap.get_put_ne _ _ hx).symm))⟩
  | some idx =>
    rw [hget] at hadd
    cases idx with
    | none =>
      cases hadd
      cases hj
      exact ⟨_, undoes_addFirstSlot hget (fun _ _ => rfl)⟩
    | some idx =>
      dsimp only at hadd
      cases hmap : j.state.accessList.slots[idx]? with
      | none =>
        rw [hmap] at hadd
        cases hadd
      | some slotmap =>
        rw [hmap] at hadd
        dsimp only at hadd
        by_cases hmem : slot ∈ slotmap.val
        · rw [if_pos hmem] at hadd
          cases hadd
          cases hj
          exact ⟨[], Undoes.refl c j⟩
        · rw [if_neg hmem] at hadd
          cases hadd
          cases hj
          exact ⟨_, undoes_accessList rfl (bind_eq_ok.2
            ⟨_, deleteSlot_added hget hmap hmem, rfl⟩) (fun _ => rfl) rfl⟩

def Marks.single (addr : Address) (i : Nat) : Marks := fun x => if addr = x then [i] else []

theorem setOTSBitfield_back {obj o : LiveObject} {i : Nat} {revert : Bool}
    (h : obj.setOTSBitfield addr i revert = .ok o) :
    o.deleted = obj.deleted ∧ o.setOTSBitfield addr i true = .ok { obj with data := { obj.data with
      otsBitfield := clearBit addr obj.data.otsBitfield i } } := by
  rcases setOTSBitfield_eq_ok.1 h with ⟨hlt, rfl⟩
  -- The first write has left a field, so the second does not make one.
  have hfield (v : UInt8) : otsField addr ((otsField addr obj.data.otsBitfield).modify (i / 8)
      (fun page => setByte page (i % 8) v)) = (otsField addr obj.data.otsBitfield).modify (i / 8)
        (fun page => setByte page (i % 8) v) := by
    refine otsField_of_ne_nil (fun hnil => otsField_ne_nil addr obj.data.otsBitfield ?_)
    have hlength := congrArg List.length hnil
    rw [List.length_modify] at hlength
    exact List.length_eq_zero_iff.1 hlength
  refine ⟨rfl, setOTSBitfield_eq_ok.2 ?_⟩
  rw [hfield]
  refine ⟨by rw [List.length_modify]; exact hlt, ?_⟩
  rw [List.modify_modify_eq]
  unfold clearBit
  have hbyte : (fun page : List.Vector UInt8 8 => setByte page (i % 8) 0) =
      (fun page => setByte page (i % 8) (if true = true then 0 else 1)) ∘
        (fun page => setByte page (i % 8) (if revert = true then 0 else 1)) := by
    funext page
    exact Subtype.ext (List.set_set ..).symm
  rw [hbyte]

/-- Taking back a write to a field clears the byte, unless the account is taken away too. -/
theorem undoes_setOTSBitfield {i : Nat} {revert : Bool}
    (h : JournaledDB.setOTSBitfield c j addr i revert = .ok j₁) :
    ∃ es, Undoes c (if j.state.exist addr then Marks.single addr i else Marks.none) es j j₁ := by
  rcases opened_getOrNewStateObject c j addr with ⟨obj, j₂, es, hopen, hobj⟩
  unfold JournaledDB.setOTSBitfield at h
  rw [hopen] at h
  rcases bind_eq_ok.1 h with ⟨o, ho, hj⟩
  cases hj
  rcases setOTSBitfield_back ho with ⟨hdeleted, hback⟩
  have hmarks (x : Address) (hx : addr ≠ x) : Marks.single addr i x = [] := if_neg hx
  have hchange : Undoes c (Marks.single addr i) [.otsBitfield addr i] j₂
      ((j₂.append (.otsBitfield addr i)).setStateObject addr o) := by
    refine undoes_change { obj with data := { obj.data with
      otsBitfield := clearBit addr obj.data.otsBitfield i } } hobj.get rfl (fun s hget => ?_) ?_
        hmarks
    · exact alter_of_get hget (hdeleted.trans hobj.live) hback
    · have hself : Marks.single addr i addr = [i] := if_pos rfl
      rw [hself]
      rfl
  refine ⟨es ++ [.otsBitfield addr i], ?_⟩
  have htrans := hobj.undoes.trans hchange
  rcases hobj.made with ⟨hexist, rfl⟩ | ⟨hexist, e, he, hrecreated⟩
  · rw [if_pos hexist]
    exact htrans
  · -- The account was made by the call itself.
    have hnone : (fun x => Marks.none x ++ (Marks.single addr i).afterAll es x) = Marks.none := by
      funext x
      by_cases hx : addr = x
      · subst hx
        exact afterAll_of_mem ⟨e, he, hrecreated⟩
      · exact afterAll_subset (hmarks x hx)
    rw [hexist, if_neg Bool.false_ne_true]
    rw [hnone] at htrans
    exact htrans

def Op.leaves (j : JournaledDB) : Op → Marks
  | .setOTSBitfield addr i _ => if j.state.exist addr then Marks.single addr i else Marks.none
  | _ => Marks.none

theorem undoes_apply {op : Op} (h : JournaledDB.apply c j op = .ok j₁) :
    (∃ es, Undoes c (op.leaves j) es j j₁) ∨ (op = .snapshot ∧ j₁ = (UndoLog.Journal.snapshot j).2) ∨
      ∃ id, op = .revertToSnapshot id ∧ JournaledDB.revertToSnapshot j id = .ok j₁ := by
  cases op with
  | readState addr key =>
    cases h
    exact .inl ⟨_, undoes_readState c j addr key⟩
  | readCode addr =>
    cases h
    exact .inl ⟨_, undoes_readCode c j addr⟩
  | getOrNewStateObject addr =>
    rcases opened_getOrNewStateObject c j addr with ⟨obj, j₂, es, hopen, hobj⟩
    have hsnd : (JournaledDB.getOrNewStateObject c j addr).2 = j₂ := congrArg Prod.snd hopen
    cases h
    rw [hsnd]
    exact .inl ⟨es, hobj.undoes⟩
  | setBalance addr amount =>
    cases h
    exact .inl (undoes_setBalance c j addr amount)
  | addBalance addr amount =>
    cases h
    exact .inl (undoes_addBalance c j addr amount)
  | subBalance addr amount =>
    cases h
    exact .inl (undoes_subBalance c j addr amount)
  | setStakeBalance addr amount =>
    cases h
    exact .inl (undoes_write (fun _ => rfl) (fun _ => rfl) (fun _ => rfl) (fun _ _ => rfl))
  | setPendingStakeBalance addr amount =>
    cases h
    exact .inl (undoes_write (fun _ => rfl) (fun _ => rfl) (fun _ => rfl) (fun _ _ => rfl))
  | setNonce addr nonce =>
    cases h
    exact .inl (undoes_write (fun _ => rfl) (fun _ => rfl) (fun _ => rfl) (fun _ _ => rfl))
  | setCode addr code =>
    cases h
    exact .inl (undoes_setCode c j addr code)
  | setState addr key value =>
    cases h
    exact .inl (undoes_setState c j addr key value)
  | setOTSBitfield addr i revert => exact .inl (undoes_setOTSBitfield h)
  | createAccount addr =>
    cases h
    exact .inl (undoes_createAccount c j addr)
  | suicide addr =>
    cases h
    exact .inl (undoes_suicide c j addr)
  | addRefund gas =>
    cases h
    exact .inl ⟨_, undoes_refund j _⟩
  | subRefund gas =>
    have hsub : j.subRefund gas = .ok j₁ := h
    unfold JournaledDB.subRefund at hsub
    by_cases hlt : (j.append (.refund j.state.refund)).state.refund < gas
    · rw [if_pos hlt] at hsub
      cases hsub
    · rw [if_neg hlt] at hsub
      cases hsub
      exact .inl ⟨_, undoes_refund j _⟩
  | addLog log =>
    cases h
    exact .inl (undoes_addLog c j log)
  | addPreimage hash preimage =>
    cases h
    exact .inl (undoes_addPreimage c j hash preimage)
  | addAddressToAccessList addr =>
    cases h
    exact .inl (undoes_addAddressToAccessList c j addr)
  | addSlotToAccessList addr slot => exact .inl (undoes_addSlotToAccessList h)
  | snapshot =>
    cases h
    exact .inr (.inl ⟨rfl, rfl⟩)
  | revertToSnapshot id => exact .inr (.inr ⟨id, rfl, h⟩)

end Undoing

end Zond
