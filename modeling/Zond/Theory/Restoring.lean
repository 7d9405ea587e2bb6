import Mathlib.Data.List.Induction
import Zond.Core.Producer
import Zond.Theory.Undoing

/-!
# Going Back to a Snapshot

The marks of a run are those of its writes to accounts that are at the call still the
objects of the snapshot. Snapshots taken in between and gone back to leave the marks as
they are: going back has cleared the bytes then, and does not clear them again.

## Main definitions

* `Tracked`: What a sequence of operations keeps, so that its snapshot can be gone back to.

## Theorems

* `revert_restores`: Every getter answers as it did at the snapshot.
* `revert_keeps_otsBitfield`: When this is so for the field of used one-time keys.
-/

namespace Zond

open Outcome UndoLog

section Kept

variable {c : Crypto} {s t u : LiveState} {x : Address}

theorem exist_iff (c : Crypto) (s : LiveState) (x : Address) :
    s.exist x = true ↔ ∃ a, s.object c x = some a ∧ a.deleted = false := by
  unfold LiveState.exist LiveState.found LiveState.getStateObject LiveState.object
  dsimp only
  cases (s.getDeletedStateObject x).1 with
  | none =>
    refine ⟨fun h => (nomatch h), fun ⟨a, ha, _⟩ => ?_⟩
    cases ha
  | some obj =>
    rw [Option.map_some, Option.filter_some]
    cases hdeleted : obj.deleted with
    | true =>
      refine ⟨fun h => (nomatch h), fun ⟨a, ha, hlive⟩ => ?_⟩
      cases ha
      exact absurd (hdeleted.symm.trans hlive) Bool.noConfusion
    | false => exact ⟨fun _ => ⟨_, rfl, hdeleted⟩, fun _ => rfl⟩

def LiveState.gone (c : Crypto) (s : LiveState) (x : Address) : Option Bool :=
  (s.object c x).map Seen.deleted

theorem gone_congr (h : t.object c x = s.object c x) : t.gone c x = s.gone c x :=
  congrArg (Option.map Seen.deleted) h

theorem Cleared.gone {marks : Marks} (h : Cleared c marks s t) (x : Address) :
    t.gone c x = s.gone c x := by
  unfold LiveState.gone
  rw [h.object, Option.map_map]
  rfl

theorem exist_iff_gone (c : Crypto) (s : LiveState) (x : Address) :
    s.exist x = true ↔ s.gone c x = some false := by
  rw [exist_iff c, LiveState.gone, Option.map_eq_some_iff]

theorem gone_setStateObject {a : Address} {obj o : LiveObject}
    (hget : s.stateObjects.get a = some obj) (ho : o.deleted = obj.deleted) (x : Address) :
    (s.setStateObject a o).gone c x = s.gone c x := by
  unfold LiveState.gone
  rw [LiveState.object_setStateObject]
  by_cases hx : a = x
  · rw [if_pos hx, ← hx, LiveState.object_of_get hget, Option.map_some, Option.map_some]
    exact congrArg some ho
  · rw [if_neg hx]

theorem gone_alter {a : Address} {f : LiveObject → Go LiveObject}
    (hf : ∀ {obj o}, f obj = .ok o → o.deleted = obj.deleted)
    (h : JournalEntry.alter a f s = .ok u) (x : Address) : u.gone c x = s.gone c x := by
  have hload := (cleared_getDeletedStateObject c s a).gone x
  unfold JournalEntry.alter at h
  rcases getStateObject_cases s a with ⟨-, hpair⟩ | ⟨obj, -, -, hget, hpair⟩
  · rw [hpair] at h
    cases h
  · rw [hpair] at h
    rcases bind_eq_ok.1 h with ⟨o, ho, hput⟩
    cases hput
    rw [gone_setStateObject hget (hf ho), hload]

theorem gone_revert {e : JournalEntry} (he : e.recreated ≠ some x) (h : e.revert s = .ok u) :
    u.gone c x = s.gone c x := by
  rcases bind_eq_ok.1 h with ⟨t, ht, hdrop⟩
  cases hdrop
  have hdirty : (e.dirtied.elim t t.dropDirty).gone c x = t.gone c x := by
    cases e.dirtied with
    | none => rfl
    | some a => exact gone_congr (LiveState.object_congr rfl rfl rfl)
  rw [hdirty]
  cases e with
  | createObject a =>
    cases ht
    have ha : a ≠ x := fun heq => he (congrArg some heq)
    refine gone_congr ?_
    rw [object_eraseObject, if_neg ha]
  | resetObject a prev prevdestruct =>
    cases ht
    have ha : a ≠ x := fun heq => he (congrArg some heq)
    refine gone_congr ?_
    have hput : (s.setStateObject a prev).object c x = s.object c x := by
      rw [LiveState.object_setStateObject, if_neg ha]
    unfold JournalEntry.resetBack
    dsimp only
    split
    · rw [object_undestruct_ne c _ ha, hput]
    · exact hput
  | suicide a prev prevbalance =>
    cases ht
    have hload := (cleared_getDeletedStateObject c s a).gone x
    unfold JournalEntry.suicideBack
    rcases getStateObject_cases s a with ⟨-, hpair⟩ | ⟨obj, -, -, hget, hpair⟩
    · rw [hpair]
      exact hload
    · rw [hpair]
      refine Eq.trans (gone_setStateObject hget ?_ x) hload
      rfl
  | balance | stakeBalance | pendingStakeBalance | nonce =>
      exact gone_alter (fun ho => by cases ho; rfl) ht x
  | otsBitfield a i =>
    exact gone_alter (fun ho => by rw [(setOTSBitfield_eq_ok.1 ho).2]) ht x
  | storage | code => exact gone_alter (fun ho => by cases ho; rfl) ht x
  | refund prev =>
    cases ht
    exact gone_congr (LiveState.object_congr rfl rfl rfl)
  | addLog txhash =>
    have hlog : JournalEntry.dropLog txhash s = .ok t := ht
    unfold JournalEntry.dropLog at hlog
    dsimp only at hlog
    split at hlog
    · cases hlog
    · cases hlog
      exact gone_congr (LiveState.object_congr rfl rfl rfl)
  | addPreimage hash =>
    cases ht
    exact gone_congr (LiveState.object_congr rfl rfl rfl)
  | touch a =>
    cases ht
    rfl
  | accessListAddAccount a =>
    cases ht
    exact gone_congr (LiveState.object_congr rfl rfl rfl)
  | accessListAddSlot a slot =>
    rcases bind_eq_ok.1 ht with ⟨al, -, hput⟩
    cases hput
    exact gone_congr (LiveState.object_congr rfl rfl rfl)

theorem gone_unwind {es : List JournalEntry} (hes : ∀ e ∈ es, e.recreated ≠ some x)
    (h : unwind JournalEntry.revert es s = .ok u) : u.gone c x = s.gone c x := by
  induction es generalizing u with
  | nil =>
    cases h
    rfl
  | cons e es ih =>
    rw [unwind_cons] at h
    rcases bind_eq_ok.1 h with ⟨t, ht, hlast⟩
    rw [gone_revert (hes e List.mem_cons_self) hlast]
    exact ih (fun e he => hes e (List.mem_cons_of_mem _ he)) ht

end Kept

section Runs

variable {c : Crypto} {j₀ j j' : JournaledDB} {ops : List Op} {op : Op} {marks : Marks}
variable {x : Address} {i : Nat}

/-- The object of the account is there, and it is that of the snapshot. -/
def StillStands (j₀ j : JournaledDB) (x : Address) : Prop :=
  j.state.exist x = true ∧ ∀ e ∈ j.entries.drop j₀.entries.length, e.recreated ≠ some x

/-- In a run from the snapshot there is a write to the field of an account, which is at the
    call still the object of the snapshot. -/
def Wrote (c : Crypto) (j₀ : JournaledDB) (ops : List Op) (x : Address) (i : Nat) : Prop :=
  ∃ before revert after j, ops = before ++ .setOTSBitfield x i revert :: after ∧
    JournaledDB.run c before (UndoLog.Journal.snapshot j₀).2 = .ok j ∧ StillStands j₀ j x

theorem not_wrote_nil : ¬ Wrote c j₀ [] x i := by
  rintro ⟨before, revert, after, j, hops, -⟩
  cases before <;> cases hops

theorem wrote_concat (hrun : JournaledDB.run c ops (UndoLog.Journal.snapshot j₀).2 = .ok j) :
    Wrote c j₀ (ops ++ [op]) x i ↔
      Wrote c j₀ ops x i ∨ (∃ revert, op = .setOTSBitfield x i revert) ∧ StillStands j₀ j x := by
  refine ⟨?_, ?_⟩
  · rintro ⟨before, revert, after, k, hops, hbefore, hstanding⟩
    -- The call is the last operation or one of those before.
    rcases List.eq_nil_or_concat after with rfl | ⟨after, last, rfl⟩
    · rcases List.append_inj' hops rfl with ⟨rfl, hop⟩
      cases hop
      cases hrun.symm.trans hbefore
      exact .inr ⟨⟨revert, rfl⟩, hstanding⟩
    · rw [List.concat_eq_append, ← List.cons_append, ← List.append_assoc] at hops
      rcases List.append_inj' hops rfl with ⟨rfl, -⟩
      exact .inl ⟨before, revert, after, k, rfl, hbefore, hstanding⟩
  · rintro (⟨before, revert, after, k, rfl, hbefore, hstanding⟩ | ⟨⟨revert, rfl⟩, hstanding⟩)
    · refine ⟨before, revert, after ++ [op], k, ?_, hbefore, hstanding⟩
      rw [List.append_assoc, List.cons_append]
    · exact ⟨ops, revert, [], j, rfl, hrun, hstanding⟩

theorem mem_leaves_iff : i ∈ (op.leaves j).afterAll (j.entries.drop j₀.entries.length) x ↔
      (∃ revert, op = .setOTSBitfield x i revert) ∧ StillStands j₀ j x := by
  by_cases hes : ∀ e ∈ j.entries.drop j₀.entries.length, e.recreated ≠ some x
  · rw [afterAll_of_not_mem hes]
    unfold Op.leaves StillStands
    cases op with
    | setOTSBitfield a k revert =>
      dsimp only
      by_cases hexist : j.state.exist a = true
      · rw [if_pos hexist, Marks.single]
        by_cases hx : a = x
        · subst hx
          rw [if_pos rfl, List.mem_singleton]
          exact ⟨fun h => ⟨⟨revert, by rw [h]⟩, hexist, hes⟩, fun ⟨⟨r, hr⟩, _⟩ => by cases hr; rfl⟩
        · rw [if_neg hx]
          exact ⟨fun h => (nomatch h), fun ⟨⟨r, hr⟩, _⟩ => absurd (by cases hr; rfl) hx⟩
      · rw [if_neg hexist]
        refine ⟨fun h => (nomatch h), fun ⟨⟨r, hr⟩, hx, _⟩ => ?_⟩
        cases hr
        exact absurd hx hexist
    | _ => exact ⟨fun h => (nomatch h), fun ⟨⟨_, hr⟩, _⟩ => (nomatch hr)⟩
  · have hmem : ∃ e ∈ j.entries.drop j₀.entries.length, e.recreated = some x := by
      by_contra hnone
      exact hes (fun e he hx => hnone ⟨e, he, hx⟩)
    rw [afterAll_of_mem hmem]
    exact ⟨fun h => (nomatch h), fun h => absurd h.2.2 hes⟩

/-- What a run from a snapshot keeps: going back leads to the state of the snapshot with the
    bytes of some marks cleared, which are those of the writes of the run. -/
structure Tracked (c : Crypto) (j₀ : JournaledDB) (ops : List Op) (marks : Marks)
    (j : JournaledDB) : Prop where
  since : Journal.Since JournalEntry.revert j₀ (Cleared c marks j₀.state) j
  marked : ∀ x i, i ∈ marks x ↔ Wrote c j₀ ops x i
  exist : j.Valid j₀.nextRevisionId → ∀ x i, i ∈ marks x → j₀.state.exist x = true

theorem Tracked.exist_of_standing (h : Tracked c j₀ ops marks j)
    (hvalid : j.Valid j₀.nextRevisionId) (hx : StillStands j₀ j x) : j₀.state.exist x = true := by
  rcases h.since.unwinds hvalid with ⟨u, hu, hback⟩
  have hgone : j₀.state.gone c x = j.state.gone c x :=
    (hback.gone x).symm.trans (gone_unwind hx.2 hu)
  rw [exist_iff_gone c, hgone]
  exact (exist_iff_gone c j.state x).1 hx.1

theorem Tracked.undoes {es : List JournalEntry} (h : Tracked c j₀ ops marks j)
    (hrun : JournaledDB.run c ops (UndoLog.Journal.snapshot j₀).2 = .ok j)
    (hop : Undoes c (op.leaves j) es j j') : Tracked c j₀ (ops ++ [op])
      (fun x => marks x ++ (op.leaves j).afterAll (j.entries.drop j₀.entries.length) x) j' := by
  refine ⟨h.since.append hop.entries hop.validRevisions hop.nextRevisionId (fun u hu hback => ?_),
    fun x i => ?_, fun hvalid x i hi => ?_⟩
  · -- First the entries of the operation are taken back, then those since the snapshot.
    rcases hop.unwinds with ⟨t, ht, hrel⟩
    rcases cleared_unwind hrel hu with ⟨v, hv, hlast⟩
    refine ⟨v, ?_, hback.trans hlast⟩
    rw [unwind_append, ht, ok_bind, hv]
  · rw [List.mem_append, h.marked, mem_leaves_iff, wrote_concat hrun]
  · have hvalid' : j.Valid j₀.nextRevisionId := by
      unfold Journal.Valid at hvalid ⊢
      rw [← hop.validRevisions]
      exact hvalid
    rcases List.mem_append.1 hi with hi | hi
    · exact h.exist hvalid' x i hi
    · exact h.exist_of_standing hvalid' (mem_leaves_iff.1 hi).2

theorem wrote_concat_of_ne (hrun : JournaledDB.run c ops (UndoLog.Journal.snapshot j₀).2 = .ok j)
    (hop : ∀ revert, op ≠ .setOTSBitfield x i revert) :
    Wrote c j₀ (ops ++ [op]) x i ↔ Wrote c j₀ ops x i := by
  rw [wrote_concat hrun]
  exact ⟨fun h => h.elim id (fun ⟨⟨revert, heq⟩, _⟩ => absurd heq (hop revert)), .inl⟩

theorem tracked_step (h : Tracked c j₀ ops marks j)
    (hrun : JournaledDB.run c ops (UndoLog.Journal.snapshot j₀).2 = .ok j)
    (hop : JournaledDB.apply c j op = .ok j') : ∃ marks', Tracked c j₀ (ops ++ [op]) marks' j' := by
  rcases undoes_apply hop with ⟨es, hes⟩ | ⟨rfl, rfl⟩ | ⟨id, rfl, hrevert⟩
  · exact ⟨_, h.undoes hrun hes⟩
  · refine ⟨marks, h.since.snapshot, fun x i => ?_, fun hvalid => ?_⟩
    · rw [h.marked, wrote_concat_of_ne hrun (fun _ => Op.noConfusion)]
    · exact h.exist (Journal.Valid.of_snapshot h.since.next hvalid)
  · refine ⟨marks, h.since.revert hrevert, fun x i => ?_, fun hvalid => ?_⟩
    · rw [h.marked, wrote_concat_of_ne hrun (fun _ => Op.noConfusion)]
    · exact h.exist (hvalid.of_revert hrevert)

theorem tracked_run (hordered : j₀.Ordered)
    (hrun : JournaledDB.run c ops (UndoLog.Journal.snapshot j₀).2 = .ok j) :
    ∃ marks, Tracked c j₀ ops marks j := by
  -- The induction is on the run from its end, so that the marks grow with it.
  induction ops using List.reverseRecOn generalizing j with
  | nil =>
    cases hrun
    refine ⟨Marks.none, Journal.Since.start hordered (Cleared.refl c j₀.state), fun x i => ?_,
      fun _ x i hi => (nomatch hi)⟩
    exact ⟨fun h => (nomatch h), fun h => absurd h not_wrote_nil⟩
  | append_singleton ops op ih =>
    have hsplit : JournaledDB.run c (ops ++ [op]) (UndoLog.Journal.snapshot j₀).2 =
        JournaledDB.run c ops (UndoLog.Journal.snapshot j₀).2 >>= fun j =>
          JournaledDB.run c [op] j := List.foldlM_append
    rw [hsplit] at hrun
    rcases bind_eq_ok.1 hrun with ⟨j₁, hrun₁, hlast⟩
    rcases bind_eq_ok.1 hlast with ⟨j₂, hop, hend⟩
    cases hend
    rcases ih hrun₁ with ⟨marks, h⟩
    exact tracked_step h hrun₁ hop

end Runs

section Getters

variable {c : Crypto} {marks : Marks} {s t : LiveState} {x : Address}

theorem Cleared.found (h : Cleared c marks s t) (x : Address) :
    s.found x = none ∧ t.found x = none ∨ ∃ obj obj', s.found x = some obj ∧
      t.found x = some obj' ∧ obj'.seen c s.db (s.destructed x) x =
        (obj.seen c s.db (s.destructed x) x).clear x (marks x) :=
  h.getStateObject x

/-- Every getter answers in the second state as in the first. -/
structure Restored (c : Crypto) (s t : LiveState) : Prop where
  exist : ∀ x, t.exist x = s.exist x
  empty : ∀ x, t.empty c x = s.empty c x
  balance : ∀ x, t.getBalance x = s.getBalance x
  stakeBalance : ∀ x, t.getStakeBalance x = s.getStakeBalance x
  pendingStakeBalance : ∀ x, t.getPendingStakeBalance x = s.getPendingStakeBalance x
  nonce : ∀ x, t.getNonce x = s.getNonce x
  code : ∀ x, t.getCode c x = s.getCode c x
  codeSize : ∀ x, t.getCodeSize c x = s.getCodeSize c x
  codeHash : ∀ x, t.getCodeHash x = s.getCodeHash x
  state : ∀ x key, t.getState x key = s.getState x key
  committedState : ∀ x key, t.getCommittedState x key = s.getCommittedState x key
  suicided : ∀ x, t.hasSuicided x = s.hasSuicided x
  otsBitfield : ∀ x, t.getOTSBitfield x = s.getOTSBitfield x
  encoding : ∀ x, t.encoding x = s.encoding x
  refund : t.refund = s.refund
  logs : ∀ hash blockHash, t.getLogs hash blockHash = s.getLogs hash blockHash
  logSize : t.logSize = s.logSize
  preimages : ∀ hash, t.preimages.get hash = s.preimages.get hash
  containsAddress : ∀ x, t.accessList.containsAddress x = s.accessList.containsAddress x
  contains : ∀ x slot, t.accessList.contains x slot = s.accessList.contains x slot

theorem Cleared.reading {α : Type} (h : Cleared c Marks.none s t) (x : Address)
    (f f' : Option LiveObject → α) (hnone : f' none = f none)
    (hsome : ∀ obj obj' : LiveObject, obj'.seen c s.db (s.destructed x) x =
      obj.seen c s.db (s.destructed x) x → f' (some obj') = f (some obj)) :
    f' (t.found x) = f (s.found x) := by
  rcases h.found x with ⟨hs, ht⟩ | ⟨obj, obj', hs, ht, hseen⟩
  · rw [hs, ht, hnone]
  · rw [hs, ht]
    exact hsome obj obj' hseen

theorem Cleared.reading_data {α : Type} (h : Cleared c Marks.none s t) (x : Address) (a : α)
    (f : ObjectData → α) :
    (t.found x).elim a (fun obj => f obj.data) = (s.found x).elim a (fun obj => f obj.data) :=
  h.reading x (fun o => o.elim a (fun obj => f obj.data))
    (fun o => o.elim a (fun obj => f obj.data)) rfl
    (fun _ _ hseen => congrArg (fun b : Seen => f b.data) hseen)

/-- No object carries fake storage. -/
def LiveState.Real (s : LiveState) : Prop :=
  ∀ x obj, s.stateObjects.get x = some obj → obj.fakeStorage = none

theorem LiveState.Real.found {obj : LiveObject} (h : s.Real) (hobj : s.found x = some obj) :
    obj.fakeStorage = none := by
  have hload : (s.getDeletedStateObject x).1 = some obj := (Option.filter_eq_some_iff.1 hobj).1
  rcases s.getDeletedStateObject_cases x with ⟨o, hget, hread⟩ | ⟨-, -, hread⟩ | ⟨data, -, -, hread⟩
  · rw [hread] at hload
    cases hload
    exact h x obj hget
  · rw [hread] at hload
    cases hload
  · rw [hread] at hload
    cases hload
    rfl

theorem Cleared.reading_storage (h : Cleared c Marks.none s t) (hreal : s.Real) (x : Address)
    (f f' : LiveObject → Hash) (value : Seen → Hash)
    (hf : ∀ obj : LiveObject, obj.fakeStorage = none →
      f obj = value (obj.seen c s.db (s.destructed x) x) ∧
        f' obj = value (obj.seen c s.db (s.destructed x) x)) :
    (t.found x).elim zeroHash f' = (s.found x).elim zeroHash f := by
  rcases h.found x with ⟨hs, ht⟩ | ⟨obj, obj', hs, ht, hseen⟩
  · rw [hs, ht]
    rfl
  · have hobj := hreal.found hs
    have hfake : obj'.fakeStorage.isSome = obj.fakeStorage.isSome := congrArg Seen.fake hseen
    rw [hobj] at hfake
    rw [hs, ht, Option.elim_some, Option.elim_some, (hf obj hobj).1,
      (hf obj' (Option.not_isSome_iff_eq_none.1 (Bool.eq_false_iff.1 hfake))).2]
    exact congrArg value hseen

theorem restored_of_cleared (h : Cleared c Marks.none s t) (hreal : s.Real) : Restored c s t := by
  have hcode (x : Address) : t.getCode c x = s.getCode c x := by
    refine h.reading x (fun o => o.elim [] (fun obj => (obj.getCode c s.db x).1))
      (fun o => o.elim [] (fun obj => (obj.getCode c t.db x).1)) rfl (fun obj obj' hseen => ?_)
    dsimp only [Option.elim_some]
    rw [LiveObject.getCode_fst, LiveObject.getCode_fst, h.db]
    exact congrArg Seen.code hseen
  have haddresses := h.addresses
  exact
    { exist := fun x => h.reading x Option.isSome Option.isSome rfl (fun _ _ _ => rfl)
      empty := fun x => by
        refine h.reading x (fun o => o.all (fun obj : LiveObject => decide (obj.Empty c)))
          (fun o => o.all (fun obj : LiveObject => decide (obj.Empty c))) rfl
          (fun obj obj' hseen => decide_eq_decide.2 ?_)
        have hdata : obj'.data = obj.data := congrArg Seen.data hseen
        unfold LiveObject.Empty
        rw [hdata]
      balance := fun x => h.reading_data x 0 ObjectData.balance
      stakeBalance := fun x => h.reading_data x 0 ObjectData.stakeBalance
      pendingStakeBalance := fun x => h.reading_data x 0 ObjectData.pendingStakeBalance
      nonce := fun x => h.reading_data x 0 ObjectData.nonce
      code := hcode
      codeSize := fun x => congrArg List.length (hcode x)
      codeHash := fun x => h.reading_data x zeroHash ObjectData.codeHash
      state := fun x key => h.reading_storage hreal x _ _ (fun a => a.state key) (fun obj hobj => by
        rw [LiveObject.getState_fst _ _ _ _ _ hobj, LiveObject.getState_fst _ _ _ _ _ hobj, h.db,
          h.snapDestructs]
        exact ⟨rfl, rfl⟩)
      committedState := fun x key => h.reading_storage hreal x _ _ (fun a => a.committed key)
        (fun obj hobj => by
          rw [LiveObject.getCommittedState_fst _ _ _ _ _ hobj,
            LiveObject.getCommittedState_fst _ _ _ _ _ hobj, h.db, h.snapDestructs]
          exact ⟨rfl, rfl⟩)
      suicided := fun x => h.reading x (fun o => o.any LiveObject.suicided)
        (fun o => o.any LiveObject.suicided) rfl
        (fun _ _ hseen => congrArg Seen.suicided hseen)
      otsBitfield := fun x => h.reading_data x [] ObjectData.otsBitfield
      encoding := fun x => h.reading x (Option.map (fun obj => obj.data.encode))
        (Option.map (fun obj => obj.data.encode)) rfl
        (fun _ _ hseen => congrArg (fun a : Seen => some a.data.encode) hseen)
      refund := h.refund
      logs := fun hash blockHash => by
        unfold LiveState.getLogs
        rw [h.logs]
      logSize := h.logSize
      preimages := h.preimages
      containsAddress := fun x => by
        unfold AccessList.containsAddress
        rw [haddresses]
      contains := fun x slot => by
        unfold AccessList.contains
        rw [haddresses, h.slots] }

/-- The field of an account, the answers about its keys and the encoding of the account. -/
structure FieldRestored (s t : LiveState) (x : Address) : Prop where
  otsBitfield : t.getOTSBitfield x = s.getOTSBitfield x
  used : ∀ i, isUsedOTSIndex i (t.getOTSBitfield x) = isUsedOTSIndex i (s.getOTSBitfield x)
  encoding : t.encoding x = s.encoding x

theorem fieldRestored_iff (h : Cleared c marks s t) (hexist : ∀ i ∈ marks x, s.exist x = true) :
    FieldRestored s t x ↔ ∀ i ∈ marks x, Unmarked (s.getOTSBitfield x) i := by
  rcases h.found x with ⟨hs, ht⟩ | ⟨obj, obj', hs, ht, hseen⟩
  · -- No account: nothing is read, and nothing was marked.
    have hnone (i : Nat) (hi : i ∈ marks x) : False := by
      have hsome := hexist i hi
      unfold LiveState.exist at hsome
      rw [hs] at hsome
      cases hsome
    have hsame {α : Type} (f : Option LiveObject → α) : f (t.found x) = f (s.found x) := by
      rw [hs, ht]
    have hfield : t.getOTSBitfield x = s.getOTSBitfield x :=
      hsame (fun o => o.elim [] (fun obj => obj.data.otsBitfield))
    refine ⟨fun _ i hi => (hnone i hi).elim, fun _ => ⟨hfield, fun i => by rw [hfield], ?_⟩⟩
    exact hsame (Option.map (fun obj => obj.data.encode))
  · have hfield : s.getOTSBitfield x = obj.data.otsBitfield := by
      unfold LiveState.getOTSBitfield
      rw [hs]
      rfl
    have hdata : obj'.data = { obj.data with
        otsBitfield := clearBits x (marks x) obj.data.otsBitfield } := congrArg Seen.data hseen
    have hfield' : t.getOTSBitfield x = clearBits x (marks x) obj.data.otsBitfield := by
      unfold LiveState.getOTSBitfield
      rw [ht]
      exact congrArg ObjectData.otsBitfield hdata
    rw [hfield, ← @clearBits_eq_self_iff x]
    refine ⟨fun hrestored => ?_, fun hclear => ?_⟩
    · rw [← hfield', ← hfield]
      exact hrestored.otsBitfield
    · have heq : t.getOTSBitfield x = s.getOTSBitfield x := by rw [hfield', hfield, hclear]
      refine ⟨heq, fun i => by rw [heq], ?_⟩
      unfold LiveState.encoding
      rw [hs, ht, Option.map_some, Option.map_some, hdata, hclear]

end Getters

section Results

variable {c : Crypto} {j₀ j : JournaledDB} {ops : List Op} {marks : Marks}

theorem Tracked.restores (h : Tracked c j₀ ops marks j) : (j.Valid j₀.nextRevisionId ↔
      ∃ j', JournaledDB.revertToSnapshot j j₀.nextRevisionId = .ok j') ∧
    ∀ j', JournaledDB.revertToSnapshot j j₀.nextRevisionId = .ok j' →
      Cleared c marks j₀.state j'.state := by
  have hvalid {j' : JournaledDB} (hrevert : JournaledDB.revertToSnapshot j j₀.nextRevisionId =
      .ok j') : j.Valid j₀.nextRevisionId := by
    rcases Journal.revertToSnapshot_eq_ok hrevert with ⟨k, r, -, hr, hid, -⟩
    exact ⟨r, List.mem_of_getElem? hr, hid⟩
  refine ⟨⟨fun hv => ?_, fun ⟨j', hrevert⟩ => hvalid hrevert⟩, fun j' hrevert => ?_⟩
  · rcases h.since.restores hv with ⟨j', hrevert, -, -⟩
    exact ⟨j', hrevert⟩
  · rcases h.since.restores (hvalid hrevert) with ⟨j'', hrevert', hback, -⟩
    cases hrevert.symm.trans hrevert'
    exact hback

/-- Take a snapshot of any state in which no object carries fake storage and run any operations,
    snapshots and reverts among them but no write to a field of one-time keys. As long as the
    snapshot has not itself been undone one can go back to it, and then every getter answers as
    it did when it was taken. -/
theorem revert_restores (c : Crypto) (j₀ : JournaledDB) (hordered : j₀.Ordered)
    (hreal : j₀.state.Real) (ops : List Op)
    (hots : ∀ x i revert, Op.setOTSBitfield x i revert ∉ ops) (j : JournaledDB)
    (hrun : JournaledDB.run c ops (UndoLog.Journal.snapshot j₀).2 = .ok j) :
    (j.Valid (UndoLog.Journal.snapshot j₀).1 ↔
      ∃ j', JournaledDB.revertToSnapshot j (UndoLog.Journal.snapshot j₀).1 = .ok j') ∧
    ∀ j', JournaledDB.revertToSnapshot j (UndoLog.Journal.snapshot j₀).1 = .ok j' →
      Restored c j₀.state j'.state := by
  rcases tracked_run hordered hrun with ⟨marks, h⟩
  have hnone : marks = Marks.none := by
    funext x
    refine List.eq_nil_iff_forall_not_mem.2 (fun i hi => ?_)
    rcases (h.marked x i).1 hi with ⟨before, revert, after, -, rfl, -⟩
    exact hots x i revert (List.mem_append_right _ List.mem_cons_self)
  refine ⟨h.restores.1, fun j' hrevert => restored_of_cleared ?_ hreal⟩
  rw [← hnone]
  exact h.restores.2 j' hrevert

def toyBackend (field : List (List.Vector UInt8 8)) : Backend :=
  { account := fun x => if x = zeroAddress then
      some { ObjectData.new toyCrypto with balance := 7, otsBitfield := field } else none
    contractCode := fun _ _ => []
    storage := fun _ _ _ => zeroHash
    snapStorage := none }

def toyJournal (field : List (List.Vector UInt8 8)) : JournaledDB := JournaledDB.new (toyBackend field)

theorem ordered_new (db : Backend) : (JournaledDB.new db).Ordered :=
  ⟨List.Pairwise.nil, fun _ h => (nomatch h)⟩

def toyOps : List Op :=
  [.setBalance zeroAddress 5, .snapshot, .createAccount zeroAddress, .suicide zeroAddress,
    .addSlotToAccessList zeroAddress zeroHash, .addRefund 3, .revertToSnapshot 1,
    .setState zeroAddress zeroHash (Bytes.zeros 32), .setNonce (toyAddress 2) 1]

theorem toyJournal_restored : ∃ j j',
    JournaledDB.run toyCrypto toyOps (UndoLog.Journal.snapshot (toyJournal [])).2 = .ok j ∧
      JournaledDB.revertToSnapshot j 0 = .ok j' ∧
      Restored toyCrypto (toyJournal []).state j'.state := by
  have hok : (JournaledDB.run toyCrypto toyOps (UndoLog.Journal.snapshot (toyJournal [])).2 >>=
      fun j => JournaledDB.revertToSnapshot j 0 >>= fun _ => pure true) = .ok true := by
    decide +kernel
  rcases bind_eq_ok.1 hok with ⟨j, hrun, hrest⟩
  rcases bind_eq_ok.1 hrest with ⟨j', hrevert, -⟩
  refine ⟨j, j', hrun, hrevert, ?_⟩
  refine (revert_restores toyCrypto (toyJournal []) (ordered_new _) (fun _ _ h => ?_) toyOps ?_ j
    hrun).2 j' hrevert
  · cases h
  · intro x i revert hmem
    simp only [toyOps, List.mem_cons, List.not_mem_nil, reduceCtorEq, or_false] at hmem

def toyFaked : JournaledDB := JournaledDB.setStorage toyCrypto (toyJournal []) zeroAddress []

def toyListed : JournaledDB := JournaledDB.addAddressToAccessList (toyJournal []) zeroAddress

/-- After `SetStorage` a write to a slot is still there when one has gone back, and after
    `PrepareAccessList` what the access list had before it is gone for good. -/
theorem toyFaked_not_restored :
    (∃ j j', JournaledDB.run toyCrypto [.setState zeroAddress zeroHash (Bytes.alignLeft 32 [1])]
        (UndoLog.Journal.snapshot toyFaked).2 = .ok j ∧
      JournaledDB.revertToSnapshot j 0 = .ok j' ∧
      j'.state.getState zeroAddress zeroHash ≠ toyFaked.state.getState zeroAddress zeroHash) ∧
    ∃ j', JournaledDB.revertToSnapshot (JournaledDB.prepareAccessList
        (UndoLog.Journal.snapshot toyListed).2 (toyAddress 2) none []) 0 = .ok j' ∧
      j'.state.accessList.containsAddress zeroAddress ≠
        toyListed.state.accessList.containsAddress zeroAddress := by
  have hwritten : (JournaledDB.run toyCrypto
      [.setState zeroAddress zeroHash (Bytes.alignLeft 32 [1])]
        (UndoLog.Journal.snapshot toyFaked).2 >>= fun j =>
      JournaledDB.revertToSnapshot j 0 >>= fun j' => pure (decide (j'.state.getState zeroAddress
        zeroHash ≠ toyFaked.state.getState zeroAddress zeroHash))) = .ok true := by
    decide +kernel
  have hlisted : (JournaledDB.revertToSnapshot (JournaledDB.prepareAccessList
      (UndoLog.Journal.snapshot toyListed).2 (toyAddress 2) none []) 0 >>= fun j' =>
      pure (decide (j'.state.accessList.containsAddress zeroAddress ≠
        toyListed.state.accessList.containsAddress zeroAddress))) = .ok true := by
    decide +kernel
  rcases bind_eq_ok.1 hwritten with ⟨j, hrun, hrest⟩
  rcases bind_eq_ok.1 hrest with ⟨j', hrevert, hne⟩
  rcases bind_eq_ok.1 hlisted with ⟨j'', hrevert', hne'⟩
  rw [pure_eq_ok, decide_eq_true_eq] at hne hne'
  exact ⟨⟨j, j', hrun, hrevert, hne⟩, j'', hrevert', hne'⟩

/-- Take a snapshot of any state and run any operations, writes to fields of one-time keys
    among them, and go back. The field of an account and its encoding are as they were, and
    so are the answers about its keys, exactly if every write to the field in the run either
    - was to an account that was not there at the call or had been made since the snapshot, or
    - was to an index whose byte was zero at the snapshot, in a field that was there. -/
theorem revert_keeps_otsBitfield (c : Crypto) (j₀ : JournaledDB) (hordered : j₀.Ordered)
    (ops : List Op) (j : JournaledDB)
    (hrun : JournaledDB.run c ops (UndoLog.Journal.snapshot j₀).2 = .ok j)
    (hvalid : j.Valid (UndoLog.Journal.snapshot j₀).1) (x : Address) :
    ∃ j', JournaledDB.revertToSnapshot j (UndoLog.Journal.snapshot j₀).1 = .ok j' ∧
      (FieldRestored j₀.state j'.state x ↔
        ∀ i, Wrote c j₀ ops x i → Unmarked (j₀.state.getOTSBitfield x) i) := by
  rcases tracked_run hordered hrun with ⟨marks, h⟩
  rcases h.restores.1.1 hvalid with ⟨j', hrevert⟩
  refine ⟨j', hrevert, ?_⟩
  rw [fieldRestored_iff (h.restores.2 j' hrevert) (fun i hi => h.exist hvalid x i hi)]
  exact forall_congr' (fun i => by rw [h.marked])

def toyUsedField : List (List.Vector UInt8 8) := [setByte (Bytes.zeros 8) 0 1]

theorem toyJournal_keeps : ∃ j j',
    JournaledDB.run toyCrypto [.setOTSBitfield zeroAddress 1 false]
        (UndoLog.Journal.snapshot (toyJournal toyUsedField)).2 = .ok j ∧
      JournaledDB.revertToSnapshot j 0 = .ok j' ∧
      FieldRestored (toyJournal toyUsedField).state j'.state zeroAddress := by
  have hok : (JournaledDB.run toyCrypto [.setOTSBitfield zeroAddress 1 false]
      (UndoLog.Journal.snapshot (toyJournal toyUsedField)).2 >>= fun j =>
        pure (decide (j.validRevisions.map Revision.id = [0]))) = .ok true := by
    decide +kernel
  rcases bind_eq_ok.1 hok with ⟨j, hrun, hids⟩
  rw [pure_eq_ok, decide_eq_true_iff] at hids
  have hvalid : j.Valid 0 := by
    rcases List.mem_map.1 (hids.symm ▸ List.mem_singleton_self 0) with ⟨r, hr, hid⟩
    exact ⟨r, hr, hid⟩
  rcases revert_keeps_otsBitfield toyCrypto (toyJournal toyUsedField) (ordered_new _) _ j hrun hvalid
    zeroAddress with ⟨j', hrevert, hiff⟩
  refine ⟨j, j', hrun, hrevert, hiff.2 (fun i hwrote => ?_)⟩
  rcases hwrote with ⟨before, revert, after, -, hops, -⟩
  have hmem : Op.setOTSBitfield zeroAddress i revert ∈ [Op.setOTSBitfield zeroAddress 1 false] :=
    hops ▸ List.mem_append_right _ List.mem_cons_self
  cases List.mem_singleton.1 hmem
  exact clearBit_eq_self_iff.1 (by decide +kernel : clearBit zeroAddress toyUsedField 1 = toyUsedField)

def toyPages : Option (Except RlpErr Rlp.Item) → Option Nat
  | some (.ok (.list [_, _, _, _, _, _, .list pages])) => some pages.length
  | _ => none

/-- Marking a used key again and going back makes it unused, and marking the first key of an
    account and going back leaves a field behind. -/
theorem toyJournal_forgets :
    (∃ j j', JournaledDB.run toyCrypto [.setOTSBitfield zeroAddress 0 false]
        (UndoLog.Journal.snapshot (toyJournal toyUsedField)).2 = .ok j ∧
      JournaledDB.revertToSnapshot j 0 = .ok j' ∧
      isUsedOTSIndex 0 ((toyJournal toyUsedField).state.getOTSBitfield zeroAddress) = true ∧
      isUsedOTSIndex 0 (j'.state.getOTSBitfield zeroAddress) = false) ∧
    ∃ j j', JournaledDB.run toyCrypto [.setOTSBitfield zeroAddress 0 false]
        (UndoLog.Journal.snapshot (toyJournal [])).2 = .ok j ∧
      JournaledDB.revertToSnapshot j 0 = .ok j' ∧
      j'.state.encoding zeroAddress ≠ (toyJournal []).state.encoding zeroAddress := by
  have hused : (JournaledDB.run toyCrypto [.setOTSBitfield zeroAddress 0 false]
      (UndoLog.Journal.snapshot (toyJournal toyUsedField)).2 >>= fun j =>
        JournaledDB.revertToSnapshot j 0 >>= fun j' => pure (decide
          (isUsedOTSIndex 0 ((toyJournal toyUsedField).state.getOTSBitfield zeroAddress) = true ∧
            isUsedOTSIndex 0 (j'.state.getOTSBitfield zeroAddress) = false))) = .ok true := by
    decide +kernel
  have hmade : (JournaledDB.run toyCrypto [.setOTSBitfield zeroAddress 0 false]
      (UndoLog.Journal.snapshot (toyJournal [])).2 >>= fun j =>
        JournaledDB.revertToSnapshot j 0 >>= fun j' => pure (decide
          (toyPages (j'.state.encoding zeroAddress) ≠
            toyPages ((toyJournal []).state.encoding zeroAddress)))) = .ok true := by
    decide +kernel
  rcases bind_eq_ok.1 hused with ⟨j₁, hrun₁, hrest₁⟩
  rcases bind_eq_ok.1 hrest₁ with ⟨j₁', hrevert₁, hend₁⟩
  rcases bind_eq_ok.1 hmade with ⟨j₂, hrun₂, hrest₂⟩
  rcases bind_eq_ok.1 hrest₂ with ⟨j₂', hrevert₂, hend₂⟩
  rw [pure_eq_ok, decide_eq_true_iff] at hend₁ hend₂
  exact ⟨⟨j₁, j₁', hrun₁, hrevert₁, hend₁⟩, j₂, j₂', hrun₂, hrevert₂,
    fun heq => hend₂ (congrArg toyPages heq)⟩

end Results

end Zond
