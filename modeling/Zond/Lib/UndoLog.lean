import Zond.Lib.Outcome

/-!
# Undo Logs

A state that is changed in place and can be taken back to an earlier point. Every
write appends the entries that undo it, a snapshot remembers how long the list of
entries is, and going back undoes the entries that have come since, newest first.

Going back may fail: an entry may meet a state it cannot undo anything in, and a
snapshot that was itself undone no longer has a name. Neither happens to a snapshot
that is still valid. How close the state one gets is to that at the snapshot is for the
client to say, write by write.

## Main definitions

* `Journal`: The entries and the snapshots.
* `Since`: What holds from a snapshot on.

## Theorems

* `Since.append`, `Since.snapshot`, `Since.revert`: Every operation keeps it.
-/

namespace UndoLog

variable {σ ε φ : Type}

/-- Undo entries, the newest first. -/
def unwind (undo : ε → σ → Except φ σ) (es : List ε) (s : σ) : Except φ σ := es.foldrM undo s

section Unwind

variable {undo : ε → σ → Except φ σ}

theorem unwind_nil (s : σ) : unwind undo [] s = .ok s := rfl

theorem unwind_append (es es' : List ε) (s : σ) :
    unwind undo (es ++ es') s = unwind undo es' s >>= unwind undo es := by
  unfold unwind
  rw [List.foldrM_append]

theorem unwind_singleton (e : ε) (s : σ) : unwind undo [e] s = undo e s := by
  unfold unwind
  rw [List.foldrM_cons, List.foldrM_nil]
  rfl

theorem unwind_cons (e : ε) (es : List ε) (s : σ) :
    unwind undo (e :: es) s = unwind undo es s >>= undo e :=
  List.foldrM_cons

/-- Two states that one entry keeps related are kept related by a list of them. -/
theorem unwind_sim {δ : Type} {next : ε → δ → δ} {R : δ → σ → σ → Prop}
    (hstep : ∀ {d e s t u}, R d s t → undo e s = .ok u → ∃ v, undo e t = .ok v ∧ R (next e d) u v)
    {d : δ} {es : List ε} {s t u : σ} (h : R d s t) (hu : unwind undo es s = .ok u) :
    ∃ v, unwind undo es t = .ok v ∧ R (es.foldr next d) u v := by
  induction es generalizing u with
  | nil =>
    rw [unwind_nil, Except.ok.injEq] at hu
    exact ⟨t, rfl, hu ▸ h⟩
  | cons e es ih =>
    rw [unwind_cons] at hu
    rcases Outcome.bind_eq_ok.1 hu with ⟨u', hu', hlast⟩
    rcases ih hu' with ⟨v', hv', hrel⟩
    rcases hstep hrel hlast with ⟨v, hv, hrel'⟩
    refine ⟨v, ?_, hrel'⟩
    rw [unwind_cons, hv', Outcome.ok_bind, hv]

end Unwind

/-- A snapshot: its name, and the number of entries when it was taken. -/
structure Revision where
  id : Nat
  journalIndex : Nat
deriving DecidableEq

/-- A state with the entries that undo its writes and the snapshots that are valid. -/
structure Journal (σ ε : Type) where
  state : σ
  entries : List ε
  validRevisions : List Revision
  nextRevisionId : Nat

namespace Journal

def snapshot (j : Journal σ ε) : Nat × Journal σ ε :=
  (j.nextRevisionId,
    { j with
      validRevisions := j.validRevisions ++ [⟨j.nextRevisionId, j.entries.length⟩]
      nextRevisionId := j.nextRevisionId + 1 })

/-- Go back to a snapshot. The search takes the first snapshot whose name is not below the
    one asked for; it fails with `invalid` if that is another. -/
def revertToSnapshot (undo : ε → σ → Except φ σ) (invalid : φ) (j : Journal σ ε) (id : Nat) :
    Except φ (Journal σ ε) :=
  let idx := j.validRevisions.findIdx (fun r => decide (id ≤ r.id))
  match j.validRevisions[idx]? with
  | none => .error invalid
  | some r =>
    if r.id ≠ id then .error invalid
    else do
      let s ← unwind undo (j.entries.drop r.journalIndex) j.state
      pure { j with
        state := s
        entries := j.entries.take r.journalIndex
        validRevisions := j.validRevisions.take idx }

def Valid (j : Journal σ ε) (id : Nat) : Prop := ∃ r ∈ j.validRevisions, r.id = id

/-- Snapshots are named and placed in the order they were taken. -/
structure Ordered (j : Journal σ ε) : Prop where
  sorted : j.validRevisions.Pairwise
    (fun r r' => r.id < r'.id ∧ r.journalIndex ≤ r'.journalIndex)
  below : ∀ r ∈ j.validRevisions, r.id < j.nextRevisionId ∧ r.journalIndex ≤ j.entries.length

/-- The journal `j` goes on from the snapshot taken of `j₀`: as long as that is valid, its
    entries are still there, and undoing those that have come since leads to a state with
    the property `G`. -/
structure Since (undo : ε → σ → Except φ σ) (j₀ : Journal σ ε) (G : σ → Prop)
    (j : Journal σ ε) : Prop where
  ordered : j.Ordered
  next : j₀.nextRevisionId < j.nextRevisionId
  index : ∀ r ∈ j.validRevisions, r.id = j₀.nextRevisionId → r.journalIndex = j₀.entries.length
  entries : j.Valid j₀.nextRevisionId → j.entries.take j₀.entries.length = j₀.entries
  unwinds : j.Valid j₀.nextRevisionId →
    ∃ u, unwind undo (j.entries.drop j₀.entries.length) j.state = .ok u ∧ G u

section Reverting

variable {undo : ε → σ → Except φ σ} {invalid : φ} {j₀ j j' : Journal σ ε} {G G' : σ → Prop}
variable {revid : Nat}

theorem revertToSnapshot_eq_ok (h : j.revertToSnapshot undo invalid revid = .ok j') :
    ∃ (i : Nat) (r : Revision) (s : σ), j.validRevisions[i]? = some r ∧ r.id = revid ∧
      unwind undo (j.entries.drop r.journalIndex) j.state = .ok s ∧
      j' = { j with
        state := s
        entries := j.entries.take r.journalIndex
        validRevisions := j.validRevisions.take i } := by
  unfold revertToSnapshot at h
  dsimp only at h
  split at h
  · cases h
  · rename_i r hr
    by_cases hid : r.id ≠ revid
    · rw [if_pos hid] at h
      cases h
    · rw [if_neg hid] at h
      rcases Outcome.bind_eq_ok.1 h with ⟨s, hs, hj⟩
      rw [Outcome.pure_eq_ok] at hj
      exact ⟨_, r, s, hr, not_not.1 hid, hs, hj.symm⟩

theorem getElem?_findIdx (hsorted : j.Ordered) {r : Revision} (hr : r ∈ j.validRevisions) :
    j.validRevisions[j.validRevisions.findIdx (fun r' => decide (r.id ≤ r'.id))]? = some r := by
  rcases List.getElem_of_mem hr with ⟨k, hk, hval⟩
  have hidx : j.validRevisions.findIdx (fun r' => decide (r.id ≤ r'.id)) = k := by
    refine (List.findIdx_eq hk).2 ⟨?_, fun i hi => ?_⟩
    · rw [hval]
      exact decide_eq_true (Nat.le_refl _)
    · have hlt := (List.pairwise_iff_getElem.1 hsorted.sorted i k (by omega) hk hi).1
      rw [hval] at hlt
      exact decide_eq_false (by omega)
  rw [hidx, List.getElem?_eq_getElem hk, hval]

theorem Ordered.append (h : j.Ordered) (hrevisions : j'.validRevisions = j.validRevisions)
    (hnext : j'.nextRevisionId = j.nextRevisionId)
    (hlength : j.entries.length ≤ j'.entries.length) : j'.Ordered := by
  refine ⟨hrevisions ▸ h.sorted, fun r hr => ?_⟩
  have hbelow := h.below r (hrevisions ▸ hr)
  rw [hnext]
  exact ⟨hbelow.1, by omega⟩

theorem Ordered.snapshot (h : j.Ordered) : j.snapshot.2.Ordered := by
  refine ⟨?_, fun r hr => ?_⟩
  · refine List.pairwise_append.2 ⟨h.sorted, List.pairwise_singleton _ _, fun r hr r' hr' => ?_⟩
    rw [List.mem_singleton.1 hr']
    exact h.below r hr
  · rcases List.mem_append.1 hr with hr | hr
    · have hbelow := h.below r hr
      exact ⟨Nat.lt_succ_of_lt hbelow.1, hbelow.2⟩
    · rw [List.mem_singleton.1 hr]
      exact ⟨Nat.lt_succ_self _, Nat.le_refl _⟩

theorem Ordered.revert (h : j.Ordered) (hok : j.revertToSnapshot undo invalid revid = .ok j') :
    j'.Ordered := by
  rcases revertToSnapshot_eq_ok hok with ⟨i, r, s, hr, -, -, rfl⟩
  refine ⟨h.sorted.sublist (List.take_sublist i _), fun r' hr' => ?_⟩
  have hmem := List.mem_of_mem_take hr'
  refine ⟨(h.below r' hmem).1, ?_⟩
  -- A snapshot that is kept was taken before the one gone back to.
  rcases List.getElem_of_mem hr' with ⟨k, hk, hval⟩
  rw [List.length_take] at hk
  rcases List.getElem?_eq_some_iff.1 hr with ⟨hi, hri⟩
  have hle := (List.pairwise_iff_getElem.1 h.sorted k i (by omega) hi (by omega)).2
  rw [List.getElem_take] at hval
  rw [hval, hri] at hle
  have hlength := (h.below r (List.mem_of_getElem? hr)).2
  rw [List.length_take]
  omega

theorem Valid.of_snapshot (hlt : revid < j.nextRevisionId) (h : j.snapshot.2.Valid revid) :
    j.Valid revid := by
  rcases h with ⟨r, hr, hid⟩
  rcases List.mem_append.1 hr with hr | hr
  · exact ⟨r, hr, hid⟩
  · rw [List.mem_singleton.1 hr] at hid
    exact absurd hid (Nat.ne_of_gt hlt)

theorem Valid.of_revert {id : Nat} (hok : j.revertToSnapshot undo invalid revid = .ok j')
    (h : j'.Valid id) : j.Valid id := by
  rcases revertToSnapshot_eq_ok hok with ⟨i, r, s, -, -, -, rfl⟩
  rcases h with ⟨r', hr', hid⟩
  exact ⟨r', List.mem_of_mem_take hr', hid⟩

theorem Since.start (h : j₀.Ordered) (hG : G j₀.state) : Since undo j₀ G j₀.snapshot.2 := by
  refine ⟨h.snapshot, Nat.lt_succ_self _, fun r hr hid => ?_, fun _ => ?_, fun _ => ?_⟩
  · rcases List.mem_append.1 hr with hr | hr
    · have := (h.below r hr).1
      omega
    · rw [List.mem_singleton.1 hr]
  · exact List.take_length
  · refine ⟨j₀.state, ?_, hG⟩
    have hnone : j₀.snapshot.2.entries.drop j₀.entries.length = [] := List.drop_length
    rw [hnone]
    rfl

/-- A write that appends entries, and what undoing them on top of the others leads to. -/
theorem Since.append (h : Since undo j₀ G j) {es : List ε}
    (hentries : j'.entries = j.entries ++ es) (hrevisions : j'.validRevisions = j.validRevisions)
    (hnext : j'.nextRevisionId = j.nextRevisionId)
    (hG : ∀ u, unwind undo (j.entries.drop j₀.entries.length) j.state = .ok u → G u →
      ∃ v, unwind undo (j.entries.drop j₀.entries.length ++ es) j'.state = .ok v ∧ G' v) :
    Since undo j₀ G' j' := by
  have hvalid : j'.Valid j₀.nextRevisionId → j.Valid j₀.nextRevisionId := by
    unfold Valid
    rw [hrevisions]
    exact id
  -- The entries of the snapshot are a prefix, so the new ones come after them.
  have hlength (hv : j'.Valid j₀.nextRevisionId) : j₀.entries.length ≤ j.entries.length := by
    have htake := congrArg List.length (h.entries (hvalid hv))
    rw [List.length_take] at htake
    omega
  refine ⟨h.ordered.append hrevisions hnext ?_, hnext ▸ h.next, fun r hr => h.index r
    (hrevisions ▸ hr), fun hv => ?_, fun hv => ?_⟩
  · rw [hentries, List.length_append]
    omega
  · rw [hentries, List.take_append_of_le_length (hlength hv)]
    exact h.entries (hvalid hv)
  · rw [hentries, List.drop_append_of_le_length (hlength hv)]
    rcases h.unwinds (hvalid hv) with ⟨u, hu, hGu⟩
    exact hG u hu hGu

theorem Since.snapshot (h : Since undo j₀ G j) : Since undo j₀ G j.snapshot.2 := by
  refine ⟨h.ordered.snapshot, Nat.lt_succ_of_lt h.next, fun r hr hid => ?_,
    fun hv => h.entries (Valid.of_snapshot h.next hv),
    fun hv => h.unwinds (Valid.of_snapshot h.next hv)⟩
  rcases List.mem_append.1 hr with hr | hr
  · exact h.index r hr hid
  · rw [List.mem_singleton.1 hr] at hid
    exact absurd hid (Nat.ne_of_gt h.next)

/-- Going back to another snapshot: either it is a later one, and undoing the rest leads to
    the same state, or the snapshot of `j₀` is no longer valid. -/
theorem Since.revert (h : Since undo j₀ G j)
    (hok : j.revertToSnapshot undo invalid revid = .ok j') : Since undo j₀ G j' := by
  have hordered := h.ordered.revert hok
  have hback (hv : j'.Valid j₀.nextRevisionId) : j.Valid j₀.nextRevisionId := hv.of_revert hok
  rcases revertToSnapshot_eq_ok hok with ⟨i, r, s, hr, -, hs, rfl⟩
  refine ⟨hordered, h.next, fun r' hr' => h.index r' (List.mem_of_mem_take hr'), ?_, ?_⟩
  all_goals
    intro hv
    have hvalid := hback hv
    rcases hv with ⟨r₀, hr₀, hid⟩
    have hindex := h.index r₀ (List.mem_of_mem_take hr₀) hid
    have hle : j₀.entries.length ≤ r.journalIndex := by
      rcases List.getElem_of_mem hr₀ with ⟨k, hk, hval⟩
      rw [List.length_take] at hk
      rcases List.getElem?_eq_some_iff.1 hr with ⟨hi, hri⟩
      have hle := (List.pairwise_iff_getElem.1 h.ordered.sorted k i (by omega) hi (by omega)).2
      rw [List.getElem_take] at hval
      rw [hval, hri] at hle
      omega
  · dsimp only
    rw [List.take_take, Nat.min_eq_left hle]
    exact h.entries hvalid
  · rcases h.unwinds hvalid with ⟨u, hu, hGu⟩
    refine ⟨u, ?_, hGu⟩
    -- All entries since the snapshot are those kept and those just undone.
    have hsplit : j.entries.drop j₀.entries.length
        = (j.entries.take r.journalIndex).drop j₀.entries.length
          ++ j.entries.drop r.journalIndex := by
      conv_lhs => rw [← List.take_append_drop r.journalIndex j.entries]
      refine List.drop_append_of_le_length ?_
      have hlength := (h.ordered.below r (List.mem_of_getElem? hr)).2
      rw [List.length_take]
      omega
    rw [hsplit, unwind_append, hs, Outcome.ok_bind] at hu
    exact hu

theorem Since.restores (h : Since undo j₀ G j) (hvalid : j.Valid j₀.nextRevisionId) :
    ∃ j', j.revertToSnapshot undo invalid j₀.nextRevisionId = .ok j' ∧ G j'.state ∧
      j'.entries = j₀.entries := by
  rcases h.unwinds hvalid with ⟨u, hu, hGu⟩
  have hentries := h.entries hvalid
  rcases hvalid with ⟨r, hr, hid⟩
  have hfound := getElem?_findIdx h.ordered hr
  have hindex := h.index r hr hid
  rw [hid] at hfound
  unfold revertToSnapshot
  dsimp only
  rw [hfound]
  dsimp only
  rw [if_neg (not_not.2 hid), hindex, hu]
  exact ⟨_, rfl, hGu, hentries⟩

end Reverting

end Journal

end UndoLog
