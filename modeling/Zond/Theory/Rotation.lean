import Zond.Theory.Boundary

/-!
# The Rotation of Validators

Two facts about one turn of an epoch.

## Main definitions

* `ListsStakers`: The list names exactly the keys with stake.

## Theorems

* `updateStakeValidators_keeps`: The replay of stake transactions keeps this.
* `allotSlots_fair`: Every place in the list is dealt to one slot, and no slot has more than one
  place more than another.
-/

namespace Zond

section Replay

variable {ext : Externals}

/-- The list has no key twice and, among the keys in question, names exactly those whose account
    has stake. -/
structure ListsStakers (ext : Externals) (keys : Set PublicKey) (s : StateDB) (e : EpochMetaData) :
    Prop where
  nodup : e.validators.Nodup
  known : ∀ pk ∈ e.validators, pk ∈ keys
  staked : ∀ pk ∈ keys, pk ∈ e.validators ↔ 0 < s.getStakeBalance (ext.getAddressFromUnSizedPK pk)

/-- A key whose place in the list matches its stake, with nothing negative pending. -/
structure Standing.Matched (t : Standing) : Prop where
  listed : t.listed = true ↔ 0 < t.stake
  low : 0 ≤ t.pending
  high : t.pending < 2 ^ 63

theorem Standing.Matched.update {t : Standing} (h : t.Matched) : t.update.Matched := by
  have hlow := h.low
  have hhigh := h.high
  unfold Standing.update
  by_cases hzero : bigUint64 t.pending = 0
  · rw [if_pos hzero]
    refine ⟨?_, hlow, hhigh⟩
    simp
  · rw [if_neg hzero]
    -- What is pending reads as itself, so it is not zero.
    have hpos : t.pending ≠ 0 := fun heq => hzero (by rw [heq]; rfl)
    refine ⟨?_, le_refl 0, (by decide : (0 : Int) < 2 ^ 63)⟩
    simp only [true_iff]
    omega

theorem Standing.Matched.iterate_update {t : Standing} (h : t.Matched) (n : Nat) :
    (Standing.update^[n] t).Matched := by
  induction n with
  | zero => exact h
  | succ n ih =>
    rw [Function.iterate_succ_apply']
    exact ih.update

theorem coins_updateStakeValidator (se : StateDB × EpochMetaData) (pk : PublicKey) (x : Address) :
    ((updateStakeValidator ext se pk).1.account x).coins = (se.1.account x).coins := by
  rcases se with ⟨s, e⟩
  have hsame := StateDB.account_getOrNewStateObject s (ext.getAddressFromUnSizedPK pk) x
  unfold updateStakeValidator
  dsimp only
  generalize s.getOrNewStateObject (ext.getAddressFromUnSizedPK pk) = opened at hsame
  generalize ext.getAddressFromUnSizedPK pk = addr
  by_cases hx : addr = x
  · subst hx
    split
    · simp only [StateDB.setStakeBalance, StateDB.getStakeBalance, StateDB.account_modify,
        StateDB.account_addBalance, if_true, hsame, Account.coins]
      omega
    · simp only [StateDB.setPendingStakeBalance, StateDB.setStakeBalance, StateDB.getStakeBalance,
        StateDB.getPendingStakeBalance, StateDB.account_modify, StateDB.account_addBalance, if_true,
        hsame, Account.coins]
      omega
  · -- Another account is not written at all.
    split
    · simp only [StateDB.setStakeBalance, StateDB.account_modify, StateDB.account_addBalance,
        if_neg hx, hsame]
    · simp only [StateDB.setPendingStakeBalance, StateDB.setStakeBalance, StateDB.account_modify,
        StateDB.account_addBalance, if_neg hx, hsame]

theorem coins_updateStakeValidators (s : StateDB) (pending : List PublicKey) (e : EpochMetaData)
    (x : Address) :
    ((updateStakeValidators ext s pending e).1.account x).coins = (s.account x).coins := by
  induction pending generalizing s e with
  | nil => rfl
  | cons pk rest ih =>
    exact (ih _ _).trans (coins_updateStakeValidator (s, e) pk x)

/-- If the list of validators has no repeats and names exactly the keys with stake, then so it
    does after `UpdateStakeValidators` for any list of keys, in any order and with repeats; and
    no account has gained or lost. -/
theorem updateStakeValidators_keeps {keys : Set PublicKey} {s : StateDB} {e : EpochMetaData}
    {pending : List PublicKey} (hinj : Set.InjOn ext.getAddressFromUnSizedPK keys)
    (hpending : ∀ pk ∈ pending, pk ∈ keys)
    (hrange : ∀ x, 0 ≤ s.getPendingStakeBalance x ∧ s.getPendingStakeBalance x < 2 ^ 63)
    (h : ListsStakers ext keys s e) :
    let r := updateStakeValidators ext s pending e
    ListsStakers ext keys r.1 r.2 ∧ ∀ x, (r.1.account x).coins = (s.account x).coins := by
  refine ⟨⟨(updateStakeValidators_record h.nodup).1, ?_, ?_⟩,
    coins_updateStakeValidators s pending e⟩
  · intro pk hpk
    rcases mem_or_mem_of_mem_updateStakeValidators hpk with hold | hnew
    · exact h.known pk hold
    · exact hpending pk hnew
  · intro pk hpk
    -- The key's standing has changed once for each time it was named, and matched throughout.
    have hmatched : (standing ext (s, e) pk).Matched :=
      ⟨decide_eq_true_iff.trans (h.staked pk hpk), (hrange _).1, (hrange _).2⟩
    have hstanding := @standing_updateStakeValidators ext (s, e) pk pending h.nodup
      (fun pk' hmem heq => hinj (hpending pk' hmem) hpk heq)
    have hafter := hmatched.iterate_update (pending.count pk)
    rw [← hstanding] at hafter
    exact decide_eq_true_iff.symm.trans hafter.listed

end Replay

def toyPendingState : StateDB :=
  ((StateDB.new AssocMap.empty).setPendingStakeBalance (toyAddress 2) 5).setStakeBalance
    (toyAddress 3) 7

def toyListing : EpochMetaData := EpochMetaData.new 1 zeroHash [(toyKey 3).pk]

theorem toyListing_keeps :
    let r := updateStakeValidators toyExternals toyPendingState
      [(toyKey 3).pk, (toyKey 2).pk, (toyKey 3).pk] toyListing
    ListsStakers toyExternals {(toyKey 2).pk, (toyKey 3).pk} r.1 r.2 ∧
      ∀ x, (r.1.account x).coins = (toyPendingState.account x).coins := by
  have haddr : ∀ pk ∈ ({(toyKey 2).pk, (toyKey 3).pk} : Set PublicKey),
      pk = (toyKey 2).pk ∧ toyExternals.getAddressFromUnSizedPK pk = toyAddress 2 ∨
      pk = (toyKey 3).pk ∧ toyExternals.getAddressFromUnSizedPK pk = toyAddress 3 := by
    rintro pk (rfl | rfl)
    · exact .inl ⟨rfl, by decide +kernel⟩
    · exact .inr ⟨rfl, by decide +kernel⟩
  have hne : toyAddress 2 ≠ toyAddress 3 := by decide
  refine updateStakeValidators_keeps ?_ ?_ ?_ ⟨?_, ?_, ?_⟩
  · intro pk hpk pk' hpk' heq
    rcases haddr pk hpk with ⟨rfl, ha⟩ | ⟨rfl, ha⟩
    · rcases haddr pk' hpk' with ⟨rfl, -⟩ | ⟨rfl, ha'⟩
      · rfl
      · exact absurd (ha.symm.trans (heq.trans ha')) hne
    · rcases haddr pk' hpk' with ⟨rfl, ha'⟩ | ⟨rfl, -⟩
      · exact absurd (ha'.symm.trans (heq.symm.trans ha)) hne
      · rfl
  · intro pk hpk
    simp only [List.mem_cons, List.not_mem_nil, or_false] at hpk
    rcases hpk with rfl | rfl | rfl
    · exact .inr rfl
    · exact .inl rfl
    · exact .inr rfl
  · intro x
    unfold toyPendingState
    rw [StateDB.getPendingStakeBalance_setStakeBalance,
      StateDB.getPendingStakeBalance_setPendingStakeBalance, Function.update_apply]
    split
    · decide
    · exact (by decide : (0 : Int) ≤ 0 ∧ (0 : Int) < 2 ^ 63)
  · exact List.nodup_singleton _
  · intro pk hpk
    exact .inr (List.mem_singleton.1 hpk)
  · intro pk hpk
    rcases haddr pk hpk with ⟨rfl, ha⟩ | ⟨rfl, ha⟩
    · rw [ha]
      exact iff_of_false (by decide) (by decide)
    · rw [ha]
      exact iff_of_true List.mem_cons_self (by decide)

section Deal

variable {n j : Nat}

theorem perm_shuffled {α : Type} (l : List α) (σ : Equiv.Perm (Fin l.length)) :
    (EpochMetaData.shuffled l σ).Perm l := by
  have hperm := σ.ofFn_comp_perm l.get
  rw [List.ofFn_get] at hperm
  exact hperm

/-- The places of the list of validators dealt to a slot, its leader's first. -/
def SlotInfo.places : Option SlotInfo → List Nat
  | none => []
  | some info => info.slotLeader :: info.attestors

/-- The entry `AllotSlots` makes for slot `j` of an epoch with `n` validators. -/
def dealtTo (n j : Nat) : Option SlotInfo :=
  if j < n then
    some { slotLeader := j
           attestors := EpochMetaData.attestorsAfter n j ((n + (100 - 1)) / 100) }
  else none

theorem length_allotSlot (i : Nat) (infos : List (Option SlotInfo)) (j : Nat) :
    (EpochMetaData.allotSlot i infos j).length = infos.length := by
  unfold EpochMetaData.allotSlot
  split
  · exact List.length_set
  · exact List.length_modify ..

theorem length_allotments (n : Nat) : (EpochMetaData.allotments n).length = 100 := by
  unfold EpochMetaData.allotments
  refine List.foldlRecOn (motive := fun infos : List (Option SlotInfo) => infos.length = 100) _ _
    List.length_replicate ?_
  intro infos hinfos i _
  refine List.foldlRecOn (motive := fun infos : List (Option SlotInfo) => infos.length = 100) _ _
    hinfos ?_
  intro infos hlength j _
  rw [length_allotSlot]
  exact hlength

theorem allotments_eq_map (hn : 0 < n) :
    EpochMetaData.allotments n = (List.range 100).map (dealtTo n) := by
  refine List.ext_getElem? fun j => ?_
  by_cases hj : j < 100
  · rw [EpochMetaData.getElem?_allotments hn hj, List.getElem?_map, List.getElem?_range hj]
    rfl
  · rw [List.getElem?_eq_none (by rw [length_allotments]; omega),
      List.getElem?_eq_none (by rw [List.length_map, List.length_range]; omega)]

theorem nodup_places (n j : Nat) (hj : j < 100) : (SlotInfo.places (dealtTo n j)).Nodup := by
  unfold dealtTo
  split
  · have hspec := EpochMetaData.attestorsAfter_spec n j ((n + (100 - 1)) / 100)
    refine List.nodup_cons.2 ⟨fun hmem => ?_, hspec.1.imp Nat.ne_of_lt⟩
    -- Attestors have places from 100 on.
    have hlow := (hspec.2 j hmem).1
    omega
  · exact List.nodup_nil

theorem mem_places_iff (hj : j < 100) (i : Nat) :
    i ∈ SlotInfo.places (dealtTo n j) ↔ i < n ∧ i % 100 = j := by
  unfold dealtTo
  split
  · rename_i hn
    unfold SlotInfo.places EpochMetaData.attestorsAfter
    simp only [List.mem_cons, List.mem_map, List.mem_filter, List.mem_range, decide_eq_true_eq]
    constructor
    · rintro (rfl | ⟨r, ⟨-, -, hless⟩, rfl⟩)
      · omega
      · omega
    · rintro ⟨hi, hmod⟩
      -- The row of a place is its quotient; row zero is the leader's.
      by_cases hrow : i / 100 = 0
      · exact .inl (by omega)
      · exact .inr ⟨i / 100, by omega, by omega⟩
  · rename_i hn
    refine iff_of_false List.not_mem_nil ?_
    rintro ⟨hi, hmod⟩
    have hle := Nat.mod_le i 100
    omega

theorem length_attestorsAfter (hn : j < n) (r : Nat) :
    (EpochMetaData.attestorsAfter n j (r + 1)).length = min r ((n - j - 1) / 100) := by
  induction r with
  | zero =>
    rw [EpochMetaData.attestorsAfter_succ, if_neg (by omega)]
    simp [EpochMetaData.attestorsAfter]
  | succ r ih =>
    rw [EpochMetaData.attestorsAfter_succ, List.length_append, ih]
    by_cases hreach : 0 < r + 1 ∧ (r + 1) * 100 + j < n
    · rw [if_pos hreach, List.length_singleton]
      omega
    · rw [if_neg hreach, List.length_nil]
      omega

theorem length_places (hj : j < 100) :
    (SlotInfo.places (dealtTo n j)).length = if j < n then 1 + (n - j - 1) / 100 else 0 := by
  unfold dealtTo
  by_cases hn : j < n
  · rw [if_pos hn, if_pos hn]
    have hrows : (n + (100 - 1)) / 100 = (n - 1) / 100 + 1 := by omega
    unfold SlotInfo.places
    rw [List.length_cons, hrows, length_attestorsAfter hn]
    omega
  · rw [if_neg hn, if_neg hn]
    rfl

theorem count_places {i : Nat} (hi : i < n) :
    (((List.range 100).map (dealtTo n)).flatMap SlotInfo.places).count i = 1 := by
  rw [List.flatMap_map]
  refine List.count_eq_one_of_mem ?_ ?_
  · -- Two slots have no place in common: a place leaves one number.
    rw [List.nodup_flatMap]
    refine ⟨fun j hj => nodup_places n j (List.mem_range.1 hj), ?_⟩
    refine List.Pairwise.imp_of_mem ?_ List.nodup_range
    intro j k hj hk hne i hij hik
    have hleft := (mem_places_iff (List.mem_range.1 hj) i).1 hij
    have hright := (mem_places_iff (List.mem_range.1 hk) i).1 hik
    exact hne (hleft.2.symm.trans hright.2)
  · have hlt := Nat.mod_lt i (by decide : 0 < 100)
    exact List.mem_flatMap.2 ⟨i % 100, List.mem_range.2 hlt, (mem_places_iff hlt i).2 ⟨hi, rfl⟩⟩

/-- `AllotSlots` on a list that is not empty returns, whatever the seed. The new list is the old
    one in another order; every slot of the epoch has its entry; every place dealt to a slot is
    one of the list; every place is dealt once; and no slot has more than one place more than
    another. -/
theorem allotSlots_fair (ext : Externals) (e : EpochMetaData) (seed : Int) (epoch : UInt64)
    (prevHash : Hash) (hne : e.validators ≠ []) :
    ∃ e', e.allotSlots ext seed epoch prevHash = .ok e' ∧ e'.validators.Perm e.validators ∧
      e'.slotInfo.length = Config.blocksPerEpoch.toNat ∧
      (∀ info ∈ e'.slotInfo, ∀ i ∈ SlotInfo.places info, i < e.validators.length) ∧
      (∀ i < e.validators.length, (e'.slotInfo.flatMap SlotInfo.places).count i = 1) ∧
      ∀ info ∈ e'.slotInfo, ∀ info' ∈ e'.slotInfo,
        (SlotInfo.places info).length ≤ (SlotInfo.places info').length + 1 := by
  have hpos : 0 < e.validators.length := List.length_pos_iff.2 hne
  unfold EpochMetaData.allotSlots
  rw [if_neg (Nat.ne_of_gt hpos), allotments_eq_map hpos]
  refine ⟨_, rfl, ?_, ?_, ?_, ?_, ?_⟩
  · exact perm_shuffled _ _
  · exact List.length_map _ |>.trans List.length_range
  · intro info hinfo i hi
    rcases List.mem_map.1 hinfo with ⟨j, hj, rfl⟩
    exact ((mem_places_iff (List.mem_range.1 hj) i).1 hi).1
  · intro i hi
    exact count_places hi
  · intro info hinfo info' hinfo'
    rcases List.mem_map.1 hinfo with ⟨j, hj, rfl⟩
    rcases List.mem_map.1 hinfo' with ⟨k, hk, rfl⟩
    rw [List.mem_range] at hj hk
    rw [length_places hj, length_places hk]
    split <;> split <;> omega

theorem toyListing_fair :
    ∃ e', ({ toyListing with validators := [(toyKey 1).pk, (toyKey 2).pk, (toyKey 3).pk] }
        : EpochMetaData).allotSlots toyExternals 7 2 zeroHash = .ok e' ∧
      ∀ i < 3, (e'.slotInfo.flatMap SlotInfo.places).count i = 1 := by
  rcases allotSlots_fair toyExternals
    { toyListing with validators := [(toyKey 1).pk, (toyKey 2).pk, (toyKey 3).pk] } 7 2 zeroHash
    (List.cons_ne_nil _ _) with ⟨e', he', -, -, -, hcount, -⟩
  exact ⟨e', he', hcount⟩

end Deal

end Zond
