import Mathlib.Data.List.FinRange
import Zond.Core.StateContext

/-!
# Slot Allotment

`AllotSlots` deals the validators of an epoch to its slots row by row, so validator
`i` gets slot `i % 100` and no other. With fewer validators than slots some slots are
dealt to nobody. Their entry is a nil pointer until the record is stored; read back,
they have the first validator as their leader. A record therefore says who signs only
for the slots that were dealt.

## Main definitions

* `Allotted`: A record as `AllotSlots` makes it, or as it is read back.
* `Seats`: A key is a validator of a slot.
-/

namespace Zond

open Outcome

variable {i j k n : Nat} {infos : List (Option SlotInfo)} {e : EpochMetaData} {slotNumber : UInt64}
variable {info : SlotInfo} {pk : PublicKey}

/-- Every validator index of a slot, with its leader, leaves the slot's number when
    divided by the length of an epoch. -/
def Dealt (n : Nat) (infos : List (Option SlotInfo)) : Prop :=
  ∀ j info, infos[j]? = some (some info) →
    ∀ i ∈ info.slotLeader :: info.attestors, i % 100 = j ∧ i < n

def Seated (infos : List (Option SlotInfo)) (j : Nat) : Prop := infos[j]? ≠ some none

namespace EpochMetaData

theorem toNat_blocksPerEpoch : Config.blocksPerEpoch.toNat = 100 := rfl

theorem getElem?_allotSlot_ne (hjk : j ≠ k) : (allotSlot i infos j)[k]? = infos[k]? := by
  unfold allotSlot
  by_cases hi : i = 0
  · rw [if_pos hi, List.getElem?_set_ne hjk]
  · rw [if_neg hi, List.getElem?_modify_ne _ _ hjk]

theorem getElem?_allotSlot_self : (allotSlot i infos j)[j]? = infos[j]?.map (fun info =>
      if i = 0 then some { slotLeader := j, attestors := [] }
      else info.map (fun info =>
        { info with attestors := info.attestors ++ [i * 100 + j] })) := by
  unfold allotSlot
  by_cases hi : i = 0
  · subst hi
    rw [if_pos rfl, List.getElem?_set_self', Nat.zero_add]
    rfl
  · simp only [if_neg hi, List.getElem?_modify_eq, toNat_blocksPerEpoch]
    rfl

theorem dealt_allotSlot (h : Dealt n infos)
    (hj : j < 100) (hn : j < n - i * 100) : Dealt n (allotSlot i infos j) := by
  intro k info hget
  by_cases hjk : j = k
  · subst hjk
    rw [getElem?_allotSlot_self] at hget
    rcases Option.map_eq_some_iff.1 hget with ⟨old, hold, hnew⟩
    by_cases hi : i = 0
    · rw [if_pos hi, Option.some.injEq] at hnew
      subst hnew
      intro x hx
      have hxj : x = j := List.mem_singleton.1 hx
      omega
    · rw [if_neg hi] at hnew
      rcases Option.map_eq_some_iff.1 hnew with ⟨info₀, rfl, rfl⟩
      intro x hx
      rw [List.mem_cons, List.mem_append, List.mem_singleton] at hx
      rcases hx with hx | hx | hx
      · exact h j info₀ hold x (hx ▸ List.mem_cons_self)
      · exact h j info₀ hold x (List.mem_cons_of_mem _ hx)
      · omega
  · rw [getElem?_allotSlot_ne hjk] at hget
    exact h k info hget

theorem seated_allotSlot (h : Seated infos k) : Seated (allotSlot i infos j) k := by
  intro hnone
  by_cases hjk : j = k
  · subst hjk
    rw [getElem?_allotSlot_self] at hnone
    rcases Option.map_eq_some_iff.1 hnone with ⟨old, hold, hnew⟩
    by_cases hi : i = 0
    · rw [if_pos hi] at hnew
      cases hnew
    · rw [if_neg hi, Option.map_eq_none_iff] at hnew
      exact h (hnew ▸ hold)
  · rw [getElem?_allotSlot_ne hjk] at hnone
    exact h hnone

theorem seated_allotSlot_self : Seated (allotSlot 0 infos j) j := by
  intro hnone
  rw [getElem?_allotSlot_self] at hnone
  rcases Option.map_eq_some_iff.1 hnone with ⟨old, hold, hnew⟩
  cases hnew

theorem dealt_allotments (n : Nat) : Dealt n (allotments n) := by
  unfold allotments
  refine List.foldlRecOn _ _ ?_ ?_
  · intro j info hget
    rw [List.getElem?_replicate] at hget
    split at hget
    · cases hget
    · cases hget
  · intro infos hinfos i _
    refine List.foldlRecOn _ _ hinfos ?_
    intro infos hdealt j hj
    rw [List.mem_range, toNat_blocksPerEpoch] at hj
    exact dealt_allotSlot hdealt (by omega) (by omega)

theorem seated_row {l : List Nat} (h : Seated infos k) : Seated (l.foldl (allotSlot i) infos) k :=
  List.foldlRecOn (motive := fun infos => Seated infos k) l _ h
    (fun _ hs _ _ => seated_allotSlot hs)

theorem seated_firstRow {l : List Nat} (hk : k ∈ l) : Seated (l.foldl (allotSlot 0) infos) k := by
  induction l generalizing infos with
  | nil => cases hk
  | cons j rest ih =>
    rw [List.foldl_cons]
    rcases List.mem_cons.1 hk with rfl | hk
    · exact seated_row seated_allotSlot_self
    · exact ih hk

theorem seated_allotments (hk : k < n) (hlt : k < 100) : Seated (allotments n) k := by
  unfold allotments
  simp only [toNat_blocksPerEpoch]
  -- There is a first row, and no later one takes an entry away.
  have hrows : (n + (100 - 1)) / 100 = (n + (100 - 1)) / 100 - 1 + 1 := by omega
  rw [hrows, List.range_succ_eq_map, List.foldl_cons]
  refine List.foldlRecOn (motive := fun infos => Seated infos k) _ _ ?_
    (fun _ hs _ _ => seated_row hs)
  exact seated_firstRow (List.mem_range.2 (by omega))

theorem getElem?_row (i m : Nat) (infos : List (Option SlotInfo)) (j : Nat) :
    ((List.range m).foldl (allotSlot i) infos)[j]? =
      if j < m then (allotSlot i infos j)[j]? else infos[j]? := by
  induction m with
  | zero => rw [List.range_zero, List.foldl_nil, if_neg (Nat.not_lt_zero j)]
  | succ m ih =>
    rw [List.range_succ, List.foldl_append, List.foldl_cons, List.foldl_nil]
    by_cases hj : m = j
    · subst hj
      rw [if_neg (Nat.lt_irrefl m)] at ih
      rw [if_pos (Nat.lt_succ_self m), getElem?_allotSlot_self, ih, getElem?_allotSlot_self]
    · rw [getElem?_allotSlot_ne hj, ih]
      by_cases hlt : j < m
      · rw [if_pos hlt, if_pos (by omega)]
      · rw [if_neg hlt, if_neg (by omega)]

/-- The attestors of slot `j` after `r` rows: one for every row but the first that
    reaches it. -/
def attestorsAfter (n j r : Nat) : List Nat :=
  ((List.range r).filter (fun i => 0 < i ∧ i * 100 + j < n)).map (fun i => i * 100 + j)

theorem attestorsAfter_succ (n j r : Nat) : attestorsAfter n j (r + 1) =
    attestorsAfter n j r ++ (if 0 < r ∧ r * 100 + j < n then [r * 100 + j] else []) := by
  unfold attestorsAfter
  rw [List.range_succ, List.filter_append, List.map_append]
  by_cases hr : 0 < r ∧ r * 100 + j < n
  · rw [if_pos hr, List.filter_cons, if_pos (decide_eq_true hr)]
    rfl
  · have hskip : ¬decide (0 < r ∧ r * 100 + j < n) = true := by rwa [decide_eq_true_eq]
    rw [if_neg hr, List.filter_cons, if_neg hskip]
    rfl

theorem getElem?_rows (n r : Nat) (hj : j < 100) : ((List.range (r + 1)).foldl (fun infos i =>
      (List.range (min 100 (n - i * 100))).foldl (allotSlot i) infos)
      (List.replicate 100 none))[j]? = some (if j < n then
        some { slotLeader := j, attestors := attestorsAfter n j (r + 1) } else none) := by
  induction r with
  | zero =>
    rw [List.range_one, List.foldl_cons, List.foldl_nil, getElem?_row]
    by_cases hn : j < n
    · rw [if_pos (by omega), getElem?_allotSlot_self, List.getElem?_replicate, if_pos hj,
        Option.map_some, if_pos rfl, if_pos hn]
      rfl
    · rw [if_neg (by omega), List.getElem?_replicate, if_pos hj, if_neg hn]
  | succ r ih =>
    rw [List.range_succ, List.foldl_append, List.foldl_cons, List.foldl_nil, getElem?_row,
      getElem?_allotSlot_self, ih, attestorsAfter_succ n j (r + 1)]
    by_cases hreach : j < min 100 (n - (r + 1) * 100)
    · have hn : j < n := by omega
      have hrow : 0 < r + 1 ∧ (r + 1) * 100 + j < n := by omega
      rw [if_pos hreach, if_pos hn, if_pos hn, if_pos hrow, Option.map_some,
        if_neg (Nat.succ_ne_zero r)]
      rfl
    · have hrow : ¬(0 < r + 1 ∧ (r + 1) * 100 + j < n) := by omega
      rw [if_neg hreach, if_neg hrow, List.append_nil]

theorem getElem?_allotments (hn : 0 < n) (hj : j < 100) : (allotments n)[j]? = some (if j < n then
      some { slotLeader := j, attestors := attestorsAfter n j ((n + (100 - 1)) / 100) }
      else none) := by
  unfold allotments
  simp only [toNat_blocksPerEpoch]
  have hrows : (n + (100 - 1)) / 100 = (n + (100 - 1)) / 100 - 1 + 1 := by omega
  rw [hrows]
  exact getElem?_rows n _ hj

theorem attestorsAfter_spec (n j r : Nat) :
    (attestorsAfter n j r).Pairwise (· < ·) ∧ ∀ i ∈ attestorsAfter n j r, 100 ≤ i ∧ i < n := by
  constructor
  · refine List.pairwise_map.2 ((List.pairwise_lt_range.filter _).imp ?_)
    omega
  · intro i hi
    rcases List.mem_map.1 hi with ⟨k, hk, rfl⟩
    have hrow := of_decide_eq_true (List.mem_filter.1 hk).2
    omega

/-- A record as `AllotSlots` makes it, or as it is read back from the store. -/
structure Allotted (e : EpochMetaData) : Prop where
  nonempty : 0 < e.validators.length
  nodup : e.validators.Nodup
  slots : e.slotInfo = allotments e.validators.length ∨
    e.slotInfo = (allotments e.validators.length).map
      (fun info => some (info.getD { slotLeader := 0, attestors := [] }))

/-- The key is a validator of slot `j` of the epoch. -/
def Seats (e : EpochMetaData) (j : Nat) (pk : PublicKey) : Prop :=
  ∃ i, e.validators[i]? = some pk ∧ i % 100 = j

def slotIndex (slotNumber : UInt64) : Nat := (slotNumber % Config.blocksPerEpoch).toNat

theorem slotIndex_eq (slotNumber : UInt64) : slotIndex slotNumber = slotNumber.toNat % 100 := by
  unfold slotIndex
  rw [UInt64.toNat_mod]
  rfl

theorem slotInfoAt_eq_ok : e.slotInfoAt slotNumber = .ok info ↔
    e.slotInfo[slotIndex slotNumber]? = some (some info) := by
  unfold slotInfoAt slotIndex
  split <;> rename_i hentry <;> rw [hentry] <;> simp

theorem slotIndex_lt (hfresh : e.slotInfo = allotments e.validators.length)
    (h : e.slotInfoAt slotNumber = .ok info) : slotIndex slotNumber < e.validators.length := by
  have hget := slotInfoAt_eq_ok.1 h
  rw [hfresh] at hget
  have hleader := dealt_allotments _ _ _ hget _ List.mem_cons_self
  have hmod := Nat.mod_le info.slotLeader 100
  omega

theorem Allotted.dealt (ha : e.Allotted) (hlt : slotIndex slotNumber < e.validators.length)
    (h : e.slotInfoAt slotNumber = .ok info) :
    ∀ i ∈ info.slotLeader :: info.attestors, i % 100 = slotIndex slotNumber := by
  have hget := slotInfoAt_eq_ok.1 h
  have hbound : slotIndex slotNumber < 100 := by
    rw [slotIndex_eq]
    exact Nat.mod_lt _ (by decide)
  -- Read back or not, the entry of a dealt slot is the one that was dealt.
  have hentry : (allotments e.validators.length)[slotIndex slotNumber]? = some (some info) := by
    rcases ha.slots with hfresh | hstored
    · rwa [hfresh] at hget
    · rw [hstored, List.getElem?_map] at hget
      rcases Option.map_eq_some_iff.1 hget with ⟨entry, hentry, hinfo⟩
      rw [Option.some.injEq] at hinfo
      cases entry with
      | none => exact absurd hentry (seated_allotments hlt hbound)
      | some dealt =>
        rw [Option.getD_some] at hinfo
        rw [hentry, hinfo]
  intro i hi
  exact (dealt_allotments _ _ _ hentry i hi).1

theorem validatorAt_eq_ok : e.validatorAt i = .ok pk ↔ e.validators[i]? = some pk := orFail_eq_ok

theorem seats_of_initialFlags (ha : e.Allotted)
    {flags : AssocMap PublicKey Bool} (hslot : slotNumber ≠ 0)
    (hlt : slotIndex slotNumber < e.validators.length)
    (h : StateContext.initialFlags slotNumber e = .ok flags) {pk : PublicKey} {v : Bool}
    (hpk : flags.get pk = some v) : e.Seats (slotIndex slotNumber) pk := by
  unfold StateContext.initialFlags at h
  rw [if_neg hslot] at h
  rcases bind_eq_ok.1 h with ⟨info, hinfo, h⟩
  rcases bind_eq_ok.1 h with ⟨attestors, hattestors, h⟩
  rcases bind_eq_ok.1 h with ⟨leader, hleader, h⟩
  rw [pure_eq_ok] at h
  subst h
  have hdealt := ha.dealt hlt hinfo
  rw [AssocMap.get_put] at hpk
  by_cases hl : leader = pk
  · exact ⟨info.slotLeader, validatorAt_eq_ok.1 (hl ▸ hleader), hdealt _ List.mem_cons_self⟩
  · rw [if_neg hl] at hpk
    rw [AssocMap.get_foldl_put_const] at hpk
    by_cases hmem : pk ∈ attestors
    · rcases exists_of_mem_mapM hattestors hmem with ⟨i, hi, hget⟩
      exact ⟨i, validatorAt_eq_ok.1 hget, hdealt i (List.mem_cons_of_mem _ hi)⟩
    · rw [if_neg hmem] at hpk
      cases hpk

theorem seats_disjoint (hnodup : e.validators.Nodup)
    (hj : e.Seats j pk) (hk : e.Seats k pk) : j = k := by
  rcases hj with ⟨i, hi, rfl⟩
  rcases hk with ⟨i', hi', rfl⟩
  have hlt : i < e.validators.length := (List.getElem?_eq_some_iff.1 hi).1
  have hsame : i = i' := (List.getElem?_inj hlt hnodup).1 (hi.trans hi'.symm)
  rw [hsame]

theorem length_shuffled {α : Type} (l : List α) (σ : Equiv.Perm (Fin l.length)) :
    (shuffled l σ).length = l.length := List.length_ofFn

theorem nodup_shuffled {α : Type} {l : List α} (h : l.Nodup) (σ : Equiv.Perm (Fin l.length)) :
    (shuffled l σ).Nodup := by
  refine List.nodup_ofFn.2 ?_
  intro i j hij
  exact σ.injective (List.nodup_iff_injective_get.1 h hij)

theorem allotted_allotSlots {ext : Externals} {e' : EpochMetaData} {seed : Int}
    {epoch : UInt64} {prevHash : Hash} (hnodup : e.validators.Nodup)
    (h : e.allotSlots ext seed epoch prevHash = .ok e') :
    e'.Allotted ∧ e'.slotInfo = allotments e'.validators.length ∧ e'.epoch = epoch ∧
      e'.prevSlotLastBlockHeaderHash = prevHash ∧
      e'.totalStakeAmountFound = e.totalStakeAmountFound ∧
      e'.totalStakeAmountAlloted = e.totalStakeAmountAlloted := by
  unfold allotSlots at h
  split at h
  · cases h
  · rename_i hsome
    cases h
    have hlength := length_shuffled e.validators (ext.shuffle seed e.validators.length)
    have hpos : 0 < (shuffled e.validators (ext.shuffle seed e.validators.length)).length := by
      rw [hlength]
      exact Nat.pos_of_ne_zero hsome
    have hslots : allotments e.validators.length = allotments (shuffled e.validators
        (ext.shuffle seed e.validators.length)).length := by rw [hlength]
    exact ⟨⟨hpos, nodup_shuffled hnodup _, .inl hslots⟩, hslots, rfl, rfl, rfl, rfl⟩

theorem Allotted.stored (h : e.Allotted) : e.stored.Allotted := by
  refine ⟨h.nonempty, h.nodup, .inr ?_⟩
  rcases h.slots with hfresh | hstored
  · exact congrArg _ hfresh
  · unfold EpochMetaData.stored
    rw [hstored, List.map_map]
    rfl

theorem Nodup.addValidators (h : e.validators.Nodup) (pk : PublicKey) :
    (e.addValidators pk).validators.Nodup := by
  unfold EpochMetaData.addValidators
  by_cases hmem : pk ∈ e.validators
  · rwa [if_pos hmem]
  · rw [if_neg hmem]
    refine List.nodup_append.2 ⟨h, List.nodup_singleton pk, ?_⟩
    intro a ha b hb hab
    exact hmem (List.mem_singleton.1 hb ▸ hab ▸ ha)

theorem Nodup.removeValidators (h : e.validators.Nodup) (pk : PublicKey) :
    (e.removeValidators pk).validators.Nodup := h.erase pk

end EpochMetaData

end Zond
