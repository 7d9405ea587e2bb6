import Zond.Core.Producer
import Zond.Theory.Allotment

/-!
# Slot Leaders

`AllotSlots` makes an entry for as many slots as there are validators in its first
row. Whoever reads the record afterwards indexes it by slot and reads the entry
without a test: `NewSlotValidatorsMetaData`, `NewStateContext` and
`ProcessBlockProposerFlag`.

## Main definitions

* `Led`: A slot has an entry, and its leader is a validator.

## Theorems

* `EpochMetaData.every_slot_led_iff`: All slots are led if there are as many validators.
-/

namespace Zond

open Outcome

section Flags

variable {c : Crypto} {ctx : StateContext} {pk : PublicKey} {stakeBalance : Int}

theorem processValidatorStakeAmount_ok (hstake : (Config.stakeAmount.toNat : Int) ≤ stakeBalance) :
    ∃ ctx', ctx.processValidatorStakeAmount c pk stakeBalance = .ok ctx' := by
  refine ⟨_, errorIf_bind_eq_ok.2 ⟨?_, rfl⟩⟩
  exact Int.not_lt.2 hstake

theorem processBlockProposerFlag_ok {info : SlotInfo}
    (hinfo : ctx.epochMetaData.slotInfoAt ctx.slotNumber = .ok info)
    (hleader : ctx.epochMetaData.validatorAt info.slotLeader = .ok pk)
    (hflag : ctx.validatorsFlag.get pk = some false)
    (hstake : (Config.stakeAmount.toNat : Int) ≤ stakeBalance) :
    ∃ ctx', ctx.processBlockProposerFlag c pk stakeBalance = .ok ctx' := by
  unfold StateContext.processBlockProposerFlag
  split
  · exact ⟨_, rfl⟩
  · rw [hinfo, ok_bind, hleader, ok_bind,
      show errorIf (pk ≠ pk) Err.unexpectedBlockProposer = .ok () from
        errorIf_eq_ok.2 (fun hne => hne rfl), ok_bind, hflag]
    exact processValidatorStakeAmount_ok hstake

end Flags

namespace EpochMetaData

/-- Slot `j` of the epoch has an entry, and its leader is a validator. -/
def Led (e : EpochMetaData) (j : Nat) : Prop :=
  ∃ info pk, e.slotInfo[j]? = some (some info) ∧ e.validators[info.slotLeader]? = some pk

/-- What reads the record for a slot succeeds: the list of the slot's validators, the
    context of a block in the slot on any store with a chain, and counting the leader
    with its stake. Any other key is refused with an error. -/
def Served (ext : Externals) (e : EpochMetaData) (slotNumber : UInt64) : Prop :=
  ∃ validators, SlotValidatorsMetaData.new slotNumber e = .ok validators ∧
    validators.IsSlotLeader validators.slotLeaderPK ∧
    ∀ (db : Store) (parentHash hash partialHash signingHash : Hash),
      db.mainChainMetaData ≠ none → ∃ ctx,
        StateContext.new db slotNumber parentHash hash partialHash signingHash e = .ok ctx ∧
        ∀ (pk : PublicKey) (stakeBalance : Int),
          Outcome.FailsOnly Failure.Returned
            (ctx.processBlockProposerFlag ext.toCrypto pk stakeBalance) ∧
          (pk = validators.slotLeaderPK → (Config.stakeAmount.toNat : Int) ≤ stakeBalance →
            ∃ ctx', ctx.processBlockProposerFlag ext.toCrypto pk stakeBalance = .ok ctx')

section Fresh

variable {ext : Externals} {e : EpochMetaData} {slotNumber : UInt64}
variable {info : SlotInfo}

theorem led_iff (hslots : e.slotInfo = allotments e.validators.length)
    (hn : 0 < e.validators.length) {j : Nat} (hj : j < 100) :
    e.Led j ↔ j < e.validators.length := by
  unfold Led
  rw [hslots, getElem?_allotments hn hj]
  constructor
  · rintro ⟨info, pk, hinfo, -⟩
    by_contra hout
    rw [if_neg hout] at hinfo
    cases hinfo
  · intro hlt
    rw [if_pos hlt]
    exact ⟨_, e.validators[j], rfl, List.getElem?_eq_getElem hlt⟩

theorem slotInfoAt_of_fresh (hslots : e.slotInfo = allotments e.validators.length)
    (hlt : slotIndex slotNumber < e.validators.length) :
    ∃ info, e.slotInfoAt slotNumber = .ok info ∧ info.slotLeader = slotIndex slotNumber ∧
      ∀ i ∈ info.attestors, 100 ≤ i ∧ i < e.validators.length := by
  have hj : slotIndex slotNumber < 100 := by
    rw [slotIndex_eq]
    exact Nat.mod_lt _ (by decide)
  have hget := getElem?_allotments (Nat.zero_lt_of_lt hlt) hj
  rw [if_pos hlt, ← hslots] at hget
  have hspec := (attestorsAfter_spec e.validators.length (slotIndex slotNumber)
    ((e.validators.length + (100 - 1)) / 100)).2
  generalize attestorsAfter e.validators.length (slotIndex slotNumber)
    ((e.validators.length + (100 - 1)) / 100) = attestors at hget hspec
  refine ⟨{ slotLeader := slotIndex slotNumber, attestors := attestors }, ?_, rfl, hspec⟩
  unfold slotIndex at hget
  unfold slotInfoAt
  rw [hget]
  rfl

theorem leader_notMem (hnodup : e.validators.Nodup) {pk : PublicKey}
    {attestors : List PublicKey} (hleader : info.slotLeader < 100)
    (hpk : e.validatorAt info.slotLeader = .ok pk) (hlater : ∀ i ∈ info.attestors, 100 ≤ i)
    (hattestors : info.attestors.mapM e.validatorAt = .ok attestors) : pk ∉ attestors := by
  intro hmem
  rcases exists_of_mem_mapM hattestors hmem with ⟨i, hi, hget⟩
  rw [validatorAt_eq_ok] at hpk hget
  have hlt : i < e.validators.length := (List.getElem?_eq_some_iff.1 hget).1
  have hsame : i = info.slotLeader := (List.getElem?_inj hlt hnodup).1 (hget.trans hpk.symm)
  have hrow := hlater i hi
  omega

theorem failsOnly_processBlockProposerFlag {ctx : StateContext}
    {leader : PublicKey} (hinfo : ctx.epochMetaData.slotInfoAt ctx.slotNumber = .ok info)
    (hleader : ctx.epochMetaData.validatorAt info.slotLeader = .ok leader) (pk : PublicKey)
    (stakeBalance : Int) : Outcome.FailsOnly Failure.Returned
      (ctx.processBlockProposerFlag ext.toCrypto pk stakeBalance) := by
  unfold StateContext.processBlockProposerFlag
  split
  · exact failsOnly_ok _
  · rw [hinfo, ok_bind, hleader, ok_bind]
    refine (failsOnly_errorIf _ _).bind fun _ _ => ?_
    split
    · rintro f ⟨⟩
      exact ⟨_, rfl⟩
    · rintro f ⟨⟩
      exact ⟨_, rfl⟩
    · unfold StateContext.processValidatorStakeAmount
      exact (failsOnly_errorIf _ _).bind fun _ _ => failsOnly_pure _

theorem stateContext_of_slot {leader : PublicKey} {attestors : List PublicKey}
    (hinfo : e.slotInfoAt slotNumber = .ok info) (hpk : e.validatorAt info.slotLeader = .ok leader)
    (hattestors : info.attestors.mapM e.validatorAt = .ok attestors) {db : Store}
    (hdb : db.mainChainMetaData ≠ none) (parentHash hash partialHash signingHash : Hash) :
    ∃ ctx, StateContext.new db slotNumber parentHash hash partialHash signingHash e = .ok ctx ∧
      ctx.slotNumber = slotNumber ∧ ctx.epochMetaData = e ∧
      (slotNumber ≠ 0 → ctx.validatorsFlag.get leader = some false) := by
  rcases Option.ne_none_iff_exists'.1 hdb with ⟨m, hm⟩
  have hmain : db.getMainChainMetaData = .ok m := orFail_eq_ok.2 hm
  unfold StateContext.new StateContext.initialFlags
  rw [hmain, ok_bind]
  by_cases hzero : slotNumber = 0
  · rw [if_pos hzero]
    exact ⟨_, rfl, rfl, rfl, fun hne => absurd hzero hne⟩
  · rw [if_neg hzero, hinfo, ok_bind, hattestors, ok_bind, hpk]
    exact ⟨_, rfl, rfl, rfl, fun _ => AssocMap.get_put_self _ _ _⟩

theorem served_of_led (hslots : e.slotInfo = allotments e.validators.length)
    (hnodup : e.validators.Nodup) (hlt : slotIndex slotNumber < e.validators.length) :
    Served ext e slotNumber := by
  rcases slotInfoAt_of_fresh hslots hlt with ⟨info, hinfo, hleader, hrange⟩
  have hpk : e.validatorAt info.slotLeader = .ok e.validators[slotIndex slotNumber] := by
    rw [validatorAt_eq_ok, hleader]
    exact List.getElem?_eq_getElem hlt
  generalize e.validators[slotIndex slotNumber] = leader at hpk
  have hseats : ∀ i ∈ info.attestors, ∃ pk, e.validatorAt i = .ok pk := fun i hi =>
    ⟨_, validatorAt_eq_ok.2 (List.getElem?_eq_getElem (hrange i hi).2)⟩
  rcases exists_mapM hseats with ⟨attestors, hattestors⟩
  have hbound : info.slotLeader < 100 := by
    rw [hleader, slotIndex_eq]
    exact Nat.mod_lt _ (by decide)
  have hapart := leader_notMem hnodup hbound hpk (fun i hi => (hrange i hi).1) hattestors
  have hnew : SlotValidatorsMetaData.new slotNumber e = .ok
      { slotLeaderPK := leader
        validatorsType := attestors.foldl (fun m pk => m.put pk false)
          (AssocMap.empty.put leader true) } := by
    unfold SlotValidatorsMetaData.new
    rw [hinfo, ok_bind, hpk, ok_bind, hattestors]
    rfl
  refine ⟨_, hnew, ?_, ?_⟩
  · change AssocMap.get (attestors.foldl (fun m pk => m.put pk false)
      (AssocMap.empty.put leader true)) leader = some true
    have hkeys : leader ∉ attestors.map (fun pk => pk) := by rwa [List.map_id']
    exact (AssocMap.get_foldl_put_of_not_mem _ _ hkeys).trans (AssocMap.get_put_self _ _ _)
  · intro db parentHash hash partialHash signingHash hdb
    rcases stateContext_of_slot hinfo hpk hattestors hdb parentHash hash partialHash signingHash with
      ⟨ctx, hctx, hslot, hepoch, hflag⟩
    have hentry : ctx.epochMetaData.slotInfoAt ctx.slotNumber = .ok info := by
      rw [hepoch, hslot]
      exact hinfo
    have hled : ctx.epochMetaData.validatorAt info.slotLeader = .ok leader := by
      rw [hepoch]
      exact hpk
    refine ⟨ctx, hctx, fun pk stakeBalance => ⟨?_, ?_⟩⟩
    · exact failsOnly_processBlockProposerFlag hentry hled pk stakeBalance
    · rintro rfl hstake
      by_cases hzero : slotNumber = 0
      · refine ⟨ctx, ?_⟩
        unfold StateContext.processBlockProposerFlag
        rw [if_pos (hslot.trans hzero)]
      · exact processBlockProposerFlag_ok hentry hled (hflag hzero) hstake

end Fresh

theorem exists_allotSlots (ext : Externals) (e : EpochMetaData) (seed : Int) (epoch : UInt64)
    (prevHash : Hash) (hne : e.validators.length ≠ 0) :
    ∃ e', e.allotSlots ext seed epoch prevHash = .ok e' ∧
      e'.slotInfo = allotments e.validators.length ∧
      e'.validators.length = e.validators.length :=
  ⟨_, if_neg hne, rfl, length_shuffled _ _⟩

/-- After `AllotSlots` on any list of distinct validators, every one of the hundred slots
    has a leader, and whatever reads the record for a slot of the epoch succeeds, exactly
    if there are at least as many validators as slots. -/
theorem every_slot_led_iff (ext : Externals) (e : EpochMetaData) (seed : Int) (epoch : UInt64)
    (prevHash : Hash) (hne : e.validators ≠ []) (hnodup : e.validators.Nodup) :
    ∃ e', e.allotSlots ext seed epoch prevHash = .ok e' ∧
      (((∀ j < Config.blocksPerEpoch.toNat, e'.Led j) ∧
          ∀ slotNumber, epochOf slotNumber = epoch → Served ext e' slotNumber) ↔
        Config.blocksPerEpoch.toNat ≤ e.validators.length) := by
  have hpos : e.validators.length ≠ 0 := fun h => hne (List.length_eq_zero_iff.1 h)
  rcases exists_allotSlots ext e seed epoch prevHash hpos with ⟨e', hallot, -, hlength⟩
  refine ⟨e', hallot, ?_⟩
  rcases allotted_allotSlots hnodup hallot with ⟨hallotted, hslots, -⟩
  rw [toNat_blocksPerEpoch, ← hlength]
  constructor
  · rintro ⟨hled, -⟩
    by_contra hshort
    -- The first slot past the last validator has no leader.
    exact Nat.lt_irrefl _ ((led_iff hslots hallotted.nonempty (Nat.not_le.1 hshort)).1
      (hled _ (Nat.not_le.1 hshort)))
  · intro hfull
    refine ⟨fun j hj => ?_, fun slotNumber _ => ?_⟩
    · exact (led_iff hslots hallotted.nonempty hj).2 (Nat.lt_of_lt_of_le hj hfull)
    · refine served_of_led hslots hallotted.nodup ?_
      rw [slotIndex_eq]
      exact Nat.lt_of_lt_of_le (Nat.mod_lt _ (by decide)) hfull

def toyValidators (n : Nat) : EpochMetaData :=
  EpochMetaData.new 0 zeroHash ((List.range n).map (fun i => [UInt8.ofNat i]))

theorem toyValidators_led : (toyValidators 100).validators ≠ [] ∧
    (toyValidators 100).validators.Nodup ∧
    ∃ e', (toyValidators 100).allotSlots toyExternals 7 3 zeroHash = .ok e' ∧
      (∀ j < Config.blocksPerEpoch.toNat, e'.Led j) ∧
      ∀ slotNumber, epochOf slotNumber = 3 → Served toyExternals e' slotNumber := by
  have hne : (toyValidators 100).validators ≠ [] := by decide +kernel
  have hnodup : (toyValidators 100).validators.Nodup := by decide +kernel
  rcases every_slot_led_iff toyExternals (toyValidators 100) 7 3 zeroHash hne hnodup with
    ⟨e', hallot, hiff⟩
  exact ⟨hne, hnodup, e', hallot, hiff.2 (by decide +kernel)⟩

/-- With 99 validators the last slot of the epoch has a nil entry. Whoever reads it stops
    the node: the list of the slot's validators, the context of a block in the slot, and
    counting its proposer. -/
theorem lastSlot_unled : ∃ e', (toyValidators 99).allotSlots toyExternals 7 3 zeroHash = .ok e' ∧
    ¬e'.Led 99 ∧
    SlotValidatorsMetaData.new 399 e' = .error (.panic .nilDereference) ∧
    StateContext.initialFlags 399 e' = .error (.panic .nilDereference) ∧
    ∀ (db : Store) (m : MainChainMetaData), db.mainChainMetaData = some m →
      StateContext.new db 399 zeroHash zeroHash zeroHash zeroHash e' =
        .error (.panic .nilDereference) := by
  have hlength : (toyValidators 99).validators.length = 99 := by decide +kernel
  have hsome : (toyValidators 99).validators.length ≠ 0 := by
    rw [hlength]
    decide
  rcases exists_allotSlots toyExternals (toyValidators 99) 7 3 zeroHash hsome with
    ⟨e', hallot, hslots, -⟩
  rw [hlength] at hslots
  have hinfo : e'.slotInfoAt 399 = .error (.panic .nilDereference) := by
    unfold slotInfoAt
    rw [hslots]
    decide +kernel
  have hflags : StateContext.initialFlags 399 e' = .error (.panic .nilDereference) := by
    unfold StateContext.initialFlags
    rw [if_neg (by decide), hinfo]
    rfl
  refine ⟨e', hallot, ?_, ?_, hflags, ?_⟩
  · rintro ⟨info, pk, hget, -⟩
    have hnil : (allotments 99)[99]? = some none := by decide +kernel
    rw [hslots, hnil] at hget
    cases hget
  · unfold SlotValidatorsMetaData.new
    rw [hinfo]
    rfl
  · intro db m hm
    have hmain : db.getMainChainMetaData = .ok m := orFail_eq_ok.2 hm
    unfold StateContext.new
    rw [hmain, ok_bind, hflags]
    rfl

end EpochMetaData

end Zond
