import Zond.Theory.Boundary
import Zond.Theory.Funding

/-!
# Entering the Next Epoch

The record of a new epoch is computed from the blocks of the epoch it closes. The computation
ends with an error if a signer of one of them has no stake in the parent's state, and with a
panic if no validator is left to give the slots to.

## Main definitions

* `Remains`: A key is a validator afterwards.

## Theorems

* `nextEpoch_iff`: In every run of proper blocks the record returns exactly if one is.
-/

namespace Zond

open Outcome StateDB

section Branches

variable {ext : Externals} {g : Block} {c : Chain}

theorem exists_record (hi : Recalled ext g c) {k : Hash} {b : Block}
    (hk : c.db.blocks.get k = some b) : ∃ bm, c.db.getBlockMetaData k = .ok bm ∧
      bm.headerHash = k ∧ bm.slotNumber = b.slotNumber ∧ bm.parentHeaderHash = b.parentHash := by
  rcases hi.sound.recorded k b hk with ⟨r, hr, hparent, hslot⟩
  rcases Option.map_eq_some_iff.1 hr with ⟨bm, hget, rfl⟩
  exact ⟨bm, orFail_eq_ok.2 hget, hi.sound.keyed k bm hget, hslot, hparent⟩

theorem exists_epochPath (hi : Recalled ext g c) {rank : Hash → Nat}
    (hrank : ∀ k r p, c.db.core k = some r → c.db.core r.parentHeaderHash = some p →
      rank r.parentHeaderHash < rank k) (epoch : UInt64) {k : Hash} {bs : List Block}
    (hbranch : c.db.Branch g.hash k bs) {bm : BlockMetaData}
    (hbm : c.db.getBlockMetaData k = .ok bm) {fuel : Nat} (hfuel : rank k < fuel) :
    ∃ path, Chain.epochPath c.db epoch fuel bm = .ok path ∧
      path.map c.db.blocks.get = (closing epoch bs).map some := by
  induction hbranch generalizing bm fuel with
  | @root b hb =>
    rcases exists_record hi hb with ⟨bm', hbm', hhash, hslot, -⟩
    cases hbm.symm.trans hbm'
    rcases hi.genesis with ⟨x, hx, hzero, -⟩
    rw [hb, Option.some.injEq] at hx
    rcases Nat.exists_eq_succ_of_ne_zero (Nat.ne_of_gt (Nat.zero_lt_of_lt hfuel)) with ⟨n, rfl⟩
    rw [Chain.epochPath, hslot, ← Block.epoch]
    by_cases hepoch : b.epoch = epoch
    · rw [if_pos hepoch, if_pos (hx ▸ hzero), hhash]
      refine ⟨[g.hash], rfl, ?_⟩
      rw [← List.nil_append [b], closing_append [] hepoch, List.map_singleton, hb]
      rfl
    · rw [if_neg hepoch, ← List.nil_append [b], closing_append_ne [] hepoch]
      exact ⟨[], rfl, rfl⟩
  | @grow k b bs hk hb hbefore ih =>
    rcases exists_record hi hb with ⟨bm', hbm', hhash, hslot, hparent⟩
    cases hbm.symm.trans hbm'
    rcases hi.slots k b hb hk with ⟨p, hp, hlt⟩
    rcases exists_record hi hp with ⟨pm, hpm, -⟩
    rcases Nat.exists_eq_succ_of_ne_zero (Nat.ne_of_gt (Nat.zero_lt_of_lt hfuel)) with ⟨n, rfl⟩
    rw [Chain.epochPath, hslot, hparent, ← Block.epoch]
    by_cases hepoch : b.epoch = epoch
    · rw [if_pos hepoch, if_neg (slotNumber_ne_zero hlt), closing_append bs hepoch, hpm, hhash]
      -- The parent's record is lower, so there is fuel left for it.
      have hcore := Store.core_of_get (orFail_eq_ok.1 hbm)
      have hsame : bm.core.parentHeaderHash = b.parentHash := hparent
      have hlower := hrank k _ pm.core hcore
        (by rw [hsame]; exact Store.core_of_get (orFail_eq_ok.1 hpm))
      rw [hsame] at hlower
      rcases ih hpm (Nat.lt_of_lt_of_le hlower (Nat.le_of_lt_succ hfuel)) with ⟨path, hpath, hmap⟩
      refine ⟨k :: path, ?_, ?_⟩
      · rw [ok_bind, hpath, ok_bind]
        rfl
      · rw [List.map_cons, List.map_cons, hb, hmap]
    · rw [if_neg hepoch, closing_append_ne bs hepoch]
      exact ⟨[], rfl, rfl⟩

end Branches

/-- The keys a block updates. Genesis was accounted for when it was committed. -/
def Block.updates (b : Block) : List PublicKey :=
  if b.slotNumber = 0 then [] else b.getPendingValidatorsUpdate

def restakes (blocks : List Block) (pk : PublicKey) : Nat :=
  blocks.countP (fun b => decide (pk ∈ b.updates))

/-- A key that is a validator when the epoch of the blocks is closed: it was one and did not
    stake again, or it staked in one of them and has the stake pending. -/
def Remains (ext : Externals) (s : StateDB) (e : EpochMetaData) (blocks : List Block)
    (pk : PublicKey) : Prop :=
  pk ∈ e.validators ∧ restakes blocks pk = 0 ∨ restakes blocks pk = 1 ∧
    bigUint64 (s.getPendingStakeBalance (ext.getAddressFromUnSizedPK pk)) ≠ 0

/-- No two of the keys, one of them from the second list, have one address. -/
def KeysApart (ext : Externals) (keys named : List PublicKey) : Prop :=
  ∀ pk ∈ keys, ∀ pk' ∈ named,
    ext.getAddressFromUnSizedPK pk' = ext.getAddressFromUnSizedPK pk → pk' = pk

instance (ext : Externals) (keys named : List PublicKey) : Decidable (KeysApart ext keys named) :=
  inferInstanceAs (Decidable (∀ pk ∈ keys, ∀ pk' ∈ named, _))

section Replay

variable {ext : Externals} {s : StateDB} {db : Store} {path : List Hash} {blocks : List Block}

theorem pendingUpdates_path (h : path.map db.blocks.get = blocks.map some) :
    path.map db.pendingUpdates = blocks.map Block.updates := by
  have hupdates : db.pendingUpdates = fun k => ((db.blocks.get k).map Block.updates).getD [] := rfl
  rw [hupdates, ← Function.comp_def (fun o : Option Block => (o.map Block.updates).getD []),
    ← List.map_map, h, List.map_map]
  rfl

theorem stakeBlocks_path (h : path.map db.blocks.get = blocks.map some) (pk : PublicKey) :
    db.stakeBlocks path pk = restakes blocks pk := by
  have hpath := congrArg (List.countP (fun keys => decide (pk ∈ keys))) (pendingUpdates_path h)
  rw [List.countP_map, List.countP_map] at hpath
  exact hpath

theorem mem_updateStakeValidators_iff {e : EpochMetaData} {pk : PublicKey}
    {keys : List PublicKey} (hnodup : e.validators.Nodup)
    (hinj : ∀ pk' ∈ keys, ext.getAddressFromUnSizedPK pk' = ext.getAddressFromUnSizedPK pk →
      pk' = pk) :
    pk ∈ (updateStakeValidators ext s keys e).2.validators ↔
      pk ∈ e.validators ∧ keys.count pk = 0 ∨ keys.count pk = 1 ∧
        bigUint64 (s.getPendingStakeBalance (ext.getAddressFromUnSizedPK pk)) ≠ 0 := by
  have hstanding := congrArg Standing.listed
    (@standing_updateStakeValidators ext (s, e) pk keys hnodup hinj)
  have hlisted : pk ∈ (updateStakeValidators ext s keys e).2.validators ↔
      (Standing.update^[keys.count pk] (standing ext (s, e) pk)).listed = true := by
    rw [← hstanding]
    exact decide_eq_true_iff.symm
  rw [hlisted]
  cases hcount : keys.count pk with
  | zero =>
    -- The key is not named.
    rw [Function.iterate_zero, id]
    unfold standing
    rw [decide_eq_true_iff]
    constructor
    · exact fun hmem => .inl ⟨hmem, rfl⟩
    · rintro (⟨hmem, -⟩ | ⟨hone, -⟩)
      · exact hmem
      · cases hone
  | succ n =>
    by_cases hzero : bigUint64 (s.getPendingStakeBalance (ext.getAddressFromUnSizedPK pk)) = 0
    · rw [Standing.iterate_update_of_zero (by exact hzero)]
      constructor
      · exact fun h => absurd h Bool.false_ne_true
      · rintro (⟨-, hnone⟩ | ⟨-, hpending⟩)
        · cases hnone
        · exact absurd hzero hpending
    · rw [Standing.iterate_update_of_pending (by exact hzero)]
      by_cases hone : n = 0
      · rw [if_pos hone, hone]
        exact ⟨fun _ => .inr ⟨rfl, hzero⟩, fun _ => rfl⟩
      · rw [if_neg hone]
        constructor
        · exact fun h => absurd h Bool.false_ne_true
        · rintro (⟨-, hnone⟩ | ⟨hfirst, -⟩)
          · cases hnone
          · exact absurd (Nat.succ.inj hfirst) hone

end Replay

section Closing

variable {ext : Externals} {s : StateDB} {db : Store} {path : List Hash} {blocks : List Block}
variable {e : EpochMetaData} {slot : UInt64} {k : Hash}

/-- The signers of a block pass the test that is made when its epoch is closed. -/
def SignersCounted (ext : Externals) (s : StateDB) (b : Block) : Prop :=
  b.slotNumber ≠ 0 → ∀ tx ∈ b.protocolTransactions,
    Config.stakeAmount ≤ bigUint64 (s.getStakeBalance (ext.getDilithiumAddressFromUnSizedPK tx.pk))

theorem returns_processEpochMetaData {b : Block} (h : SignersCounted ext s b) :
    Outcome.Returns (processEpochMetaData ext b s e) := by
  unfold processEpochMetaData
  refine (returns_foldlM_iff (P := fun _ => True) ?_ e).2 (fun _ _ => trivial)
  intro e tx htx
  refine iff_of_true ?_ trivial
  unfold countStake
  refine returns_bind_iff.2 ⟨(), Outcome.failIf_of_not _ ?_, returns_pure _⟩
  rintro ⟨hless, hslot⟩
  exact absurd (h hslot tx htx) (UInt64.not_le.2 hless)

theorem returns_closeBlock (h : path.map db.blocks.get = blocks.map some)
    (hsigners : ∀ b ∈ blocks, SignersCounted ext s b) (acc : EpochMetaData × List PublicKey) :
    Outcome.Returns (path.reverse.foldlM (Chain.closeBlock ext db s) acc) := by
  refine (returns_foldlM_iff (P := fun _ => True) ?_ acc).2 (fun _ _ => trivial)
  intro acc x hx
  refine iff_of_true ?_ trivial
  have hmem : db.blocks.get x ∈ blocks.map some := h ▸ List.mem_map_of_mem (List.mem_reverse.1 hx)
  rcases List.mem_map.1 hmem with ⟨b, hb, hget⟩
  unfold Chain.closeBlock
  refine returns_bind_iff.2 ⟨b, orFail_eq_ok.2 hget.symm, ?_⟩
  rcases @returns_processEpochMetaData ext s acc.1 b (hsigners b hb) with ⟨e', he'⟩
  exact returns_bind_iff.2 ⟨e', he', returns_pure _⟩

theorem returns_allotSlots_iff {seed : Int} {epoch : UInt64} :
    Outcome.Returns (e.allotSlots ext seed epoch k) ↔ e.validators ≠ [] := by
  unfold EpochMetaData.allotSlots
  by_cases hnone : e.validators.length = 0
  · rw [if_pos hnone]
    exact iff_of_false (Outcome.not_returns_error _) (fun h => h (List.length_eq_zero_iff.1 hnone))
  · rw [if_neg hnone]
    exact iff_of_true (Outcome.returns_ok _) (fun h => hnone (List.length_eq_zero_iff.2 h))

theorem returns_nextEpochMetaData (h : path.map db.blocks.get = blocks.map some)
    (hsigners : ∀ b ∈ blocks, SignersCounted ext s b) :
    Outcome.Returns (Chain.nextEpochMetaData ext db s slot k path e) ↔
      (updateStakeValidators ext s (path.reverse.flatMap db.pendingUpdates)
        (closedRecord db path e)).2.validators ≠ [] := by
  rcases returns_closeBlock h hsigners
    (e.updatePrevEpochStakeData 0 (UInt64.ofNat e.validators.length * Config.stakeAmount), []) with
    ⟨⟨e₁, keys⟩, hfold⟩
  rcases closeBlock_fold hfold with ⟨hrecord, hkeys, -⟩
  dsimp only at hrecord hkeys
  rw [List.map_reverse, List.sum_reverse] at hrecord
  have hclosed : e₁ = closedRecord db path e := hrecord
  unfold Chain.nextEpochMetaData
  dsimp only
  rw [hfold, ok_bind, hclosed, hkeys, ← returns_allotSlots_iff]
  rw [returns_bind_iff]
  constructor
  · rintro ⟨e', he', -⟩
    exact ⟨e', he'⟩
  · rintro ⟨e', he'⟩
    exact ⟨e', he', returns_pure _⟩

theorem returns_nextEpochMetaData_iff (h : path.map db.blocks.get = blocks.map some)
    (hsigners : ∀ b ∈ blocks, SignersCounted ext s b) (hnodup : e.validators.Nodup)
    (hapart : KeysApart ext (e.validators ++ blocks.flatMap Block.updates)
      (blocks.flatMap Block.updates)) :
    Outcome.Returns (Chain.nextEpochMetaData ext db s slot k path e) ↔
      ∃ pk, Remains ext s e blocks pk := by
  have hkeys : path.flatMap db.pendingUpdates = blocks.flatMap Block.updates := by
    rw [List.flatMap_def, List.flatMap_def, pendingUpdates_path h]
  have hmem : ∀ pk, pk ∈ path.reverse.flatMap db.pendingUpdates ↔
      pk ∈ blocks.flatMap Block.updates := by
    intro pk
    rw [← hkeys, List.mem_flatMap, List.mem_flatMap]
    simp only [List.mem_reverse]
  have hcount : ∀ pk, (path.reverse.flatMap db.pendingUpdates).count pk = restakes blocks pk := by
    intro pk
    rw [count_pendingUpdates, ← stakeBlocks_path h pk]
    exact List.countP_reverse
  -- Who is left after the replay.
  have hleft : ∀ pk ∈ e.validators ++ blocks.flatMap Block.updates,
      (pk ∈ (updateStakeValidators ext s (path.reverse.flatMap db.pendingUpdates)
        (closedRecord db path e)).2.validators ↔ Remains ext s e blocks pk) := by
    intro pk hpk
    have hclosed : (closedRecord db path e).validators.Nodup := by
      rw [closedRecord_validators]
      exact hnodup
    rw [mem_updateStakeValidators_iff hclosed
      (fun pk' hpk' => hapart pk hpk pk' ((hmem pk').1 hpk')), hcount, closedRecord_validators]
    rfl
  rw [returns_nextEpochMetaData h hsigners]
  constructor
  · intro hne
    rcases List.exists_mem_of_ne_nil _ hne with ⟨pk, hpk⟩
    have hfrom : pk ∈ e.validators ++ blocks.flatMap Block.updates := by
      rcases mem_or_mem_of_mem_updateStakeValidators hpk with hold | hnew
      · exact List.mem_append_left _ (closedRecord_validators db path e ▸ hold)
      · exact List.mem_append_right _ ((hmem pk).1 hnew)
    exact ⟨pk, (hleft pk hfrom).1 hpk⟩
  · rintro ⟨pk, hpk⟩
    have hfrom : pk ∈ e.validators ++ blocks.flatMap Block.updates := by
      rcases hpk with ⟨hlisted, -⟩ | ⟨hone, -⟩
      · exact List.mem_append_left _ hlisted
      · rw [← hcount] at hone
        exact List.mem_append_right _ ((hmem pk).1 (List.count_pos_iff.1 (hone ▸ Nat.one_pos)))
    exact List.ne_nil_of_mem ((hleft pk hfrom).2 hpk)

end Closing

section Run

variable {ext : Externals} {g : Block} {preState : List (List UInt8 × UInt64)} {c₀ c : Chain}
variable {b : Block} {k : Hash}

theorem genesisChain_record (hslot : g.slotNumber = 0) (h₀ : genesisChain ext g preState = .ok c₀) :
    ∃ e, c₀.db.getEpochMetaData 0 g.parentHash = .ok e := by
  rcases genesisNode_of_ok hslot h₀ with ⟨e, trie, total, hnode⟩
  rcases hnode.epoch with ⟨first, s, s', -, hepoch⟩
  rcases genesisEpoch_of_ok hepoch with ⟨-, hzero, hprev, -⟩
  refine ⟨e.stored, ?_⟩
  unfold Store.getEpochMetaData Store.lookupEpochMetaData
  rw [if_pos rfl, hnode.epochs, hzero, hprev, AssocMap.get_put_self]
  rfl

theorem Recalled.record_after {c' : Chain} {now slot : UInt64}
    {e : EpochMetaData} (hi : Recalled ext g c) (hv : Offered c b)
    (hadd : c.addBlock ext now b = .ok (true, c'))
    (he : c.db.getEpochMetaData slot k = .ok e) : c'.db.getEpochMetaData slot k = .ok e := by
  rcases parent_of_addBlock hadd with ⟨parent, hparent⟩
  have hslot := slotNumber_ne_zero (hv.after parent hparent)
  rcases added_of_addBlock hi.sound hslot hadd with ⟨a, ha⟩
  exact (hi.extends hv.toFresh ha).getEpochMetaData he

theorem genesis_record (hg : Grounded g) (h₀ : genesisChain ext g preState = .ok c₀)
    (hrun : Run ext Offered c₀ c) : ∃ e, c.db.getEpochMetaData 0 g.parentHash = .ok e := by
  have hinv := hrun.invariant (fun c => Recalled ext g c ∧
      ∃ e, c.db.getEpochMetaData 0 g.parentHash = .ok e) ?_ ?_
  · exact hinv.2
  · rintro c c' now b ⟨hi, e, he⟩ hv hadd
    exact ⟨hi.addBlock hv.toFresh hadd, e, hi.record_after hv hadd he⟩
  · exact ⟨Recalled.genesisChain hg.slot h₀, genesisChain_record hg.slot h₀⟩

theorem Recalled.exists_record (hi : Recalled ext g c) (hr : Rooted g c.db)
    (hzero : ∃ e, c.db.getEpochMetaData 0 g.parentHash = .ok e) (hk : c.db.blocks.get k = some b) :
    ∃ e, c.db.getEpochMetaData b.slotNumber b.parentHash = .ok e := by
  by_cases hgenesis : k = g.hash
  · rcases hi.sound.recorded k b hk with ⟨r, hcore, hparent, hslot⟩
    rcases hr.genesis with ⟨r', hcore', hparent', hslot'⟩
    rw [hgenesis, hcore', Option.some.injEq] at hcore
    subst hcore
    rw [← hparent, ← hslot, hparent', hslot']
    exact hzero
  · exact hi.found k b hk hgenesis

theorem exists_epochRecord (hg : Grounded g) (h₀ : genesisChain ext g preState = .ok c₀)
    (hrun : Run ext Offered c₀ c) (hk : c.db.blocks.get k = some b) :
    ∃ e, c.db.getEpochMetaData b.slotNumber b.parentHash = .ok e := by
  rcases rooted_of_run hg h₀ hrun with ⟨hi, hr⟩
  exact hi.exists_record hr (genesis_record hg h₀ hrun) hk

theorem Account.Funded.counted {s : StateDB} {x : Address} (h : (s.account x).Funded)
    (hsmall : (s.account x).Small) : Config.stakeAmount ≤ bigUint64 (s.getStakeBalance x) := by
  have hlow : (Config.stakeAmount.toNat : Int) ≤ s.getStakeBalance x := h.1
  have hhigh : s.getStakeBalance x < 2 ^ 63 := hsmall.1
  have hread := bigUint64_of_nonneg (x := s.getStakeBalance x) (by omega) (by omega)
  rw [UInt64.le_iff_toNat_le]
  omega

theorem record_of_epochPath (hi : Recalled ext g c) {bm : BlockMetaData}
    {path : List Hash} {e : EpochMetaData} (hk : c.db.blocks.get k = some b)
    (hbm : c.db.getBlockMetaData k = .ok bm)
    (hpath : Chain.epochPath c.db bm.epoch c.db.walkFuel bm = .ok path)
    (hstored : ∀ x ∈ path, ∃ y, c.db.blocks.get x = some y)
    (he : c.db.getEpochMetaData b.slotNumber b.parentHash = .ok e) :
    ∃ oldest first, path.getLast? = some oldest ∧ c.db.getBlockMetaData oldest = .ok first ∧
      c.db.getEpochMetaData first.slotNumber first.parentHeaderHash = .ok e := by
  have hget := orFail_eq_ok.1 hbm
  have hhash := hi.sound.keyed k bm hget
  have hslot : bm.slotNumber = b.slotNumber := by
    rcases exists_record hi hk with ⟨bm', hbm', -, hslot, -⟩
    cases hbm.symm.trans hbm'
    exact hslot
  have hne : path ≠ [] := List.ne_nil_of_mem (mem_epochPath hpath)
  rcases hi.epochPath_spec (recorded_of_get hi.sound.keyed hget) hstored hpath with ⟨hall, -⟩
  have hlast := List.getLast?_eq_some_getLast hne
  rcases hall _ (List.getLast_mem hne) with ⟨y, hy, hepoch, hdesc⟩
  rcases exists_record hi hy with ⟨first, hfirst, -, hfslot, hfparent⟩
  refine ⟨_, first, hlast, hfirst, ?_⟩
  rw [hfslot, hfparent]
  rw [hhash] at hdesc
  refine hi.record_ancestor hdesc hk hy ?_ he
  rw [hepoch]
  exact congrArg epochOf hslot

/-- Walking back from a stored block passes through the blocks of its epoch on its branch. -/
theorem exists_closingPath (hi : Recalled ext g c) (hr : Rooted g c.db)
    {bs : List Block} (hk : c.db.blocks.get k = some b)
    (hbranch : c.db.Branch g.hash k (bs ++ [b])) :
    ∃ bm path, c.db.getBlockMetaData k = .ok bm ∧ bm.epoch = b.epoch ∧
      Chain.epochPath c.db bm.epoch c.db.walkFuel bm = .ok path ∧
      path.map c.db.blocks.get = (closing b.epoch (bs ++ [b])).map some := by
  rcases exists_record hi hk with ⟨bm, hbm, -, hslot, -⟩
  have hepoch : bm.epoch = b.epoch := congrArg epochOf hslot
  rcases hr.exists_rank with ⟨rank, hbound, hrank⟩
  have hcore := Store.core_of_get (orFail_eq_ok.1 hbm)
  rcases exists_epochPath hi hrank bm.epoch hbranch hbm (Nat.lt_of_succ_lt (hbound k _ hcore)) with
    ⟨path, hpath, hmap⟩
  rw [hepoch] at hmap
  exact ⟨bm, path, hbm, hepoch, hpath, hmap⟩

/-- A run of proper blocks from genesis can enter the next epoch on any stored block, if and
    only if a validator is left: the signers of the epoch that is closed have their stake in
    the state of the block, and the computation of the next record returns exactly if some key
    remains. -/
theorem nextEpoch_iff {vm : Machine} (hvm : vm.Apart) (hg : Grounded g) (hmoderate : g.Moderate)
    (hpre : ModeratePreState preState) (h₀ : genesisChain vm g preState = .ok c₀)
    (hzero : c₀.tries.get zeroHash = none) (hrun : Run vm (Proper vm) c₀ c) {k : Hash}
    {b : Block} (hk : c.db.blocks.get k = some b) :
    ∃ bs s e, c.db.Branch g.hash k (bs ++ [b]) ∧ c.stateAt k = .ok s ∧
      c.db.getEpochMetaData b.slotNumber b.parentHash = .ok e ∧
      (∀ x ∈ closing b.epoch (bs ++ [b]), SignersCounted vm s x) ∧
      let blocks := closing b.epoch (bs ++ [b])
      ∀ slot, epochOf slot ≠ b.epoch →
        KeysApart vm (e.validators ++ blocks.flatMap Block.updates)
          (blocks.flatMap Block.updates) →
        (Outcome.Returns (Chain.calculateEpochMetaData vm c.db s slot k) ↔
          ∃ pk, Remains vm s e blocks pk) := by
  have hoffered := hrun.mono (fun _ _ h => Proper.toOffered h)
  have hregular := hrun.mono (fun _ _ h => Proper.regular h)
  rcases rooted_of_run hg h₀ hoffered with ⟨hi, hr⟩
  rcases hi.slots.exists_branch hk with ⟨bs, hbranch⟩
  rcases funded_of_branch hvm hg hmoderate hpre h₀ hzero hrun hbranch with ⟨s, hs, hfunded⟩
  rcases exists_epochRecord hg h₀ hoffered hk with ⟨e, he⟩
  have hsigners : ∀ x ∈ closing b.epoch (bs ++ [b]), SignersCounted vm s x := by
    intro x hx hslot tx htx
    rcases hfunded x hx hslot tx htx with ⟨hreserve, hstake⟩
    rcases history_of_branch hvm (hvm.keys _ (.inr ⟨tx.pk, rfl⟩)) hreserve hg.slot hmoderate hpre h₀
      hzero hregular hbranch with ⟨s', hs', hhistory, -⟩
    rw [hs, Except.ok.injEq] at hs'
    subst hs'
    exact hstake.counted hhistory.small
  refine ⟨bs, s, e, hbranch, hs, he, hsigners, fun slot hslot hapart => ?_⟩
  rcases exists_closingPath hi hr hk hbranch with ⟨bm, path, hbm, hepoch, hpath, hmap⟩
  have hstored : ∀ x ∈ path, ∃ y, c.db.blocks.get x = some y := by
    intro x hx
    have hmem : c.db.blocks.get x ∈ (closing b.epoch (bs ++ [b])).map some :=
      hmap ▸ List.mem_map_of_mem hx
    rcases List.mem_map.1 hmem with ⟨y, -, hy⟩
    exact ⟨y, hy.symm⟩
  rcases record_of_epochPath hi hk hbm hpath hstored he with ⟨oldest, first, hlast, hfirst, hrecord⟩
  have hnodup : e.validators.Nodup := by
    rcases exists_of_getEpochMetaData he with ⟨last, hget⟩
    exact (hi.records _ _ hget).1.nodup
  unfold Chain.calculateEpochMetaData
  rw [hbm, ok_bind, if_neg (hepoch ▸ Ne.symm hslot), hpath, ok_bind, hlast]
  simp only [Outcome.orFail, ok_bind]
  rw [hfirst, ok_bind, hrecord, ok_bind]
  exact returns_nextEpochMetaData_iff hmap hsigners hnodup hapart

end Run

def toyProper (c : Chain) (b : Block) : Bool :=
  offered c b && decide (b.slotNumber ≠ 0) && newRoot toyExternals c b && decide b.Moderate &&
    decide (∀ tx ∈ b.allTransactions, tx.nonce + 1 ≠ 0) &&
    decide (∀ tx ∈ b.protocolTransactions,
      Config.coinBaseAddress ≠ toyExternals.getDilithiumAddressFromUnSizedPK tx.pk)

theorem proper_of_toyProper {c : Chain} {b : Block} (h : toyProper c b = true) :
    Proper toyExternals c b := by
  unfold toyProper at h
  simp only [Bool.and_eq_true, decide_eq_true_eq] at h
  rcases h with ⟨⟨⟨⟨⟨hoffered, hslot⟩, hroot⟩, hmoderate⟩, hcounts⟩, hkeys⟩
  exact { toOffered := offered_of_test c b hoffered, slot := hslot
          root := uncollided_of_newRoot hroot, moderate := hmoderate, counts := hcounts
          keys := hkeys }

theorem toyRun_proper : ∃ c₀ c, genesisChain toyExternals toyGenesis toyPreState = .ok c₀ ∧
    Run toyExternals (Proper toyExternals) c₀ c ∧ c₀.tries.get zeroHash = none ∧
    (c.db.branchTo toyGenesis.hash 2 toyFirst.hash).map
      (fun bs => (closing 1 bs).flatMap Block.updates) = some [] ∧
    (c.db.blocks.get toyFirst.hash).map (fun b => (b.epoch,
      (c.db.getEpochMetaData b.slotNumber b.parentHash).map
        (fun e => decide ((toyKey 1).pk ∈ e.validators)))) = some (1, .ok true) := by
  refine exists_run_of_check toyNow [toyFirst] _ (fun _ _ => proper_of_toyProper) ?_
  decide +kernel

theorem toyRun_nextEpoch : ∃ c₀ c s, genesisChain toyExternals toyGenesis toyPreState = .ok c₀ ∧
    Run toyExternals (Proper toyExternals) c₀ c ∧ c.stateAt toyFirst.hash = .ok s ∧
    Outcome.Returns (Chain.calculateEpochMetaData toyExternals c.db s 200 toyFirst.hash) := by
  rcases toyRun_proper with ⟨c₀, c, h₀, hrun, hzero, hupdates, hrecord⟩
  rcases Option.map_eq_some_iff.1 hrecord with ⟨b, hb, hfields⟩
  rw [Prod.mk.injEq] at hfields
  rcases hfields with ⟨hepoch, hlisted⟩
  rcases nextEpoch_iff toyVm_apart toyGenesis_grounded (by decide +kernel) (by decide +kernel) h₀
    hzero hrun hb with ⟨bs, s, e, hbranch, hs, he, -, hiff⟩
  rcases Option.map_eq_some_iff.1 hupdates with ⟨bs', hbranch', hnone⟩
  rw [← hbranch.unique (Store.branch_of_branchTo hbranch')] at hnone
  rw [he, Except.map, Except.ok.injEq, decide_eq_true_iff] at hlisted
  dsimp only at hiff
  rw [hepoch, hnone] at hiff
  refine ⟨c₀, c, s, h₀, hrun, hs, (hiff 200 (by decide) (fun _ _ _ hmem => nomatch hmem)).2 ?_⟩
  refine ⟨(toyKey 1).pk, .inl ⟨hlisted, List.countP_eq_zero.2 fun x hx => ?_⟩⟩
  rw [decide_eq_true_iff, List.flatMap_eq_nil_iff.1 hnone x hx]
  exact List.not_mem_nil

/-- From a genesis of a hundred validators, an accepted block on which no later epoch can be
    entered: its proposer cannot be written, and has no stake in the state of the block. -/
theorem nextEpoch_refused : ∃ c₀ c s,
    genesisChain toyReversed toyCrowd toyCrowdPreState = .ok c₀ ∧
    c₀.db.epochMetaData.entries.map (fun r => r.2.validators.length) = [100] ∧
    Run toyReversed (fun _ _ => True) c₀ c ∧
    (c.db.blocks.get toyOverreach.hash).isSome = true ∧ c.stateAt toyOverreach.hash = .ok s ∧
    s.getStakeBalance (toyAddress 101) = 0 ∧
    Chain.calculateEpochMetaData toyReversed c.db s 200 toyOverreach.hash =
      .error (.error (.balanceNotLoaded (toyAddress 101))) := by
  rcases toyRun_overreach with ⟨c₀, c, h₀, hrun, hcrowd, hstored, hstate⟩
  rcases map_eq_ok.1 hstate with ⟨s, hs, hboth⟩
  rw [Prod.mk.injEq] at hboth
  exact ⟨c₀, c, s, h₀, hcrowd, hrun, hstored, hs, hboth.1, Outcome.map_eq_error.1 hboth.2⟩

end Zond
