import Zond.Theory.NextEpoch

/-!
# Records of Epochs

`GetEpochMetaData` finds the record of an epoch by walking back to the last block before it,
and `CalculateEpochMetaData` makes the next one from the blocks of the epoch that closes. A
record is stored under the epoch and the last block before it, so two forks that part at an
epoch boundary share the place, and it is the last block and its state that make their records
equal.

## Main definitions

* `closeEpoch`: The next record, from the blocks that close an epoch, oldest first.

## Theorems

* `epochRecords`: Where slots increase, whatever gaps and forks there are, a block is run under
  the record that the first block of its epoch on its branch brought along.
-/

namespace Zond

open Ancestry Outcome

def ofEpoch (epoch : UInt64) (bs : List Block) : List Block :=
  bs.filter (fun b => decide (b.epoch = epoch))

/-- One block of a closing epoch: its signers are counted, the keys it updates collected. -/
def foldBlock (ext : Externals) (s : StateDB) (acc : EpochMetaData × List PublicKey) (b : Block) :
    Go (EpochMetaData × List PublicKey) := do
  let e ← processEpochMetaData ext b s acc.1
  pure (e, acc.2 ++ b.updates)

/-- The record of the next epoch, from the blocks that close an epoch and its record. -/
def closeEpoch (ext : Externals) (s : StateDB) (slotNumber : UInt64) (parentHash : Hash)
    (blocks : List Block) (e : EpochMetaData) : Go (StateDB × EpochMetaData) := do
  let alloted := UInt64.ofNat e.validators.length * Config.stakeAmount
  let (e, pending) ← blocks.foldlM (foldBlock ext s) (e.updatePrevEpochStakeData 0 alloted, [])
  let (s, e) := updateStakeValidators ext s pending e
  let e ← e.allotSlots ext (getRandomSeed ext.toCrypto parentHash) (epochOf slotNumber) parentHash
  pure (s, e)

/-- The record that was committed with a block of a run: with genesis when the chain was
    loaded, with any other block when it was added. -/
def CommittedWith (ext : Externals) (g : Block) (c₀ c : Chain) (x : Block) (e : EpochMetaData) :
    Prop :=
  x.hash = g.hash ∧ c₀.db.epochMetaData = AssocMap.empty.put (0, g.parentHash) e ∨
    ∃ c₁ now b c₂ r, Run ext Offered c₀ c₁ ∧ Offered c₁ b ∧
      c₁.addBlock ext now b = .ok (true, c₂) ∧ Run ext Offered c₂ c ∧ b.hash = x.hash ∧
      c₂.db.epochMetaData = (c₁.db.putEpochMetaData r).epochMetaData ∧ e = r.stored

section Lists

variable {epoch : UInt64} {bs : List Block}

theorem ofEpoch_eq_nil (h : ∀ x ∈ bs, x.epoch < epoch) : ofEpoch epoch bs = [] := by
  refine List.filter_eq_nil_iff.2 ?_
  intro x hx
  rw [decide_eq_true_eq]
  exact UInt64.ne_of_lt (h x hx)

theorem ofEpoch_append (epoch : UInt64) (bs : List Block) (b : Block) :
    ofEpoch epoch (bs ++ [b]) = ofEpoch epoch bs ++ if b.epoch = epoch then [b] else [] := by
  unfold ofEpoch
  rw [List.filter_append, List.filter_cons, List.filter_nil]
  simp only [decide_eq_true_eq]

theorem reverse_closing (hmono : bs.Pairwise (fun x y => x.epoch ≤ y.epoch))
    (hlast : ∀ x ∈ bs, x.epoch ≤ epoch) : (closing epoch bs).reverse = ofEpoch epoch bs := by
  induction bs using List.reverseRecOn with
  | nil => rfl
  | append_singleton bs b ih =>
    rw [List.pairwise_append] at hmono
    rcases hmono with ⟨hbefore, -, hbelow⟩
    rw [ofEpoch_append]
    by_cases hb : b.epoch = epoch
    · rw [closing_append bs hb, List.reverse_cons, if_pos hb,
        ih hbefore (fun x hx => hlast x (List.mem_append_left _ hx))]
    · -- The branch ends before the epoch, so nothing on it is of the epoch.
      have hless : b.epoch < epoch :=
        UInt64.lt_of_le_of_ne (hlast b (List.mem_append_right _ List.mem_cons_self)) hb
      rw [closing_append_ne bs hb, if_neg hb, List.append_nil, ofEpoch_eq_nil]
      · rfl
      · intro x hx
        exact UInt64.lt_of_le_of_lt (hbelow x hx b List.mem_cons_self) hless

end Lists

section Branches

variable {ext : Externals} {g : Block} {c : Chain} {k : Hash} {b : Block} {bs : List Block}

theorem branch_ascends (hi : Recalled ext g c) (h : c.db.Branch g.hash k bs) :
    bs.Pairwise (fun x y => x.slotNumber < y.slotNumber) := by
  induction h with
  | root _ => exact List.pairwise_singleton _ _
  | @grow k b bs hk hb hbefore ih =>
    rcases hbefore.exists_last with ⟨before, last, rfl, hlast⟩
    rcases hi.slots k b hb hk with ⟨p, hp, hlt⟩
    rw [hlast, Option.some.injEq] at hp
    subst hp
    refine List.pairwise_append.2 ⟨ih, List.pairwise_singleton _ _, ?_⟩
    intro x hx y hy
    rw [List.mem_singleton.1 hy]
    rcases List.mem_append.1 hx with hold | hnew
    · exact UInt64.lt_trans ((List.pairwise_append.1 ih).2.2 x hold last List.mem_cons_self) hlt
    · rw [List.mem_singleton.1 hnew]
      exact hlt

theorem epoch_le_of_lt {x y : Block} (h : x.slotNumber < y.slotNumber) : x.epoch ≤ y.epoch :=
  UInt64.le_iff_toNat_le.2 (epochOf_mono (Nat.le_of_lt (UInt64.lt_iff_toNat_lt.1 h)))

theorem epoch_le_last (hi : Recalled ext g c) (h : c.db.Branch g.hash k (bs ++ [b])) :
    ∀ x ∈ bs ++ [b], x.epoch ≤ b.epoch := by
  intro x hx
  rcases List.mem_append.1 hx with hold | hlast
  · exact epoch_le_of_lt
      ((List.pairwise_append.1 (branch_ascends hi h)).2.2 x hold b List.mem_cons_self)
  · rw [List.mem_singleton.1 hlast]
    exact UInt64.le_refl _

theorem exists_first (hi : Recalled ext g c) (h : c.db.Branch g.hash k bs)
    (hk : c.db.blocks.get k = some b) : ∃ first kf, (ofEpoch b.epoch bs).head? = some first ∧
      c.db.blocks.get kf = some first ∧ first.epoch = b.epoch ∧
      Descends (c.db.parent g) k kf ∧
      (kf ≠ g.hash → ∀ p, c.db.blocks.get first.parentHash = some p → p.epoch ≠ first.epoch) := by
  induction h generalizing b with
  | @root x hx =>
    rw [hk, Option.some.injEq] at hx
    subst hx
    refine ⟨b, g.hash, ?_, hk, rfl, Descends.refl _ _, fun hne => absurd rfl hne⟩
    rw [← List.nil_append [b], ofEpoch_append, if_pos rfl]
    rfl
  | @grow k x bs hne hx hbefore ih =>
    rw [hk, Option.some.injEq] at hx
    subst hx
    rcases hbefore.exists_last with ⟨before, p, rfl, hp⟩
    have hlink : c.db.parent g k = some b.parentHash := by
      unfold Store.parent
      rw [if_neg hne, hk, Option.map_some]
    rw [ofEpoch_append, if_pos rfl]
    by_cases hepoch : p.epoch = b.epoch
    · -- The parent is of the epoch as well and has the same first block.
      rcases ih hp with ⟨first, kf, hhead, hget, hfirst, hdesc, hparent⟩
      rw [hepoch] at hhead hfirst
      refine ⟨first, kf, ?_, hget, hfirst, Descends.of_parent hlink hdesc, hparent⟩
      rw [List.head?_append, hhead]
      rfl
    · refine ⟨b, k, ?_, hk, rfl, Descends.refl _ _, fun _ p' hp' => ?_⟩
      · have hless : p.epoch < b.epoch := by
          rcases hi.slots k b hk hne with ⟨p', hp', hlt⟩
          rw [hp, Option.some.injEq] at hp'
          subst hp'
          exact UInt64.lt_of_le_of_ne (epoch_le_of_lt hlt) hepoch
        have hnone : ofEpoch b.epoch (before ++ [p]) = [] := ofEpoch_eq_nil (fun y hy =>
          UInt64.lt_of_le_of_lt (epoch_le_last hi hbefore y hy) hless)
        rw [hnone]
        rfl
      · rw [hp, Option.some.injEq] at hp'
        rw [← hp']
        exact hepoch

end Branches

section Folding

variable {ext : Externals} {db : Store} {s : StateDB}

theorem closeBlock_eq_foldBlock {h : Hash} {b : Block} (hb : db.blocks.get h = some b)
    (acc : EpochMetaData × List PublicKey) :
    Chain.closeBlock ext db s acc h = foldBlock ext s acc b := by
  have hread : db.getBlock h = .ok b := orFail_eq_ok.2 hb
  unfold Chain.closeBlock foldBlock Block.updates
  rw [hread, ok_bind]
  by_cases hzero : b.slotNumber = 0
  · simp only [if_pos hzero, List.append_nil]
  · simp only [if_neg hzero]

theorem foldlM_closeBlock {path : List Hash} {blocks : List Block}
    (h : path.map db.blocks.get = blocks.map some) (acc : EpochMetaData × List PublicKey) :
    path.foldlM (Chain.closeBlock ext db s) acc = blocks.foldlM (foldBlock ext s) acc := by
  induction path generalizing blocks acc with
  | nil =>
    rw [List.map_nil, eq_comm, List.map_eq_nil_iff] at h
    rw [h]
    rfl
  | cons k rest ih =>
    cases blocks with
    | nil => cases h
    | cons b blocks =>
      rw [List.map_cons, List.map_cons, List.cons.injEq] at h
      rw [List.foldlM_cons, List.foldlM_cons, closeBlock_eq_foldBlock h.1]
      refine congrArg _ (funext fun acc' => ?_)
      exact ih h.2 acc'

theorem nextEpochMetaData_eq {path : List Hash} {blocks : List Block}
    (h : path.map db.blocks.get = blocks.map some) (slot : UInt64) (k : Hash) (e : EpochMetaData) :
    Chain.nextEpochMetaData ext db s slot k path e = closeEpoch ext s slot k blocks.reverse e := by
  have hreverse : path.reverse.map db.blocks.get = blocks.reverse.map some := by
    rw [List.map_reverse, h, List.map_reverse]
  unfold Chain.nextEpochMetaData closeEpoch
  dsimp only
  rw [foldlM_closeBlock hreverse]

variable {g : Block} {c : Chain} {k : Hash} {b : Block} {bs : List Block}

/-- `CalculateEpochMetaData` for a slot of another epoch folds the blocks of the parent's epoch
    on its branch, with the record that the parent finds. -/
theorem calculateEpochMetaData_branch (hi : Recalled ext g c) (hr : Rooted g c.db)
    (hk : c.db.blocks.get k = some b) (hbranch : c.db.Branch g.hash k bs) {e : EpochMetaData}
    (he : c.db.getEpochMetaData b.slotNumber b.parentHash = .ok e) {slot : UInt64}
    (hslot : epochOf slot ≠ b.epoch) : Chain.calculateEpochMetaData ext c.db s slot k =
      closeEpoch ext s slot k (ofEpoch b.epoch bs) e := by
  rcases exists_record hi hk with ⟨bm, hbm, -, hbslot, -⟩
  have hepoch : bm.epoch = b.epoch := congrArg epochOf hbslot
  rcases hr.exists_rank with ⟨rank, hbound, hrank⟩
  have hcore := Store.core_of_get (orFail_eq_ok.1 hbm)
  rcases exists_epochPath hi hrank bm.epoch hbranch hbm
    (Nat.lt_of_succ_lt (hbound k _ hcore)) with ⟨path, hpath, hmap⟩
  have hstored : ∀ x ∈ path, ∃ y, c.db.blocks.get x = some y := by
    intro x hx
    have hmem : c.db.blocks.get x ∈ (closing bm.epoch bs).map some :=
      hmap ▸ List.mem_map_of_mem hx
    rcases List.mem_map.1 hmem with ⟨y, -, hy⟩
    exact ⟨y, hy.symm⟩
  rcases record_of_epochPath hi hk hbm hpath hstored he with ⟨oldest, first, hlast, hfirst, hrecord⟩
  unfold Chain.calculateEpochMetaData
  rw [hbm, ok_bind, if_neg (hepoch ▸ Ne.symm hslot), hpath, ok_bind, hlast]
  simp only [Outcome.orFail, ok_bind]
  rw [hfirst, ok_bind, hrecord, ok_bind, nextEpochMetaData_eq hmap, hepoch]
  -- The walk went newest first; the branch is in order, so reversed it is its last epoch.
  rcases hbranch.exists_last with ⟨before, b', rfl, hb'⟩
  rw [hk, Option.some.injEq] at hb'
  subst hb'
  have hmono := (branch_ascends hi hbranch).imp epoch_le_of_lt
  rw [reverse_closing hmono (epoch_le_last hi hbranch)]

end Folding

section Run

variable {ext : Externals} {g : Block} {preState : List (List UInt8 × UInt64)} {c₀ c c' : Chain}

theorem Recalled.extends_of_run (hi : Recalled ext g c) (hrun : Run ext Offered c c') :
    c.db.Extends c'.db := by
  have hinv := hrun.invariant (fun d => Recalled ext g d ∧ c.db.Extends d.db) ?_ ?_
  · exact hinv.2
  · rintro d d' now b ⟨hd, hx⟩ hv hadd
    refine ⟨hd.addBlock hv.toFresh hadd, ?_⟩
    rcases parent_of_addBlock hadd with ⟨parent, hparent⟩
    have hslot := slotNumber_ne_zero (hv.after parent hparent)
    rcases added_of_addBlock hd.sound hslot hadd with ⟨a, ha⟩
    have hx' := hd.extends hv.toFresh ha
    exact ⟨fun k r h => hx'.core k r (hx.core k r h), fun k x h => hx'.blocks k x (hx.blocks k x h),
      fun key e h => hx'.epochs key e (hx.epochs key e h), Nat.le_trans hx.size hx'.size⟩
  · exact ⟨hi, fun _ _ h => h, fun _ _ h => h, fun _ _ h => h, Nat.le_refl _⟩

theorem exists_addition (hg : Grounded g) (h₀ : genesisChain ext g preState = .ok c₀)
    (hrun : Run ext Offered c₀ c) {k : Hash} {x : Block} (hx : c.db.blocks.get k = some x)
    (hk : k ≠ g.hash) : ∃ c₁ now b c₂, Run ext Offered c₀ c₁ ∧ Offered c₁ b ∧
      c₁.addBlock ext now b = .ok (true, c₂) ∧ Run ext Offered c₂ c ∧ b.hash = k ∧
      b.parentHash = x.parentHash ∧ b.slotNumber = x.slotNumber := by
  -- The induction keeps the run itself, so that it can be cut where the block came.
  induction hrun with
  | refl =>
    rcases genesisNode_of_ok hg.slot h₀ with ⟨e, trie, total, hnode⟩
    exact absurd (hnode.block hx).1 hk
  | @tail d d' hbefore hstep ih =>
    have hlast : Run ext Offered d d' := .single hstep
    rcases hstep with ⟨now, b, added, hv, hadd⟩
    have hold : d.db.blocks.get k = some x → ∃ c₁ now b c₂, Run ext Offered c₀ c₁ ∧
        Offered c₁ b ∧ c₁.addBlock ext now b = .ok (true, c₂) ∧ Run ext Offered c₂ d' ∧
        b.hash = k ∧ b.parentHash = x.parentHash ∧ b.slotNumber = x.slotNumber := by
      intro hget
      rcases ih hget with ⟨c₁, now₁, b₁, c₂, hto, hv₁, hadd₁, hfrom, hfields⟩
      exact ⟨c₁, now₁, b₁, c₂, hto, hv₁, hadd₁, hfrom.trans hlast, hfields⟩
    cases added with
    | false =>
      rcases Chain.addBlock_cases hadd with ⟨-, rfl⟩ | ⟨hfalse, -⟩
      · exact hold hx
      · cases hfalse
    | true =>
      have hd := (rooted_of_run hg h₀ hbefore).1
      rcases parent_of_addBlock hadd with ⟨parent, hparent⟩
      have hslot := slotNumber_ne_zero (hv.after parent hparent)
      rcases added_of_addBlock hd.sound hslot hadd with ⟨a, ha⟩
      rcases ha.block_after hx with ⟨hkey, hxp, hxs, -⟩ | ⟨-, hget⟩
      · exact ⟨d, now, b, d', hbefore, hv, hadd, .refl, hkey.symm, hxp.symm, hxs.symm⟩
      · exact hold hget

theorem committed_of_first (hg : Grounded g) (h₀ : genesisChain ext g preState = .ok c₀)
    (hrun : Run ext Offered c₀ c) {k : Hash} {x : Block} {e : EpochMetaData}
    (hx : c.db.blocks.get k = some x)
    (hfirst : k ≠ g.hash → ∀ p, c.db.blocks.get x.parentHash = some p → p.epoch ≠ x.epoch)
    (he : c.db.getEpochMetaData x.slotNumber x.parentHash = .ok e) :
    CommittedWith ext g c₀ c x e := by
  rcases rooted_of_run hg h₀ hrun with ⟨hi, hr⟩
  have hname : x.hash = k := hi.sound.named k x hx
  by_cases hk : k = g.hash
  · refine .inl ⟨hname.trans hk, ?_⟩
    rcases hi.sound.recorded k x hx with ⟨r, hcore, hparent, hslot⟩
    rcases hr.genesis with ⟨r', hcore', hparent', hslot'⟩
    rw [hk, hcore', Option.some.injEq] at hcore
    subst hcore
    rw [← hparent, ← hslot, hparent', hslot'] at he
    rcases genesisNode_of_ok hg.slot h₀ with ⟨e₀, trie, total, hnode⟩
    rcases hnode.epoch with ⟨first, s, s', -, hepoch⟩
    rcases genesisEpoch_of_ok hepoch with ⟨-, hzero, hprev, -⟩
    have hstart : c₀.db.getEpochMetaData 0 g.parentHash = .ok e₀.stored := by
      unfold Store.getEpochMetaData Store.lookupEpochMetaData
      rw [if_pos rfl, hnode.epochs, hzero, hprev, AssocMap.get_put_self]
      rfl
    have hkept := ((Recalled.genesisChain hg.slot h₀).extends_of_run hrun).getEpochMetaData hstart
    rw [he, Except.ok.injEq] at hkept
    rw [hnode.epochs, hzero, hprev, hkept]
  · rcases exists_addition hg h₀ hrun hx hk with
      ⟨c₁, now, b, c₂, hto, hv, hadd, hfrom, hhash, hparent, hslot⟩
    have h₁ := (rooted_of_run hg h₀ hto).1
    have h₂ := h₁.addBlock hv.toFresh hadd
    rcases parent_of_addBlock hadd with ⟨parent, hget⟩
    rcases added_of_addBlock h₁.sound (slotNumber_ne_zero (hv.after parent hget)) hadd with ⟨a, ha⟩
    have hgrown := h₂.extends_of_run hfrom
    -- When the block came its parent was the block it is now.
    have hopens : epochOf b.slotNumber ≠ a.parent.epoch := by
      intro hsame
      have hold := (h₁.extends hv.toFresh ha).blocks _ _ ha.parentBlock
      have hnow := hgrown.blocks _ _ hold
      rw [hparent] at hnow
      refine hfirst hk _ hnow ?_
      rcases h₁.sound.recorded _ _ ha.parentBlock with ⟨r, hr', -, hrslot⟩
      rw [Store.core_of_get ha.parent, Option.some.injEq] at hr'
      subst hr'
      have hps : a.parent.slotNumber = a.parentBlock.slotNumber := hrslot
      unfold Block.epoch
      rw [← hps, ← hslot]
      exact hsame.symm
    refine .inr ⟨c₁, now, b, c₂, a.epoch, hto, hv, hadd, hfrom, hhash.trans hname.symm, ?_, ?_⟩
    · rw [ha.sameTree.epochs, ha.epochs, if_pos hopens]
    · rcases h₁.epoch_cases ha.toExecuted with ⟨hsame, -⟩ | ⟨hne, -⟩
      · exact absurd hsame.symm hopens
      · have hfound := getEpochMetaData_of_opening ha.sameTree.keyed
          ((h₁.extends hv.toFresh ha).core _ _ (Store.core_of_get ha.parent))
          (parent_slot_lt h₁ hv.toFresh ha) hne
          (by rw [h₁.epochs_after ha, if_pos ⟨hopens, rfl⟩])
        have hkept := hgrown.getEpochMetaData hfound
        rw [hparent, hslot, he, Except.ok.injEq] at hkept
        exact hkept

/-- In a run of new blocks, take a stored block and the blocks of its epoch on its branch. Their
    slots increase. The record the block finds is the one that was committed with the first of
    them. And whatever state a later epoch is entered from, its record is made from this record
    and from these blocks, in this order. -/
theorem epochRecords (hg : Grounded g) (h₀ : genesisChain ext g preState = .ok c₀)
    (hrun : Run ext Offered c₀ c) {k : Hash} {b : Block} {bs : List Block}
    (hk : c.db.blocks.get k = some b) (hbranch : c.db.Branch g.hash k bs) :
    (ofEpoch b.epoch bs).Pairwise (fun x y => x.slotNumber < y.slotNumber) ∧
      ∃ first e, (ofEpoch b.epoch bs).head? = some first ∧ CommittedWith ext g c₀ c first e ∧
        c.db.getEpochMetaData b.slotNumber b.parentHash = .ok e ∧
        ∀ s slot, epochOf slot ≠ b.epoch →
          Chain.calculateEpochMetaData ext c.db s slot k =
            closeEpoch ext s slot k (ofEpoch b.epoch bs) e := by
  rcases rooted_of_run hg h₀ hrun with ⟨hi, hr⟩
  rcases exists_first hi hbranch hk with ⟨first, kf, hhead, hget, hepoch, hdesc, hparent⟩
  rcases exists_epochRecord hg h₀ hrun hk with ⟨e, he⟩
  have hshared := hi.record_ancestor hdesc hk hget hepoch he
  exact ⟨(branch_ascends hi hbranch).filter _, first, e, hhead,
    committed_of_first hg h₀ hrun hget hparent hshared, he,
    fun _ _ hslot => calculateEpochMetaData_branch hi hr hk hbranch he hslot⟩

end Run

theorem toyRun_epochRecords : ∃ c₀ c b bs first e,
    genesisChain toyExternals toyGenesis toyPreState = .ok c₀ ∧ Run toyExternals Offered c₀ c ∧
    c.db.blocks.get toySecond.hash = some b ∧ c.db.Branch toyGenesis.hash toySecond.hash bs ∧
    (ofEpoch b.epoch bs).map Block.slotNumber = [100, 101] ∧
    (ofEpoch b.epoch bs).head? = some first ∧ CommittedWith toyExternals toyGenesis c₀ c first e ∧
    c.db.getEpochMetaData b.slotNumber b.parentHash = .ok e := by
  have hrun : ∃ c₀ c, genesisChain toyExternals toyGenesis toyPreState = .ok c₀ ∧
      Run toyExternals Offered c₀ c ∧
      (c.db.branchTo toyGenesis.hash 3 toySecond.hash).map
        (fun bs => (ofEpoch 1 bs).map Block.slotNumber) = some [100, 101] ∧
      (c.db.blocks.get toySecond.hash).map Block.epoch = some 1 :=
    exists_run_of_check toyNow [toyFirst, toySecond] _ offered_of_test (by decide +kernel)
  rcases hrun with ⟨c₀, c, h₀, hrun, hbranch, hblock⟩
  rcases Option.map_eq_some_iff.1 hbranch with ⟨bs, hbs, hslots⟩
  rcases Option.map_eq_some_iff.1 hblock with ⟨b, hb, hepoch⟩
  have hpath := Store.branch_of_branchTo hbs
  rcases epochRecords toyGenesis_grounded h₀ hrun hb hpath with
    ⟨-, first, e, hhead, hwith, he, -⟩
  exact ⟨c₀, c, b, bs, first, e, h₀, hrun, hb, hpath, hepoch ▸ hslots, hhead, hwith, he⟩

def toyLeavingTx : Stake :=
  (newStake 0 0 100000 1 2 (toyKey 2).pk).signDilithium toyCrypto (toyKey 2)

def toyCreatingTx : Transfer :=
  (newTransfer 0 [] 0 100000 1 [] 2 (toyKey 2).pk).signDilithium toyCrypto (toyKey 2)

def toyLeaving : Block := toyBlock 2 1 toyGenesis.hash [.stake toyLeavingTx] 1

def toyRemaining : Block := { toyLeaving with transactions := [.transfer toyCreatingTx] }

def toyAlone : Block := toyBlock 1 100 toyLeaving.hash [] 2

def toyTogether : Block := toyBlock 2 101 toyLeaving.hash [] 3

/-- Block `toyAlone` brings the record of its epoch, in which key 1 is the only validator. Then
    its parent comes again with a transfer in place of the stake, and another fork opens the
    epoch. Looked up for `toyAlone`, whose branch has the slots 0, 1 and 100, the record is now
    that of the other fork, with two validators. -/
theorem epochRecord_of_other_fork : ∃ c₀ c₁ c₂ c r e,
    genesisChain toyExternals toyGenesis toyPreState = .ok c₀ ∧
    Run toyExternals (fun _ _ => True) c₀ c₁ ∧
    c₁.addBlock toyExternals toyNow toyAlone = .ok (true, c₂) ∧
    c₁.db.epochMetaData.get (1, toyLeaving.hash) = none ∧
    c₂.db.epochMetaData.get (1, toyLeaving.hash) = some r ∧
    Run toyExternals (fun _ _ => True) c₂ c ∧
    (c.db.branchTo toyGenesis.hash 3 toyAlone.hash).map (fun bs => bs.map Block.slotNumber)
      = some [0, 1, 100] ∧
    c.db.getEpochMetaData toyAlone.slotNumber toyAlone.parentHash = .ok e ∧
    r.validators.length = 1 ∧ e.validators.length = 2 := by
  have hcheck : (genesisChain toyExternals toyGenesis toyPreState >>= fun c₀ =>
      c₀.addBlocks toyExternals toyNow (fun _ _ => true) [toyLeaving] >>= fun st₁ =>
      st₁.2.addBlock toyExternals toyNow toyAlone >>= fun st₂ =>
      st₂.2.addBlocks toyExternals toyNow (fun _ _ => true) [toyRemaining, toyTogether]
        >>= fun st =>
      st.2.db.getEpochMetaData toyAlone.slotNumber toyAlone.parentHash >>= fun e =>
      pure (st₁.1 && st₂.1 && st.1 &&
        (st₁.2.db.epochMetaData.get (1, toyLeaving.hash)).isNone &&
        decide ((st₂.2.db.epochMetaData.get (1, toyLeaving.hash)).map
          (fun r => r.validators.length) = some 1) &&
        decide ((st.2.db.branchTo toyGenesis.hash 3 toyAlone.hash).map
          (fun bs => bs.map Block.slotNumber) = some [0, 1, 100]) &&
        decide (e.validators.length = 2))) = .ok true := by decide +kernel
  rcases bind_eq_ok.1 hcheck with ⟨c₀, h₀, hcheck⟩
  rcases bind_eq_ok.1 hcheck with ⟨⟨all₁, c₁⟩, hto, hcheck⟩
  rcases bind_eq_ok.1 hcheck with ⟨⟨added, c₂⟩, hadd, hcheck⟩
  rcases bind_eq_ok.1 hcheck with ⟨⟨all, c⟩, hfrom, hcheck⟩
  rcases bind_eq_ok.1 hcheck with ⟨e, he, hcheck⟩
  simp only [pure_eq_ok, Bool.and_eq_true, decide_eq_true_eq,
    Option.isNone_iff_eq_none] at hcheck
  rcases hcheck with ⟨⟨⟨⟨⟨⟨rfl, rfl⟩, rfl⟩, hnone⟩, hbrought⟩, hslots⟩, htwo⟩
  rcases Option.map_eq_some_iff.1 hbrought with ⟨r, hr, hone⟩
  exact ⟨c₀, c₁, c₂, c, r, e, h₀, run_of_addBlocks (fun _ _ _ => trivial) hto, hadd, hnone, hr,
    run_of_addBlocks (fun _ _ _ => trivial) hfrom, hslots, he, hone, htwo⟩

-- The two forks part at the boundary, so their records have one place.
example : (toyAlone.epoch, toyAlone.parentHash) = (toyTogether.epoch, toyTogether.parentHash) := by
  decide +kernel

end Zond
