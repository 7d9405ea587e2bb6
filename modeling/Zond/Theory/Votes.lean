import Zond.Theory.Chronicle

/-!
# One Vote per Validator and Epoch

An epoch record deals every validator to one slot of the epoch, and the signers of
a block are validators of its slot. Two things break this. A branch may use a slot twice,
since no block is compared with its parent. And in an epoch with fewer validators than
slots, a slot that was dealt to nobody is led by the first validator once the record has
been stored.

## Main definitions

* `Voting`: A block in a slot after its parent's that was dealt to somebody.
* `Elected`: The signers of every stored block are validators of its slot.

## Theorems

* `one_vote`: In runs of such blocks nobody signs twice in one epoch of a branch, and the
  stake found is at most the stake allotted.
-/

namespace Zond

open Ancestry EpochMetaData Outcome

/-- A block under a hash that is not in the store, after its parent, in a slot that
    its epoch's record, if there is one already, has dealt to somebody. -/
structure Voting (c : Chain) (b : Block) : Prop where
  fresh : c.db.core b.hash = none
  after : ∀ parent, c.db.blocks.get b.parentHash = some parent →
    parent.slotNumber < b.slotNumber
  dealt : ∀ e, c.db.getEpochMetaData b.slotNumber b.parentHash = .ok e →
    slotIndex b.slotNumber < e.validators.length

theorem Voting.isFresh {c : Chain} {b : Block} (h : Voting c b) : Fresh c b :=
  ⟨h.fresh, h.after⟩

/-- What a run keeps of the epochs besides: the signers of every block are validators of
    its slot, by the record its branch finds. -/
structure Elected (ext : Externals) (g : Block) (c : Chain) : Prop extends Recalled ext g c where
  seats : ∀ k x, c.db.blocks.get k = some x → k ≠ g.hash →
    (x.protocolTransactions.map ProtocolTransaction.pk).Nodup ∧
    ∃ e, c.db.getEpochMetaData x.slotNumber x.parentHash = .ok e ∧
      ∀ tx ∈ x.protocolTransactions, e.Seats (slotIndex x.slotNumber) tx.pk

section Step

variable {ext : Externals} {g : Block} {c c' : Chain} {b : Block} {a : Addition}
variable (hi : Elected ext g c) (hv : Voting c b) (ha : Added ext c b c' a)

include hi hv ha

theorem Elected.seats_new : ∃ e, c'.db.getEpochMetaData b.slotNumber b.parentHash = .ok e ∧
    ∀ tx ∈ b.protocolTransactions, e.Seats (slotIndex b.slotNumber) tx.pk := by
  have hx := hi.toRecalled.extends hv.isFresh ha
  have hslot := slot_ne_zero hi.toRecalled hv.isFresh ha
  rcases hi.toRecalled.epoch_cases ha.toExecuted with
    ⟨-, hrecord, hallotted⟩ | ⟨hne, hallotted, hslots, hat, hprev⟩
  · refine ⟨a.epoch, hx.getEpochMetaData hrecord, ?_⟩
    intro tx htx
    exact seats_of_initialFlags hallotted hslot (hv.dealt _ hrecord) ha.flags (ha.assigned tx htx)
  · -- The record is new: its slots are dealt or the node would have stopped.
    refine ⟨a.epoch.stored, ?_, ?_⟩
    · refine getEpochMetaData_of_opening ha.sameTree.keyed
        (hx.core _ _ (Store.core_of_get ha.parent))
        (parent_slot_lt hi.toRecalled hv.isFresh ha) hne ?_
      rw [hi.toRecalled.epochs_after ha, if_pos ⟨hne.symm, rfl⟩]
    · intro tx htx
      have hflags := ha.flags
      unfold StateContext.initialFlags at hflags
      rw [if_neg hslot] at hflags
      rcases bind_eq_ok.1 hflags with ⟨info, hinfo, -⟩
      exact seats_of_initialFlags hallotted hslot (slotIndex_lt hslots hinfo) ha.flags
        (ha.assigned tx htx)

end Step

section Run

variable {ext : Externals} {g : Block} {c c' : Chain} {b : Block} {now : UInt64}

theorem Elected.addBlock (hi : Elected ext g c) (hv : Voting c b)
    (h : c.addBlock ext now b = .ok (true, c')) : Elected ext g c' := by
  rcases parent_of_addBlock h with ⟨parent, hparent⟩
  have hslot := slotNumber_ne_zero (hv.after parent hparent)
  rcases added_of_addBlock hi.sound hslot h with ⟨a, ha⟩
  have hx := hi.toRecalled.extends hv.isFresh ha
  have hr := hi.toRecalled.addBlock hv.isFresh h
  refine ⟨hr, fun k x hget hk => ?_⟩
  rcases ha.block_after hget with ⟨-, hxp, hxs, htxs, -⟩ | ⟨-, hold⟩
  · rw [hxp, hxs, htxs]
    exact ⟨ha.signers, hi.seats_new hv ha⟩
  · rcases hi.seats k x hold hk with ⟨hnodup, e, he, hseats⟩
    exact ⟨hnodup, e, hx.getEpochMetaData he, hseats⟩

theorem Elected.genesisChain {preState : List (List UInt8 × UInt64)} {c₀ : Chain}
    (hg : g.slotNumber = 0) (h₀ : genesisChain ext g preState = .ok c₀) : Elected ext g c₀ := by
  have hi := Recalled.genesisChain hg h₀
  rcases genesisNode_of_ok hg h₀ with ⟨e, trie, total, hnode⟩
  exact ⟨hi, fun k x hx hk => absurd (hnode.block hx).1 hk⟩

end Run

section Branch

variable {ext : Externals} {g : Block} {c : Chain} (hi : Elected ext g c)
include hi

theorem Elected.signers_disjoint {k k' : Hash} {x x' : Block}
    (hdesc : Descends (c.db.parent g) k' k) (hne : k' ≠ k)
    (hx : c.db.blocks.get k = some x) (hx' : c.db.blocks.get k' = some x')
    (hk : k ≠ g.hash) (hk' : k' ≠ g.hash) (hepoch : x.epoch = x'.epoch)
    {tx tx' : ProtocolTransaction} (htx : tx ∈ x.protocolTransactions)
    (htx' : tx' ∈ x'.protocolTransactions) : tx.pk ≠ tx'.pk := by
  rcases hi.seats k x hx hk with ⟨-, e, he, hseats⟩
  rcases hi.seats k' x' hx' hk' with ⟨-, e', he', hseats'⟩
  have hsame := hi.toRecalled.record_ancestor hdesc hx' hx hepoch he'
  rw [he, Except.ok.injEq] at hsame
  subst hsame
  have hlt : x.slotNumber.toNat < x'.slotNumber.toNat := by
    rw [← Store.slotOf_of_get hx, ← Store.slotOf_of_get hx']
    exact (Descends.eq_or_lt hi.slots.slotOf_lt hdesc).resolve_left hne
  intro hpk
  rcases exists_of_getEpochMetaData he with ⟨last, hlast⟩
  have hindex := seats_disjoint (hi.records _ e hlast).1.nodup (hseats tx htx)
    (hpk ▸ hseats' tx' htx')
  rw [slotIndex_eq, slotIndex_eq] at hindex
  have hends : (epochOf x.slotNumber).toNat = (epochOf x'.slotNumber).toNat :=
    congrArg UInt64.toNat hepoch
  rw [toNat_epochOf, toNat_epochOf] at hends
  omega

/-- Whose votes a closing block stands for: its signers, or the first validator for
    genesis, whose slot nobody else signs in. -/
def voters (g : Block) (db : Store) (e : EpochMetaData) (k : Hash) : List PublicKey :=
  if k = g.hash then e.validators.take 1
  else ((db.blocks.get k).map (fun x => x.protocolTransactions.map ProtocolTransaction.pk)).getD []

theorem Elected.voters_spec {e : EpochMetaData} (hallotted : e.Allotted)
    (hone : g.protocolTransactions.length = 1) {k : Hash} {x : Block}
    (hx : c.db.blocks.get k = some x)
    (he : c.db.getEpochMetaData x.slotNumber x.parentHash = .ok e) :
    (voters g c.db e k).Nodup ∧ (voters g c.db e k).length = c.db.signers k ∧
      ∀ pk ∈ voters g c.db e k, e.Seats (slotIndex x.slotNumber) pk := by
  unfold voters
  by_cases hk : k = g.hash
  · rcases hi.genesis with ⟨x₀, hx₀, hslot₀, htxs₀⟩
    have hxx : x = x₀ := by
      rw [hk, hx₀, Option.some.injEq] at hx
      exact hx.symm
    subst hxx
    rw [if_pos hk, Store.signers_of_get hx, htxs₀, hone, hslot₀]
    refine ⟨hallotted.nodup.sublist (List.take_sublist _ _), ?_, ?_⟩
    · rw [List.length_take]
      have hpos := hallotted.nonempty
      omega
    · intro pk hpk
      rcases List.mem_take_iff_getElem.1 hpk with ⟨i, hi, hget⟩
      have hzero : i = 0 := by omega
      subst hzero
      exact ⟨0, List.getElem?_eq_some_iff.2 ⟨by omega, hget⟩, rfl⟩
  · rcases hi.seats k x hx hk with ⟨hnodup, e₁, he₁, hseats⟩
    rw [he, Except.ok.injEq] at he₁
    subst he₁
    rw [if_neg hk, Store.signers_of_get hx, hx]
    refine ⟨hnodup, List.length_map _, ?_⟩
    intro pk hpk
    rcases List.mem_map.1 hpk with ⟨tx, htx, rfl⟩
    exact hseats tx htx

theorem Elected.sum_signers_le {s s' : StateDB} {slot : UInt64} {key : Hash}
    {pm first : BlockMetaData} {path : List Hash} {e e' : EpochMetaData}
    (hone : g.protocolTransactions.length = 1)
    (hc : Closed ext c.db s slot key s' e' pm first path e) :
    (path.map c.db.signers).sum ≤ e.validators.length := by
  rcases exists_of_getEpochMetaData hc.record with ⟨last, hlast⟩
  have hallotted := (hi.records _ e hlast).1
  have hget := orFail_eq_ok.1 hc.parent
  have hstored := (nextEpochMetaData_of_ok hc.next).1
  rcases hi.toRecalled.epochPath_spec (recorded_of_get hi.sound.keyed hget) hstored hc.walked with
    ⟨hall, hpairs⟩
  have hspec : ∀ k ∈ path, ∃ x, c.db.blocks.get k = some x ∧ x.epoch = pm.epoch ∧
      (voters g c.db e k).Nodup ∧ (voters g c.db e k).length = c.db.signers k ∧
      ∀ pk ∈ voters g c.db e k, e.Seats (slotIndex x.slotNumber) pk := by
    intro k hk
    rcases hall k hk with ⟨x, hx, hepoch, -⟩
    exact ⟨x, hx, hepoch, hi.voters_spec hallotted hone hx (hi.toRecalled.record_path hc hk hx)⟩
  have hsum : (path.map c.db.signers).sum = (path.flatMap (voters g c.db e)).length := by
    rw [List.length_flatMap]
    refine congrArg List.sum (List.map_congr_left ?_)
    intro k hk
    rcases hspec k hk with ⟨-, -, -, -, hlength, -⟩
    exact hlength.symm
  have hnodup : (path.flatMap (voters g c.db e)).Nodup := by
    refine List.nodup_flatMap.2 ⟨?_, ?_⟩
    · intro k hk
      rcases hspec k hk with ⟨-, -, -, hnodup, -⟩
      exact hnodup
    · -- Different slots of one epoch have no validator in common.
      refine List.Pairwise.imp_of_mem ?_ hpairs
      intro k k' hk hk' hlt pk hpk hpk'
      rcases hspec k hk with ⟨x, hx, hepoch, -, -, hseats⟩
      rcases hspec k' hk' with ⟨x', hx', hepoch', -, -, hseats'⟩
      have hindex := seats_disjoint hallotted.nodup (hseats pk hpk) (hseats' pk hpk')
      have hends : (epochOf x.slotNumber).toNat = (epochOf x'.slotNumber).toNat :=
        congrArg UInt64.toNat (hepoch.trans hepoch'.symm)
      rw [Store.slotOf_of_get hx, Store.slotOf_of_get hx'] at hlt
      rw [slotIndex_eq, slotIndex_eq] at hindex
      rw [toNat_epochOf, toNat_epochOf] at hends
      omega
  rw [hsum]
  refine hnodup.length_le_of_subset ?_
  intro pk hpk
  rcases List.mem_flatMap.1 hpk with ⟨k, hk, hpk⟩
  rcases hspec k hk with ⟨x, -, -, -, -, hseats⟩
  rcases hseats pk hpk with ⟨i, hget, -⟩
  exact List.mem_of_getElem? hget

theorem Elected.found_le_alloted (hone : g.protocolTransactions.length = 1)
    (hfits : ∀ key e, c.db.epochMetaData.get key = some e →
      e.validators.length * Config.stakeAmount.toNat < 2 ^ 64)
    {s s' : StateDB} {slot : UInt64} {k : Hash} {e' : EpochMetaData}
    (h : Chain.calculateEpochMetaData ext c.db s slot k = .ok (s', e')) :
    e'.totalStakeAmountFound ≤ e'.totalStakeAmountAlloted := by
  -- A new record: the signers of the closed epoch are among its validators.
  have hclosed : ∀ {s s' : StateDB} {slot : UInt64} {k : Hash} {e' : EpochMetaData}
      {pm first : BlockMetaData} {path : List Hash} {e : EpochMetaData},
      Closed ext c.db s slot k s' e' pm first path e →
      e'.totalStakeAmountFound ≤ e'.totalStakeAmountAlloted := by
    intro s s' slot k e' pm first path e hc
    rcases exists_of_getEpochMetaData hc.record with ⟨last, hlast⟩
    rcases hc.allotted (hi.records _ e hlast).1.nodup with ⟨-, -, -, -, hfound, halloted⟩
    rw [hfound, halloted]
    exact stakes_le (hi.sum_signers_le hone hc) (hfits _ e hlast)
  rcases calculateEpochMetaData_of_ok h with ⟨pm, hpm, ⟨-, hrecord, -⟩ | ⟨-, _, _, _, hc⟩⟩
  · -- A stored record: that of genesis, or one that was new once.
    rcases exists_of_getEpochMetaData hrecord with ⟨last, hlast⟩
    by_cases hzero : epochOf slot = 0
    · rw [(hi.records _ e' hlast).2 hzero]
      exact UInt64.le_refl _
    · rcases hi.derived _ e' hlast hzero with ⟨r, s₁, s₁', e₁, hr, -, hne, rfl, hcalc⟩
      rcases calculateEpochMetaData_of_ok (hcalc slot rfl) with
        ⟨pm₁, hpm₁, ⟨hsame, -⟩ | ⟨-, _, _, _, hc⟩⟩
      · rw [Store.core_of_get (orFail_eq_ok.1 hpm₁), Option.some.injEq] at hr
        subst hr
        exact absurd hsame hne
      · have hnew := hclosed hc
        exact hnew
  · exact hclosed hc

end Branch

/-- In every run of such blocks from genesis: two blocks of one branch and one epoch
    have no signer in common; and as long as no epoch has so many validators that
    their stake exceeds a `uint64`, every record that is computed for an epoch has
    found at most the stake it allotted. -/
theorem one_vote {ext : Externals} {g : Block} {preState : List (List UInt8 × UInt64)}
    {c₀ c : Chain} (hg : g.slotNumber = 0) (hone : g.protocolTransactions.length = 1)
    (h₀ : genesisChain ext g preState = .ok c₀) (hrun : Run ext Voting c₀ c) :
    (∀ k k' x x', c.db.blocks.get k = some x → c.db.blocks.get k' = some x' →
      k ≠ g.hash → k' ≠ k → Descends (c.db.parent g) k' k → x.epoch = x'.epoch →
      ∀ tx ∈ x.protocolTransactions, ∀ tx' ∈ x'.protocolTransactions, tx.pk ≠ tx'.pk) ∧
    ((∀ key e, c.db.epochMetaData.get key = some e →
        e.validators.length * Config.stakeAmount.toNat < 2 ^ 64) →
      ∀ s slot k s' e', Chain.calculateEpochMetaData ext c.db s slot k = .ok (s', e') →
        e'.totalStakeAmountFound ≤ e'.totalStakeAmountAlloted) := by
  have hi := hrun.invariant (Elected ext g) (fun hi hv hadd => hi.addBlock hv hadd)
    (.genesisChain hg h₀)
  refine ⟨?_, fun hfits s slot k s' e' hcalc => hi.found_le_alloted hone hfits hcalc⟩
  intro k k' x x' hx hx' hk hne hdesc hepoch tx htx tx' htx'
  have hk' : k' ≠ g.hash := by
    rcases Relation.ReflTransGen.cases_head hdesc with heq | ⟨p, hp, -⟩
    · exact absurd heq hne
    · exact (Store.parent_eq_some hp).1
  exact hi.signers_disjoint hdesc hne hx hx' hk hk' hepoch htx htx'

def votingFresh (c : Chain) (b : Block) : Bool :=
  ascendsFresh c b && match c.db.getEpochMetaData b.slotNumber b.parentHash with
    | .ok e => decide (slotIndex b.slotNumber < e.validators.length)
    | .error _ => true

theorem voting_of_votingFresh (c : Chain) (b : Block) (h : votingFresh c b = true) :
    Voting c b := by
  unfold votingFresh at h
  rw [Bool.and_eq_true] at h
  have hfresh := fresh_of_ascendsFresh c b h.1
  refine ⟨hfresh.fresh, hfresh.after, ?_⟩
  intro e he
  have hdealt := h.2
  rw [he] at hdealt
  exact of_decide_eq_true hdealt

theorem toyGenesis_signers : toyGenesis.protocolTransactions.length = 1 := by decide +kernel

theorem toyRun_voting : ∃ c₀ c, genesisChain toyExternals toyGenesis toyPreState = .ok c₀ ∧
    Run toyExternals Voting c₀ c ∧
    (c.db.blocks.get toyFirst.hash).map Block.epoch = some 1 ∧
    (c.db.blocks.get toySecond.hash).map Block.epoch = some 1 ∧
    c.db.parent toyGenesis toySecond.hash = some toyFirst.hash ∧
    toySecond.hash ≠ toyFirst.hash := by
  refine exists_run_of_check toyNow [toyFirst, toySecond] _ voting_of_votingFresh ?_
  decide +kernel

theorem toyRun_one_vote : ∃ c₀ c x x', genesisChain toyExternals toyGenesis toyPreState = .ok c₀ ∧
    Run toyExternals Voting c₀ c ∧ c.db.blocks.get toyFirst.hash = some x ∧
    c.db.blocks.get toySecond.hash = some x' ∧ x.epoch = x'.epoch ∧
    ∀ tx ∈ x.protocolTransactions, ∀ tx' ∈ x'.protocolTransactions, tx.pk ≠ tx'.pk := by
  rcases toyRun_voting with ⟨c₀, c, h₀, hrun, hfirst, hsecond, hparent, hne⟩
  rcases Option.map_eq_some_iff.1 hfirst with ⟨x, hx, hxe⟩
  rcases Option.map_eq_some_iff.1 hsecond with ⟨x', hx', hxe'⟩
  have hepoch : x.epoch = x'.epoch := hxe.trans hxe'.symm
  have hvotes := one_vote toyGenesis_slotNumber toyGenesis_signers h₀ hrun
  exact ⟨c₀, c, x, x', h₀, hrun, hx, hx', hepoch, hvotes.1 _ _ x x' hx hx' toyFirst_hash_ne hne
    (Descends.parent hparent) hepoch⟩

def toyThird : Block := toyBlock 1 100 toyRepeat.hash [] 4

/-- The record of the epoch of `slot` on top of a stored block. -/
def epochRecordOn (ext : Externals) (c : Chain) (slot : UInt64) (k : Hash) : Go EpochMetaData := do
  let s ← c.stateAt k
  let (_, e) ← Chain.calculateEpochMetaData ext c.db s slot k
  pure e

set_option synthInstance.maxSize 200 in
/-- The leader of slot 100 signs three blocks of one branch there. The next epoch
    then finds three stakes where two were allotted. -/
theorem votes_repeated : ∃ c₀ c, genesisChain toyExternals toyGenesis toyPreState = .ok c₀ ∧
    Run toyExternals (fun _ _ => True) c₀ c ∧
    (∃ x x' tx tx', c.db.blocks.get toyFirst.hash = some x ∧
      c.db.blocks.get toyRepeat.hash = some x' ∧ toyRepeat.hash ≠ toyFirst.hash ∧
      c.db.parent toyGenesis toyRepeat.hash = some toyFirst.hash ∧ x.epoch = x'.epoch ∧
      tx ∈ x.protocolTransactions ∧ tx' ∈ x'.protocolTransactions ∧ tx.pk = tx'.pk) ∧
    ∃ e, epochRecordOn toyExternals c 200 toyThird.hash = .ok e ∧
      ¬e.totalStakeAmountFound ≤ e.totalStakeAmountAlloted := by
  have hrun := exists_toyRun [toyFirst, toyRepeat, toyThird] (fun _ c =>
    toyRepeat.hash ≠ toyFirst.hash ∧
    c.db.parent toyGenesis toyRepeat.hash = some toyFirst.hash ∧
    (c.db.blocks.get toyFirst.hash).map (fun x =>
      (x.epoch, x.protocolTransactions.map ProtocolTransaction.pk)) = some (1, [(toyKey 1).pk]) ∧
    (c.db.blocks.get toyRepeat.hash).map (fun x =>
      (x.epoch, x.protocolTransactions.map ProtocolTransaction.pk)) = some (1, [(toyKey 1).pk]) ∧
    (epochRecordOn toyExternals c 200 toyThird.hash).map (fun e =>
      decide (e.totalStakeAmountFound ≤ e.totalStakeAmountAlloted)) = .ok false)
    (by decide +kernel)
  rcases hrun with ⟨c₀, c, h₀, hrun, hne, hparent, hfirst, hrepeat, hrecord⟩
  rcases Option.map_eq_some_iff.1 hfirst with ⟨x, hx, hxf⟩
  rcases Option.map_eq_some_iff.1 hrepeat with ⟨x', hx', hxf'⟩
  rw [Prod.mk.injEq] at hxf hxf'
  have hsigned : ∀ y : Block, y.protocolTransactions.map ProtocolTransaction.pk = [(toyKey 1).pk] →
      ∃ tx ∈ y.protocolTransactions, tx.pk = (toyKey 1).pk := by
    intro y hy
    exact List.mem_map.1 (hy ▸ List.mem_cons_self)
  rcases hsigned x hxf.2 with ⟨tx, htx, hpk⟩
  rcases hsigned x' hxf'.2 with ⟨tx', htx', hpk'⟩
  refine ⟨c₀, c, h₀, hrun, ⟨x, x', tx, tx', hx, hx', hne, hparent, hxf.1.trans hxf'.1.symm, htx,
    htx', hpk.trans hpk'.symm⟩, ?_⟩
  cases hrec : epochRecordOn toyExternals c 200 toyThird.hash with
  | error f =>
    rw [hrec] at hrecord
    cases hrecord
  | ok e =>
    rw [hrec] at hrecord
    exact ⟨e, rfl, of_decide_eq_false (Except.ok.inj hrecord)⟩

end Zond
