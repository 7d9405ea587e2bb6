import Zond.Theory.NextEpoch

/-!
# The Last Stake of an Epoch

A stake leaves its amount as the pending stake of its signer, and until the epoch is closed only
a later stake of the same account changes it. So on a chain of proper blocks the amount that is
pending when the first block of a later epoch is processed is that of the last stake.

It takes effect, unless it is a full stake and the key staked in more than one block: the updates
of all blocks are replayed, and the second one of a key finds nothing pending.

## Main definitions

* `Block.pledges`: The amounts an account stakes in a block.
* `Account.Pledged`: The last of some amounts is pending.

## Theorems

* `Account.Runs.pledged`: Transactions leave the last stake of an account pending.
* `pledged_of_branch`: So does the end of a branch, for the stakes of its last epoch.
* `takesEffect_iff`: When the last stake of a key takes effect.
* `staked_twice`: A key that stakes in two blocks and is not a validator.
-/

namespace Zond

open Outcome StateDB

/-- The amount a transaction stakes for an account. -/
def AnyTransaction.pledge (c : Crypto) (x : Address) : AnyTransaction → Option UInt64
  | .inl (.stake tx) => if c.getAddressFromUnSizedPK tx.pk = x then some tx.amount else none
  | _ => none

/-- The amounts an account stakes in a block. Genesis was accounted for when it was
    committed. -/
def Block.pledges (c : Crypto) (x : Address) (b : Block) : List UInt64 :=
  if b.slotNumber = 0 then [] else b.allTransactions.filterMap (AnyTransaction.pledge c x)

section Pledges

variable {c : Crypto} {x : Address} {tx : AnyTransaction} {a a' : Account} {v : UInt64}
variable {amounts : List UInt64}

theorem AnyTransaction.exists_stake_of_pledge (h : tx.pledge c x = some v) :
    ∃ t : Stake, tx = .inl (.stake t) ∧ c.getAddressFromUnSizedPK t.pk = x ∧ t.amount = v := by
  unfold AnyTransaction.pledge at h
  split at h
  · split at h
    · exact ⟨_, rfl, ‹_›, Option.some.inj h⟩
    · cases h
  · cases h

theorem pendingAfter_of_pledge (h : tx.pledge c x = none) (hself : tx.signer c = x) (p : Int) :
    Account.pendingAfter p tx = p := by
  unfold Account.pendingAfter
  split
  · exact absurd (if_pos hself) (fun hsome => nomatch h.symm.trans hsome)
  · rfl

theorem Block.exists_stake_of_pledge {b : Block} (htx : tx ∈ b.allTransactions)
    (h : tx.pledge c x = some v) :
    ∃ t : Stake, .stake t ∈ b.transactions ∧ c.getAddressFromUnSizedPK t.pk = x ∧ t.amount = v := by
  rcases AnyTransaction.exists_stake_of_pledge h with ⟨t, rfl, haddr, hamount⟩
  refine ⟨t, ?_, haddr, hamount⟩
  rcases List.mem_append.1 htx with hmem | hmem
  · rcases List.mem_map.1 hmem with ⟨_, -, heq⟩
    cases heq
  · rcases List.mem_map.1 hmem with ⟨_, hmem, heq⟩
    cases heq
    exact hmem

theorem Block.mem_updates_of_pledges {b : Block} (h : v ∈ b.pledges c x) :
    b.slotNumber ≠ 0 ∧ ∃ pk ∈ b.updates, c.getAddressFromUnSizedPK pk = x := by
  unfold Block.pledges at h
  split at h
  · cases h
  · rename_i hslot
    rcases List.mem_filterMap.1 h with ⟨tx, htx, hv⟩
    rcases b.exists_stake_of_pledge htx hv with ⟨t, ht, haddr, -⟩
    refine ⟨hslot, t.pk, ?_, haddr⟩
    unfold Block.updates
    rw [if_neg hslot, Block.mem_getPendingValidatorsUpdate]
    exact ⟨t, ht, rfl⟩

theorem Block.Moderate.pledge {b : Block} (h : b.Moderate) (htx : tx ∈ b.allTransactions)
    (hv : tx.pledge c x = some v) : v.toNat < 2 ^ 63 := by
  rcases b.exists_stake_of_pledge htx hv with ⟨t, ht, -, rfl⟩
  have hfull : t.gas.toNat * t.gasPrice.toNat + t.amount.toNat < 2 ^ 63 := h.user _ ht
  omega

namespace Account

/-- The last of the amounts is pending, in an account that cannot be deleted. -/
def Pledged (amounts : List UInt64) (a : Account) : Prop :=
  ∀ v, amounts.getLast? = some v → a.pendingStakeBalance = v.toNat ∧ a.nonce ≠ 0

theorem Pledged.drifts (h : a.Pledged amounts) (hdrifts : a.Drifts a') : a'.Pledged amounts := by
  intro v hv
  rw [hdrifts.of_nonce (h v hv).2]
  exact h v hv

theorem Steps.pledged (h : Steps c x tx a a') (hlast : tx.nonce + 1 ≠ 0)
    (hsmall : ∀ v, tx.pledge c x = some v → v.toNat < 2 ^ 63) (ha : a.Pledged amounts) :
    a'.Pledged (amounts ++ (tx.pledge c x).toList) := by
  cases hpledge : tx.pledge c x with
  | some v =>
    intro w hw
    rw [Option.toList_some, List.getLast?_concat, Option.some.injEq] at hw
    subst hw
    rcases AnyTransaction.exists_stake_of_pledge hpledge with ⟨t, rfl, haddr, rfl⟩
    rcases h.own haddr with ⟨hnonce, hacts⟩
    refine ⟨?_, by rw [hacts.nonce, ← hnonce]; exact hlast⟩
    rcases hacts with ⟨m, -, hrest, -⟩
    rw [hrest]
    exact int64_of_lt (hsmall _ hpledge)
  | none =>
    rw [Option.toList_none, List.append_nil]
    by_cases hself : tx.signer c = x
    · intro w hw
      rcases h.own hself with ⟨hnonce, hacts⟩
      refine ⟨?_, by rw [hacts.nonce, ← hnonce]; exact hlast⟩
      rcases hacts with ⟨m, hdrift, hrest, -⟩
      rw [hrest]
      exact (pendingAfter_of_pledge hpledge hself _).trans (ha.drifts hdrift w hw).1
    · exact ha.drifts (h.other hself)

theorem Runs.pledged {txs : List AnyTransaction} (h : Runs c x txs a a')
    (hlast : ∀ tx ∈ txs, tx.nonce + 1 ≠ 0)
    (hsmall : ∀ tx ∈ txs, ∀ v, tx.pledge c x = some v → v.toNat < 2 ^ 63) (ha : a.Pledged amounts) :
    a'.Pledged (amounts ++ txs.filterMap (AnyTransaction.pledge c x)) := by
  induction txs generalizing a amounts with
  | nil =>
    rw [List.filterMap_nil, List.append_nil]
    exact ha.drifts h
  | cons tx txs ih =>
    rcases h with ⟨m, hstep, hrest⟩
    have hm := hstep.pledged (hlast tx List.mem_cons_self) (hsmall tx List.mem_cons_self) ha
    have hall := ih hrest (fun t ht => hlast t (List.mem_cons_of_mem _ ht))
      (fun t ht => hsmall t (List.mem_cons_of_mem _ ht)) hm
    have hcons : (tx :: txs).filterMap (AnyTransaction.pledge c x) =
        (tx.pledge c x).toList ++ txs.filterMap (AnyTransaction.pledge c x) := by
      rw [List.filterMap_cons]
      cases tx.pledge c x <;> rfl
    rw [hcons, ← List.append_assoc]
    exact hall

end Account

end Pledges

section Run

variable {vm : Machine} {g : Block} {preState : List (List UInt8 × UInt64)} {c₀ c : Chain}
variable (hvm : vm.Apart) (hg : Grounded g) (hmoderate : g.Moderate)
variable (hpre : ModeratePreState preState) (h₀ : genesisChain vm g preState = .ok c₀)
variable (hzero : c₀.tries.get zeroHash = none) (hrun : Run vm (Proper vm) c₀ c)
include hvm hg hmoderate hpre h₀ hzero hrun

theorem pledged_of_branch {x : Address} (hx : ¬vm.Creates x)
    (hreserve : Config.coinBaseAddress ≠ x) {k : Hash} {bs : List Block} {b : Block}
    (hbranch : c.db.Branch g.hash k (bs ++ [b])) : ∃ s, c.stateAt k = .ok s ∧
      (s.account x).Pledged
        ((closing b.epoch (bs ++ [b])).reverse.flatMap (Block.pledges vm.toCrypto x)) := by
  refine closing_invariant (fun blocks s => (s.account x).Pledged (blocks.reverse.flatMap
    (Block.pledges vm.toCrypto x))) hvm hg hmoderate hpre h₀ hzero ?_ ?_ hrun hbranch
  · -- The stakes of genesis do not count.
    intro b s hslot v hv
    rcases List.mem_flatMap.1 (List.mem_of_getLast? hv) with ⟨y, hy, hamount⟩
    have hne := (Block.mem_updates_of_pledges hamount).1
    rw [List.mem_singleton.1 (List.mem_reverse.1 hy)] at hne
    exact absurd hslot hne
  · intro c b parent w blocks s r p t trie hP hs hsound hI hw htrie
    rcases hsound x hx hreserve with ⟨hfit, hsolvent⟩
    rcases runs_of_prepareBlock hvm hx hreserve hP.moderate hs hfit hsolvent hw htrie with
      ⟨m, m', -, hstays, hruns, hdrifts⟩
    have hbefore : m.Pledged (blocks.reverse.flatMap (Block.pledges vm.toCrypto x)) := by
      rcases hI with ⟨hsame, hI⟩ | rfl
      · rw [hstays hsame]
        exact hI
      · -- The block opens its epoch.
        exact fun v hv => nomatch hv
    have hpledges : (b.updateRoots r p t).pledges vm.toCrypto x =
        b.allTransactions.filterMap (AnyTransaction.pledge vm.toCrypto x) := if_neg hP.slot
    rw [List.reverse_cons, List.flatMap_append, List.flatMap_singleton, hpledges]
    exact (hruns.pledged hP.counts (fun tx htx v => hP.moderate.pledge htx) hbefore).drifts hdrifts

/-- On a chain of proper blocks, at the close of any epoch: the last stake of a key whose
    address no other key staked for takes effect, if and only if it is not a full stake or the
    key staked in a single block of the epoch. -/
theorem takesEffect_iff {k : Hash} {b : Block} (hk : c.db.blocks.get k = some b) :
    ∃ bs s, c.db.Branch g.hash k (bs ++ [b]) ∧ c.stateAt k = .ok s ∧
      let blocks := closing b.epoch (bs ++ [b])
      ∀ pk a, Config.coinBaseAddress ≠ vm.getAddressFromUnSizedPK pk →
        (blocks.reverse.flatMap
          (Block.pledges vm.toCrypto (vm.getAddressFromUnSizedPK pk))).getLast? = some a →
        KeysApart vm [pk] (blocks.flatMap Block.updates) →
        ∀ slot s' e', epochOf slot ≠ b.epoch →
          Chain.calculateEpochMetaData vm c.db s slot k = .ok (s', e') →
          (TakesEffect vm s' e' pk a ↔ (Config.stakeAmount ≤ a → restakes blocks pk = 1)) := by
  have hoffered := hrun.mono (fun _ _ h => Proper.toOffered h)
  rcases rooted_of_run hg h₀ hoffered with ⟨hi, hr⟩
  rcases hi.slots.exists_branch hk with ⟨bs, hbranch⟩
  rcases funded_of_branch hvm hg hmoderate hpre h₀ hzero hrun hbranch with ⟨s, hs, -⟩
  refine ⟨bs, s, hbranch, hs, fun pk a hreserve hlast hapart slot s' e' hslot h => ?_⟩
  have hx := hvm.keys _ (Crypto.keyAddress_of_ne rfl (Ne.symm hreserve))
  rcases pledged_of_branch hvm hg hmoderate hpre h₀ hzero hrun hx hreserve hbranch with
    ⟨s₁, hs₁, hpledged⟩
  rw [hs, Except.ok.injEq] at hs₁
  subst hs₁
  rcases exists_closingPath hi hr hk hbranch with ⟨bm, path, hbm, hepoch, hpath, hmap⟩
  rcases calculateEpochMetaData_of_ok h with
    ⟨pm, hpm, ⟨hsame, -⟩ | ⟨-, first, path', e, hclosed⟩⟩
  · cases hpm.symm.trans hbm
    exact absurd (hsame.symm.trans hepoch) hslot
  · cases hclosed.parent.symm.trans hbm
    cases hclosed.walked.symm.trans hpath
    have hnodup : e.validators.Nodup := by
      rcases exists_of_getEpochMetaData hclosed.record with ⟨last, hget⟩
      exact (hi.records _ _ hget).1.nodup
    have hupdates : path.flatMap c.db.pendingUpdates =
        (closing b.epoch (bs ++ [b])).flatMap Block.updates := by
      rw [List.flatMap_def, pendingUpdates_path hmap, ← List.flatMap_def]
    have hinj := hapart pk (List.mem_singleton_self pk)
    -- The last stake is one of the key, so the key is among the updates.
    have hpos : 0 < restakes (closing b.epoch (bs ++ [b])) pk := by
      rcases List.mem_flatMap.1 (List.mem_of_getLast? hlast) with ⟨y, hy, hamount⟩
      rcases Block.mem_updates_of_pledges hamount with ⟨-, pk', hmem, haddr⟩
      have hy := List.mem_reverse.1 hy
      have hpk := hinj pk' (List.mem_flatMap.2 ⟨y, hy, hmem⟩) haddr
      exact List.countP_pos_iff.2 ⟨y, hy, decide_eq_true (hpk ▸ hmem)⟩
    have heffect := hclosed.effect_iff hnodup (hupdates ▸ hinj) (hpledged a hlast).1
      (stakeBlocks_path hmap pk ▸ hpos)
    rwa [stakeBlocks_path hmap] at heffect

end Run

def toyStaking : Block :=
  toyBlock 1 100 toyGenesis.hash [toyStakeTx 2 Config.stakeAmount 1] 2

/-- The blocks of the first epoch at the end of a branch of the toy network. -/
def toyClosing (c : Chain) (k : Hash) : Option (List Block) :=
  (c.db.branchTo toyGenesis.hash 3 k).map (closing 1)

/-- What is checked of the run over `toyStaking`. -/
def ToyStaked (c₀ c : Chain) : Prop :=
  c₀.tries.get zeroHash = none ∧
  (c.db.blocks.get toyStaking.hash).map Block.epoch = some 1 ∧
  (toyClosing c toyStaking.hash).map (fun blocks => (blocks.flatMap Block.updates,
    blocks.reverse.flatMap (Block.pledges toyCrypto (toyAddress 2)),
    restakes blocks (toyKey 2).pk)) = some ([(toyKey 2).pk], [Config.stakeAmount], 1) ∧
  (c.stateAt toyStaking.hash).map (fun s =>
    (Chain.calculateEpochMetaData toyExternals c.db s 200 toyStaking.hash).toBool) = .ok true

instance (c₀ c : Chain) : Decidable (ToyStaked c₀ c) :=
  inferInstanceAs (Decidable (_ ∧ _ ∧ _ ∧ _))

theorem toyRun_staking : ∃ c₀ c, genesisChain toyExternals toyGenesis toyPreState = .ok c₀ ∧
    Run toyExternals (Proper toyExternals) c₀ c ∧ ToyStaked c₀ c :=
  exists_run_of_check toyNow [toyStaking] ToyStaked (fun _ _ => proper_of_toyProper)
    (by decide +kernel)

theorem toyRun_takesEffect : ∃ c₀ c s s' e',
    genesisChain toyExternals toyGenesis toyPreState = .ok c₀ ∧
    Run toyExternals (Proper toyExternals) c₀ c ∧ c.stateAt toyStaking.hash = .ok s ∧
    Chain.calculateEpochMetaData toyExternals c.db s 200 toyStaking.hash = .ok (s', e') ∧
    TakesEffect toyExternals s' e' (toyKey 2).pk Config.stakeAmount := by
  rcases toyRun_staking with ⟨c₀, c, h₀, hrun, hzero, hepoch, hblocks, hstate⟩
  rcases Option.map_eq_some_iff.1 hepoch with ⟨b, hb, hone⟩
  rcases takesEffect_iff toyVm_apart toyGenesis_grounded (by decide +kernel) (by decide +kernel)
    h₀ hzero hrun hb with ⟨bs, s, hbranch, hs, hiff⟩
  rcases Option.map_eq_some_iff.1 hblocks with ⟨blocks, hclosing, hfields⟩
  rcases Option.map_eq_some_iff.1 hclosing with ⟨bs', hbranch', rfl⟩
  rw [← hbranch.unique (Store.branch_of_branchTo hbranch'), Prod.mk.injEq, Prod.mk.injEq] at hfields
  rcases hfields with ⟨hupdates, hpledges, honce⟩
  have haddr : toyExternals.getAddressFromUnSizedPK (toyKey 2).pk = toyAddress 2 := by
    decide +kernel
  rw [hs] at hstate
  rcases exists_ok_of_toBool (Except.ok.inj hstate) with ⟨⟨s', e'⟩, hcalc⟩
  dsimp only at hiff
  rw [hone] at hiff
  have heffect := hiff (toyKey 2).pk Config.stakeAmount
  rw [show toyVm.getAddressFromUnSizedPK (toyKey 2).pk = toyAddress 2 from haddr] at heffect
  refine ⟨c₀, c, s, s', e', h₀, hrun, hs, hcalc, (heffect (by decide) ?_ ?_ 200 s' e' (by decide)
    hcalc).2 (fun _ => honce)⟩
  · exact (congrArg List.getLast? hpledges).trans rfl
  · rw [hupdates]
    exact fun pk hpk pk' hpk' _ => (List.mem_singleton.1 hpk').trans (List.mem_singleton.1 hpk).symm

def toyRestaking : Block :=
  toyBlock 2 101 toyStaking.hash [toyStakeTx 2 Config.stakeAmount 3] 2

def toyOpening : Block := toyBlock 1 200 toyRestaking.hash [] 3

/-- Key 2 stakes in two blocks of the epoch. The node accepts the block that opens the
    next one, and the key has neither stake nor a place among the validators. -/
theorem staked_twice : ∃ c₀ c blocks s s' e',
    genesisChain toyExternals toyGenesis toyPreState = .ok c₀ ∧
    Run toyExternals (Proper toyExternals) c₀ c ∧
    (c.db.blocks.get toyOpening.hash).map Block.parentHash = some toyRestaking.hash ∧
    toyClosing c toyRestaking.hash = some blocks ∧
    blocks.reverse.flatMap (Block.pledges toyCrypto (toyAddress 2))
      = [Config.stakeAmount, Config.stakeAmount] ∧
    c.stateAt toyRestaking.hash = .ok s ∧
    Chain.calculateEpochMetaData toyExternals c.db s 200 toyRestaking.hash = .ok (s', e') ∧
    (toyKey 2).pk ∉ e'.validators ∧ s'.getStakeBalance (toyAddress 2) = 0 ∧
    ¬TakesEffect toyExternals s' e' (toyKey 2).pk Config.stakeAmount := by
  have hrun : ∃ c₀ c, genesisChain toyExternals toyGenesis toyPreState = .ok c₀ ∧
      Run toyExternals (Proper toyExternals) c₀ c ∧ _ := exists_run_of_check toyNow
    [toyStaking, toyRestaking, toyOpening] (fun _ c =>
    (c.db.blocks.get toyOpening.hash).map Block.parentHash = some toyRestaking.hash ∧
    (toyClosing c toyRestaking.hash).map (fun blocks =>
      blocks.reverse.flatMap (Block.pledges toyCrypto (toyAddress 2)))
        = some [Config.stakeAmount, Config.stakeAmount] ∧
    (c.stateAt toyRestaking.hash).map (fun s =>
      (Chain.calculateEpochMetaData toyExternals c.db s 200 toyRestaking.hash).map (fun r =>
        (decide ((toyKey 2).pk ∈ r.2.validators), r.1.getStakeBalance (toyAddress 2))))
        = .ok (.ok (false, 0))) (fun _ _ => proper_of_toyProper) (by decide +kernel)
  rcases hrun with ⟨c₀, c, h₀, hrun, hopening, hblocks, hstate⟩
  rcases Option.map_eq_some_iff.1 hblocks with ⟨blocks, hclosing, hpledges⟩
  rcases map_eq_ok.1 hstate with ⟨s, hs, hcalc⟩
  rcases map_eq_ok.1 hcalc with ⟨⟨s', e'⟩, hcalc, hboth⟩
  rw [Prod.mk.injEq] at hboth
  have hleft : (toyKey 2).pk ∉ e'.validators := of_decide_eq_false hboth.1
  exact ⟨c₀, c, blocks, s, s', e', h₀, hrun, hopening, hclosing, hpledges, hs, hcalc, hleft, hboth.2,
    fun heffect => hleft (heffect.1 (UInt64.le_refl _)).1⟩

end Zond
