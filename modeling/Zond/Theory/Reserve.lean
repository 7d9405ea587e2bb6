import Zond.Theory.Branch

/-!
# The Reserve

Rewards come out of the reserve, an account that no key signs for. Each protocol transaction
of a block takes its reward out of it, without asking what is there; user transactions and
contracts can only pay in. So what a block leaves in the reserve at the lowest is what its
parent had left, less the rewards of the block. This holds while amounts are what they are read
as: a transfer of `2 ^ 63` or more is a payment of less than nothing, which a contract can pass
on to the reserve.

## Main definitions

* `Block.rewards`: What a block takes out of the reserve.
* `Block.Passes`: The states between two transactions of a block.
* `Reserved`: The reserve of a stored state.

## Theorems

* `charged_foldlM`: The protocol transactions of a block take their rewards.
* `keeps_foldlM_reserve`: Its user transactions take nothing.
* `reserve_covers_iff`: When the reserve stays covered.
* `reserve_overdrawn`: A block that is accepted on a reserve that does not cover it.
-/

namespace Zond

open Outcome StateDB

variable {e : EpochMetaData} {s : StateDB} {b parent : Block} {w : Pending}

/-- An account of which only the balance was ever written. -/
def Account.Idle (a : Account) : Prop := a = { Account.new with balance := a.balance }

def Block.rewards (b : Block) : Int := (b.protocolTransactions.map (fun tx => tx.charge b)).sum

section Idle

variable {a a' : Account}

theorem Account.Idle.withBalance (h : a.Idle) (v : Int) : Account.Idle { a with balance := v } := by
  rw [h]
  rfl

theorem Account.Idle.drifts (h : a.Idle) (hdrift : a.Drifts a') : a'.Idle := by
  rcases hdrift.rest with hrest | ⟨-, -, hrest⟩
  · rw [hrest, h]
    rfl
  · rw [hrest]
    rfl

end Idle

section Charges

variable {ext : Externals} {env : ExecEnv} {st st' : ExecState} {x : Address}

theorem keeps_finalise_idle (x : Address) (s : StateDB) :
    Keeps x (fun a a' => a.Idle → a' = a) s s.finalise := by
  refine ⟨trie_finalise s, Steady.finalise, fun hs hidle => ?_⟩
  rcases account_finalise_of_unmarked hs.unmarked with hsame | ⟨⟨-, hbalance, -⟩, hnew⟩
  · exact hsame
  · rw [hnew, hidle, hbalance]
    rfl

theorem account_payReward_reserve (s : StateDB) {signer : Address} (credits : List Int)
    (charge : Int) (hne : signer ≠ Config.coinBaseAddress) :
    (payReward s signer credits charge).account Config.coinBaseAddress =
      { s.account Config.coinBaseAddress with
        balance := (s.account Config.coinBaseAddress).balance - charge } := by
  have hcredits : (credits.foldl (fun s amount => s.addBalance signer amount) s).account
      Config.coinBaseAddress = s.account Config.coinBaseAddress := by
    induction credits generalizing s with
    | nil => rfl
    | cons v rest ih => rw [List.foldl_cons, ih, account_addBalance_ne _ hne]
  unfold payReward setNonce
  rw [account_subBalance, if_pos rfl, account_modify_ne _ hne, hcredits]

theorem keeps_payReward_reserve (s : StateDB) {signer : Address} (credits : List Int)
    (charge : Int) (hne : signer ≠ Config.coinBaseAddress) :
    Keeps Config.coinBaseAddress (fun a a' => a' = { a with balance := a.balance - charge }) s
      (payReward s signer credits charge) := by
  refine ⟨?_, fun hs => ?_, fun _ => account_payReward_reserve s credits charge hne⟩
  · unfold payReward
    rw [trie_subBalance, trie_setNonce]
    exact List.foldlRecOn (motive := fun (s' : StateDB) => s'.trie = s.trie) _ _ rfl
      (fun s' hs' v _ => (trie_addBalance s' signer v).trans hs')
  · unfold payReward
    refine Steady.subBalance (Steady.modify ?_ signer _) _ _
    exact List.foldlRecOn (motive := fun (s' : StateDB) => s'.Steady Config.coinBaseAddress) _ _ hs
      (fun s' hs' v _ => hs'.addBalance signer v)

variable (hkeys : ∀ pk, ext.getDilithiumAddressFromPK pk ≠ Config.coinBaseAddress)
include hkeys

theorem charged_processProtocolTx {txi : ProtocolTransaction × Nat}
    (h : processProtocolTx ext env st txi = .ok st') : Keeps Config.coinBaseAddress
      (fun a a' => a.Idle → a' = { a with balance := a.balance - txi.1.charge env.block })
      st.statedb st'.statedb := by
  have hr := rewarded_of_processProtocolTx h
  have hstate := hr.state
  have hne : ext.getDilithiumAddressFromUnSizedPK txi.1.pk ≠ Config.coinBaseAddress := hkeys _
  generalize ext.getDilithiumAddressFromUnSizedPK txi.1.pk = signer at hstate hne
  have hopen := (keeps_getOrNewStateObject Config.coinBaseAddress st.statedb signer).trans
    (keeps_prepare _ _ txi.1.base.hash txi.2) Account.Pays.trans
  have hsame : ((st.statedb.getOrNewStateObject signer).prepare txi.1.base.hash txi.2).account
      Config.coinBaseAddress = st.statedb.account Config.coinBaseAddress := by
    rw [account_prepare, account_getOrNewStateObject]
  have hended := keeps_finalise_idle Config.coinBaseAddress
    ((st.statedb.getOrNewStateObject signer).prepare txi.1.base.hash txi.2)
  have hreopen := keeps_getOrNewStateObject Config.coinBaseAddress
    ((st.statedb.getOrNewStateObject signer).prepare txi.1.base.hash txi.2).finalise signer
  have hpaid := keeps_payReward_reserve
    (((st.statedb.getOrNewStateObject signer).prepare txi.1.base.hash txi.2).finalise.getOrNewStateObject
      signer) (txi.1.credits env.block) (txi.1.charge env.block) hne
  rw [hstate]
  refine ⟨hpaid.trie.trans (hreopen.trie.trans (hended.trie.trans hopen.trie)),
    fun hs => hpaid.steady (hreopen.steady (hended.steady (hopen.steady hs))),
    fun hs hidle => ?_⟩
  have hkept := hended.account (hopen.steady hs) (hsame ▸ hidle)
  rw [hpaid.account (hreopen.steady (hended.steady (hopen.steady hs))),
    account_getOrNewStateObject, hkept, hsame]

theorem charged_foldlM {l : List (ProtocolTransaction × Nat)}
    (h : l.foldlM (processProtocolTx ext env) st = .ok st') :
    Keeps Config.coinBaseAddress (fun a a' => a.Idle →
      a' = { a with balance := a.balance - (l.map (fun txi => txi.1.charge env.block)).sum })
      st.statedb st'.statedb := by
  induction l generalizing st with
  | nil =>
    rw [List.foldlM_nil, pure_eq_ok] at h
    rw [h]
    refine ⟨rfl, id, fun _ _ => ?_⟩
    rw [List.map_nil, List.sum_nil, sub_zero]
  | cons txi l ih =>
    rw [List.foldlM_cons] at h
    rcases bind_eq_ok.1 h with ⟨mid, hfirst, hrest⟩
    have hone := charged_processProtocolTx hkeys hfirst
    refine hone.trans (ih hrest) (fun hfirst hlater hidle => ?_)
    have hmid := hfirst hidle
    rw [hlater (hmid ▸ hidle.withBalance _), hmid, List.map_cons, List.sum_cons]
    rw [sub_sub]

end Charges

section Payments

variable {ext : Externals} {env : ExecEnv} {st st' : ExecState}

theorem signer_of_processTx {txi : Transaction × Nat} (h : processTx ext env st txi = .ok st') :
    ext.getAddressFromUnSizedPK txi.1.base.pk ≠ Config.coinBaseAddress := by
  have hsender : ∀ {tx : TxBase} {addr : Address}, tx.addrFrom ext.toCrypto = .ok addr →
      ext.getAddressFromUnSizedPK tx.pk ≠ Config.coinBaseAddress := by
    intro tx addr hok
    rcases TxBase.addrFrom_eq_ok.1 hok with ⟨heq, hzero⟩
    exact heq ▸ hzero
  rcases txi with ⟨tx, i⟩
  cases tx with
  | stake tx =>
    simp only [processTx] at h
    rcases bind_eq_ok.1 h with ⟨st₁, hstake, -⟩
    rcases processStake_of_ok hstake with ⟨addr, haccepted, -⟩
    exact hsender haccepted.sender
  | transfer tx =>
    simp only [processTx] at h
    rcases bind_eq_ok.1 h with ⟨st₁, htransfer, -⟩
    rcases processTransfer_of_ok htransfer with ⟨addr, -, -, -, haccepted, -, -⟩
    exact hsender haccepted.sender
  | unknown base => cases h

end Payments

section Bookkeeping

variable {ext : Externals} {x : Address} {s s' : StateDB}

theorem keeps_updateStakeValidator_idle (se : StateDB × EpochMetaData) (pk : PublicKey) :
    Keeps x (fun a a' => a.Idle → a' = a) se.1 (updateStakeValidator ext se pk).1 := by
  have hmoves : Keeps x Account.Moves se.1 (updateStakeValidator ext se pk).1 :=
    keeps_updateStakeValidator se pk
  refine ⟨hmoves.trie, hmoves.steady, fun _ hidle => ?_⟩
  rcases se with ⟨s, e⟩
  have hsame := account_getOrNewStateObject s (ext.getAddressFromUnSizedPK pk) x
  dsimp only at hidle ⊢
  unfold updateStakeValidator
  dsimp only
  generalize s.getOrNewStateObject (ext.getAddressFromUnSizedPK pk) = opened at hsame
  generalize ext.getAddressFromUnSizedPK pk = addr
  rw [← hsame] at hidle ⊢
  split
  · unfold setStakeBalance getStakeBalance
    rw [account_modify, account_addBalance, account_addBalance]
    by_cases hx : addr = x
    · subst hx
      rw [if_pos rfl, if_pos rfl, hidle]
      exact congrArg (fun v => { Account.new with balance := v }) (add_zero _)
    · rw [if_neg hx, if_neg hx]
  · unfold setPendingStakeBalance setStakeBalance getStakeBalance getPendingStakeBalance
    rw [account_modify, account_modify, account_modify, account_addBalance, account_addBalance]
    by_cases hx : addr = x
    · subst hx
      simp only [if_true]
      rw [hidle]
      exact congrArg (fun v => { Account.new with balance := v }) (add_zero _)
    · simp only [if_neg hx]

theorem Booked.idle (h : Booked ext s s') : Keeps x (fun a a' => a.Idle → a' = a) s s' := by
  refine h.induction (Keeps x (fun a a' => a.Idle → a' = a) s) (fun se pk hse => ?_)
    ⟨rfl, id, fun _ _ => rfl⟩
  refine hse.trans (keeps_updateStakeValidator_idle se pk) (fun hfirst hlater hidle => ?_)
  have hmid := hfirst hidle
  rw [hlater (hmid ▸ hidle), hmid]

end Bookkeeping

section Rewards

variable {ext : Externals} {env : ExecEnv} {st st' : ExecState}

theorem charge_nonneg (hattest : env.block.attestorReward = Config.attestorReward)
    (h : env.block.protocolTransactions.zipIdx.foldlM (processProtocolTx ext env) st = .ok st') :
    ∀ tx ∈ env.block.protocolTransactions, 0 ≤ tx.charge env.block := by
  refine forall_of_foldlM_zipIdx (fun _ txi _ hstep => ?_) h
  cases htx : txi.1 with
  | coinBase tx =>
    simp only [ProtocolTransaction.charge,
      ((rewarded_of_processProtocolTx hstep).rewards tx htx).1]
    decide
  | attest tx =>
    simp only [ProtocolTransaction.charge, hattest]
    decide
  | unknown base => exact le_refl _

theorem rewards_take_le (h : processTransactions ext env st = .ok st') (n : Nat) :
    ((env.block.protocolTransactions.zipIdx.take n).map
      (fun txi => txi.1.charge env.block)).sum ≤ env.block.rewards := by
  rcases processTransactions_of_ok h with ⟨-, -, mid, -, hprotocol, -⟩
  have hnonneg := charge_nonneg (attestorReward_of_ok h) hprotocol
  have hsplit : env.block.rewards
      = ((env.block.protocolTransactions.zipIdx.take n).map
          (fun txi => txi.1.charge env.block)).sum +
        ((env.block.protocolTransactions.zipIdx.drop n).map
          (fun txi => txi.1.charge env.block)).sum := by
    unfold Block.rewards
    rw [← List.sum_append, ← List.map_append, List.take_append_drop, map_zipIdx_fst]
  have hrest : 0 ≤ ((env.block.protocolTransactions.zipIdx.drop n).map
      (fun txi => txi.1.charge env.block)).sum := by
    refine List.sum_nonneg (fun v hv => ?_)
    rcases List.mem_map.1 hv with ⟨txi, hmem, rfl⟩
    exact hnonneg txi.1 (List.fst_mem_of_mem_zipIdx (List.mem_of_mem_drop hmem))
  omega

end Rewards

/-- A state the two loops pass through while the node processes a block on its parent. -/
def Block.Passes (ext : Externals) (c : Chain) (b : Block) (st : ExecState) : Prop :=
  ∃ parent w pm opened moved e env st₀ last,
    Prepared ext c b parent w pm opened moved e env st₀ last ∧
    ((∃ n, (b.protocolTransactions.zipIdx.take n).foldlM (processProtocolTx ext env) st₀ = .ok st) ∨
      ∃ n, processUpTo ext env st₀ n = .ok st)

/-- The reserve in a state that was stored: idle, and not overdrawn. -/
structure Reserved (vm : Machine) (trie : AssocMap Address Account) : Prop where
  idle : ((StateDB.new trie).account Config.coinBaseAddress).Idle
  balance : 0 ≤ ((StateDB.new trie).account Config.coinBaseAddress).balance
  solvent : (StateDB.new trie).Solvent vm

theorem reserved_empty (vm : Machine) : Reserved vm .empty :=
  ⟨rfl, le_refl _, .new vm.sound_new⟩

theorem reserved_commit {vm : Machine} (hs : s.Steady Config.coinBaseAddress)
    (hsolvent : (StateDB.new s.finalise.commit).Solvent vm)
    (hidle : (s.account Config.coinBaseAddress).Idle) (hopened : Reserved vm s.trie) :
    Reserved vm s.finalise.commit := by
  have hkept := (keeps_finalise_idle _ s).account hs hidle
  have hkept' := (keeps_finalise_idle _ s.finalise).account hs.finalise (hkept ▸ hidle)
  by_cases hfit : (s.finalise.finalise.account Config.coinBaseAddress).Encodable
  · have hstored : (StateDB.new s.finalise.commit).account Config.coinBaseAddress
        = s.account Config.coinBaseAddress := by
      rw [account_new, account_commit hs.finalise.tracked hfit]
      exact hkept'.trans hkept
    have hbalance := hfit.1
    rw [hkept', hkept] at hbalance
    exact ⟨hstored ▸ hidle, hstored ▸ hbalance, hsolvent⟩
  · have hstored : (StateDB.new s.finalise.commit).account Config.coinBaseAddress
        = (StateDB.new s.trie).account Config.coinBaseAddress := by
      rw [account_new, account_new, account_commit_of_not_encodable hfit, trie_finalise]
    exact ⟨hstored ▸ hopened.idle, hstored ▸ hopened.balance, hsolvent⟩

section Blocks

variable {vm : Machine} {env : ExecEnv} {st₀ st : ExecState}
variable (hkeys : ∀ pk, vm.getDilithiumAddressFromPK pk ≠ Config.coinBaseAddress)
variable (hvm : vm.Apart)
include hvm

/-- User transactions can only pay into the reserve, since no key signs for it. -/
theorem keeps_processTx_reserve {txi : Transaction × Nat} {st' : ExecState}
    (hmoderate : txi.1.Moderate) (hbase : env.block.header.baseFee.toNat < 2 ^ 63)
    (hs : st.statedb.Steady Config.coinBaseAddress) (hsolvent : st.statedb.Solvent vm)
    (h : processTx vm env st txi = .ok st') :
    Keeps Config.coinBaseAddress Account.Drifts st.statedb st'.statedb :=
  (steps_processTx hvm hvm.reserve hsolvent hs hmoderate hbase h).mono
    (fun hstep => hstep.other (signer_of_processTx h))

theorem keeps_foldlM_reserve {l : List (Transaction × Nat)}
    (hmoderate : ∀ txi ∈ l, txi.1.Moderate) (hbase : env.block.header.baseFee.toNat < 2 ^ 63)
    (hs : st₀.statedb.Steady Config.coinBaseAddress) (hsolvent : st₀.statedb.Solvent vm)
    (h : l.foldlM (processTx vm env) st₀ = .ok st) :
    Keeps Config.coinBaseAddress Account.Drifts st₀.statedb st.statedb := by
  induction l generalizing st₀ with
  | nil =>
    rw [List.foldlM_nil, pure_eq_ok] at h
    rw [h]
    exact (keeps_refl _ _).mono Account.Pays.drifts
  | cons txi l ih =>
    rw [List.foldlM_cons] at h
    rcases bind_eq_ok.1 h with ⟨mid, hfirst, hrest⟩
    have htx := hmoderate txi List.mem_cons_self
    have hone := keeps_processTx_reserve hvm htx hbase hs hsolvent hfirst
    exact hone.drifts (ih (fun t ht => hmoderate t (List.mem_cons_of_mem _ ht)) (hone.steady hs)
      (solvent_processTx hvm hsolvent htx hbase hfirst) hrest)

include hkeys

theorem reserve_processUpTo {n : Nat} (hmoderate : env.block.Moderate)
    (hattest : env.block.attestorReward = Config.attestorReward)
    (hs : st₀.statedb.Steady Config.coinBaseAddress) (hsolvent : st₀.statedb.Solvent vm)
    (hidle : (st₀.statedb.account Config.coinBaseAddress).Idle)
    (h : processUpTo vm env st₀ n = .ok st) :
    st.statedb.trie = st₀.statedb.trie ∧ st.statedb.Steady Config.coinBaseAddress ∧
      (st.statedb.account Config.coinBaseAddress).Idle ∧
      st₀.statedb.getBalance Config.coinBaseAddress - env.block.rewards ≤
        st.statedb.getBalance Config.coinBaseAddress := by
  rcases bind_eq_ok.1 h with ⟨mid, hprotocol, huser⟩
  have hcharged := charged_foldlM hkeys hprotocol
  have hmid := hcharged.account hs hidle
  have hmidIdle : (mid.statedb.account Config.coinBaseAddress).Idle :=
    hmid ▸ hidle.withBalance _
  have hpaid := keeps_foldlM_reserve hvm (fun txi htxi => hmoderate.user _
      (List.fst_mem_of_mem_zipIdx (List.mem_of_mem_take htxi))) hmoderate.baseFee
    (hcharged.steady hs) (solvent_protocol hvm hmoderate
      (fun _ hmem => List.fst_mem_of_mem_zipIdx hmem) hattest hsolvent hprotocol) huser
  have hdrift := hpaid.account (hcharged.steady hs)
  refine ⟨hpaid.trie.trans hcharged.trie, hpaid.steady (hcharged.steady hs),
    hmidIdle.drifts hdrift, ?_⟩
  have hlow := hdrift.balance
  rw [hmid, map_zipIdx_fst] at hlow
  exact hlow

end Blocks

section Run

variable {vm : Machine} {g : Block} {preState : List (List UInt8 × UInt64)} {c₀ c : Chain}
variable (hkeys : ∀ pk, vm.getDilithiumAddressFromPK pk ≠ Config.coinBaseAddress)
variable (hvm : vm.Apart)
include hvm

theorem start_of_prepared {pm : BlockMetaData} {opened moved : StateDB} {env : ExecEnv}
    {st₀ st : ExecState} (hmoderate : b.Moderate)
    (htries : ∀ r trie, c.tries.get r = some trie → Reserved vm trie)
    (hp : Prepared vm c b parent w pm opened moved e env st₀ st) :
    Reserved vm st₀.statedb.trie ∧ st₀.statedb.Steady Config.coinBaseAddress ∧
      st₀.statedb.Solvent vm ∧ (st₀.statedb.account Config.coinBaseAddress).Idle ∧
      st₀.statedb.account Config.coinBaseAddress = opened.account Config.coinBaseAddress := by
  rcases trie_of_openState (reserved_empty vm) htries hp.opens with ⟨trie, rfl, hreserved⟩
  have hsolvent := (hp.solvent hvm hmoderate hreserved.solvent).1
  have hmoved := (booked_of_calculateEpochMetaData hp.moves).idle (x := Config.coinBaseAddress)
  have hsteady : (StateDB.new trie).Steady Config.coinBaseAddress := steady_new trie _
  have hsame := hmoved.account hsteady hreserved.idle
  rw [hp.start] at hsolvent ⊢
  exact ⟨hmoved.trie ▸ hreserved, hmoved.steady hsteady, hsolvent, hsame ▸ hreserved.idle, hsame⟩

include hkeys

theorem reserved_of_prepared (hmoderate : b.Moderate)
    (htries : ∀ r trie, c.tries.get r = some trie → Reserved vm trie)
    (hw : c.prepareBlock vm b parent = .ok w) : Reserved vm w.trie := by
  rcases prepareBlock_stages hw with ⟨pm, opened, moved, e, env, st₀, st, hp⟩
  rcases start_of_prepared hvm hmoderate htries hp with ⟨htrie, hsteady, hsolvent, hidle, -⟩
  have hblock : env.block.Moderate := hp.block ▸ hmoderate
  have hattest := attestorReward_of_ok hp.loops
  have hloops := processUpTo_length hp.loops
  rcases reserve_processUpTo hkeys hvm hblock hattest hsteady hsolvent hidle hloops with
    ⟨hsame, hsteady', hidle', -⟩
  rw [hp.trie]
  exact reserved_commit hsteady'
    (solvent_processUpTo hvm hblock hattest hsolvent hloops).finalise.commit hidle' (hsame ▸ htrie)

theorem reserved_of_genesisChain (hmoderate : g.Moderate) (hpre : ModeratePreState preState)
    (h₀ : genesisChain vm g preState = .ok c₀) :
    ∀ r trie, c₀.tries.get r = some trie → Reserved vm trie := by
  rcases loaded_of_genesisChain h₀ with ⟨pre, first, ctx, env, st₀, st, s', e, q, hl⟩
  rcases hl.solvent hvm hmoderate hpre with ⟨hsolvent, hstored⟩
  have hborn : Born Config.coinBaseAddress pre := born_of_genesisPreState hl.balances
  rcases hborn.account with ⟨v, hv⟩
  have hidle : (pre.account Config.coinBaseAddress).Idle := by
    rw [hv]
    rfl
  rcases reserve_processUpTo hkeys hvm (hl.block ▸ hmoderate) (attestorReward_of_ok hl.loops)
    (hl.start ▸ hborn.steady) hsolvent (hl.start ▸ hidle) (processUpTo_length hl.loops) with
    ⟨htrie, hsteady, hidle', -⟩
  have hmoved := (booked_of_genesisEpoch hl.epoch).idle (x := Config.coinBaseAddress)
  have hsame := hmoved.account hsteady hidle'
  have hempty : s'.trie = .empty := by
    rw [hmoved.trie, htrie, hl.start, hborn.trie]
  exact hl.tries_all (reserved_commit (hmoved.steady hsteady) hstored (hsame ▸ hidle')
    (hempty ▸ reserved_empty vm))

theorem passes_covered_iff (hmoderate : b.Moderate)
    (htries : ∀ r trie, c.tries.get r = some trie → Reserved vm trie)
    (hs : c.stateAt b.parentHash = .ok s) (hw : c.prepareBlock vm b parent = .ok w) :
    (∀ st, b.Passes vm c st → 0 ≤ st.statedb.getBalance Config.coinBaseAddress) ↔
      b.rewards ≤ s.getBalance Config.coinBaseAddress := by
  refine ⟨fun hpasses => ?_, fun hcovered st hpass => ?_⟩
  · -- The reserve is lowest between the two loops.
    rcases prepareBlock_stages hw with ⟨pm, opened, moved, e, env, st₀, last, hp⟩
    have hopened := hp.opened_eq hs
    subst hopened
    rcases start_of_prepared hvm hmoderate htries hp with ⟨-, hsteady, -, hidle, hsame⟩
    rcases processTransactions_of_ok hp.loops with ⟨-, -, mid, -, hprotocol, -⟩
    have hmid := (charged_foldlM hkeys hprotocol).account hsteady hidle
    rw [map_zipIdx_fst, hsame] at hmid
    rw [hp.block] at hprotocol hmid
    have hlow := hpasses mid ⟨parent, w, pm, opened, moved, e, env, st₀, last, hp,
      .inl ⟨b.protocolTransactions.zipIdx.length, by rw [List.take_length]; exact hprotocol⟩⟩
    unfold getBalance at hlow ⊢
    rw [hmid] at hlow
    exact Int.sub_nonneg.1 hlow
  · rcases hpass with ⟨parent', w', pm, opened, moved, e, env, st₀, last, hp, hst⟩
    have hopened := hp.opened_eq hs
    subst hopened
    rcases start_of_prepared hvm hmoderate htries hp with ⟨-, hsteady, hsolvent, hidle, hsame⟩
    have hbefore : st₀.statedb.getBalance Config.coinBaseAddress
        = opened.getBalance Config.coinBaseAddress := congrArg Account.balance hsame
    rcases hst with ⟨n, hst⟩ | ⟨n, hst⟩
    · have hmid := (charged_foldlM hkeys hst).account hsteady hidle
      have hpart := rewards_take_le hp.loops n
      rw [hp.block] at hmid hpart
      unfold getBalance at hbefore hcovered ⊢
      rw [hmid]
      dsimp only
      omega
    · have hlow := (reserve_processUpTo hkeys hvm (hp.block ▸ hmoderate)
        (attestorReward_of_ok hp.loops) hsteady hsolvent hidle hst).2.2.2
      rw [hp.block] at hlow
      omega

/-- On a chain of moderate blocks no stored state has an overdrawn reserve. While a moderate
    block that is accepted is processed the reserve stays covered if and only if it held the
    rewards of the block before. -/
theorem reserve_covers_iff (hmoderate : g.Moderate) (hpre : ModeratePreState preState)
    (h₀ : genesisChain vm g preState = .ok c₀) (hrun : Run vm (fun _ b => b.Moderate) c₀ c) :
    (∀ k s, c.stateAt k = .ok s → 0 ≤ s.getBalance Config.coinBaseAddress) ∧
      ∀ (now : UInt64) (b : Block) (c' : Chain) (s : StateDB), b.Moderate →
        c.stateAt b.parentHash = .ok s → c.addBlock vm now b = .ok (true, c') →
        ((∀ st, b.Passes vm c st → 0 ≤ st.statedb.getBalance Config.coinBaseAddress) ↔
          b.rewards ≤ s.getBalance Config.coinBaseAddress) := by
  have htries := hrun.tries_all (reserved_of_genesisChain hkeys hvm hmoderate hpre h₀)
    (fun _ _ _ _ hb htries hw => reserved_of_prepared hkeys hvm hb htries hw)
  refine ⟨fun k s hs => ?_, fun now b c' s hb hs hadd => ?_⟩
  · rcases Chain.stateAt_eq_ok.1 hs with ⟨r, -, hopen⟩
    rcases trie_of_openState (reserved_empty vm) htries hopen with ⟨trie, rfl, hreserved⟩
    exact hreserved.balance
  · rcases readBlock_of_addBlock hadd with ⟨w, hread, -⟩
    exact passes_covered_iff hkeys hvm hb htries hs (readBlock_of_some hread).1

end Run

theorem toyExternals_reserve (pk : List.Vector UInt8 Config.dilithiumPKSize) :
    toyExternals.getDilithiumAddressFromPK pk ≠ Config.coinBaseAddress := by
  intro h
  have hhead := (congrArg (fun addr : Address => addr.val.headD 0) h).symm.trans (toyCrypto_head pk)
  exact absurd hhead (by decide)

theorem toyFirst_covered : ∃ c₀ c' s, genesisChain toyExternals toyGenesis toyPreState = .ok c₀ ∧
    c₀.stateAt toyGenesis.hash = .ok s ∧ c₀.addBlock toyExternals toyNow toyFirst = .ok (true, c') ∧
    ∀ st, toyFirst.Passes toyExternals c₀ st →
      0 ≤ st.statedb.getBalance Config.coinBaseAddress := by
  have heval : (genesisChain toyExternals toyGenesis toyPreState >>= fun c₀ =>
      c₀.stateAt toyGenesis.hash >>= fun s =>
      c₀.addBlock toyExternals toyNow toyFirst >>= fun r =>
        pure (r.1 && decide (toyFirst.rewards ≤ s.getBalance Config.coinBaseAddress)))
      = .ok true := by decide +kernel
  rcases bind_eq_ok.1 heval with ⟨c₀, h₀, heval⟩
  rcases bind_eq_ok.1 heval with ⟨s, hs, heval⟩
  rcases bind_eq_ok.1 heval with ⟨⟨added, c'⟩, hadd, heval⟩
  rw [pure_eq_ok, Bool.and_eq_true, decide_eq_true_eq] at heval
  rcases heval with ⟨hadded, hcovered⟩
  subst hadded
  have hparent : toyFirst.parentHash = toyGenesis.hash := by decide +kernel
  have hiff := (reserve_covers_iff toyExternals_reserve toyVm_apart (by decide +kernel)
    (by decide +kernel) h₀ .refl).2 toyNow toyFirst c' s (by decide +kernel) (hparent ▸ hs) hadd
  exact ⟨c₀, c', s, h₀, hs, hadd, hiff.2 hcovered⟩

/-- Balances of the toy network with a reserve for one reward and a half; genesis takes one. -/
def toyPoorPreState : List (List UInt8 × UInt64) :=
  [(zeroAddress.val, Config.blockReward + Config.blockReward / 2),
    ((toyAddress 2).val, 1000000000000000)]

/-- The reserve holds half of what the first block takes out of it. The node accepts the
    block, and passes a state with an overdrawn reserve on the way; what it stores has the
    reserve as it was, and the proposer paid in full. -/
theorem reserve_overdrawn : ∃ c₀ c' s s',
    genesisChain toyExternals toyGenesis toyPoorPreState = .ok c₀ ∧
    c₀.stateAt toyGenesis.hash = .ok s ∧ c₀.addBlock toyExternals toyNow toyFirst = .ok (true, c') ∧
    c'.stateAt toyFirst.hash = .ok s' ∧
    s.getBalance Config.coinBaseAddress < toyFirst.rewards ∧
    (∃ st, toyFirst.Passes toyExternals c₀ st ∧
      st.statedb.getBalance Config.coinBaseAddress < 0) ∧
    s'.getBalance Config.coinBaseAddress = s.getBalance Config.coinBaseAddress ∧
    s'.getBalance Config.foundationDilithiumAddress
      = s.getBalance Config.foundationDilithiumAddress + toyFirst.rewards := by
  have heval : (genesisChain toyExternals toyGenesis toyPoorPreState >>= fun c₀ =>
      c₀.stateAt toyGenesis.hash >>= fun s =>
      c₀.addBlock toyExternals toyNow toyFirst >>= fun r =>
      r.2.stateAt toyFirst.hash >>= fun s' =>
        pure (r.1 && decide (s.getBalance Config.coinBaseAddress < toyFirst.rewards ∧
          s'.getBalance Config.coinBaseAddress = s.getBalance Config.coinBaseAddress ∧
          s'.getBalance Config.foundationDilithiumAddress
            = s.getBalance Config.foundationDilithiumAddress + toyFirst.rewards)))
      = .ok true := by decide +kernel
  rcases bind_eq_ok.1 heval with ⟨c₀, h₀, heval⟩
  rcases bind_eq_ok.1 heval with ⟨s, hs, heval⟩
  rcases bind_eq_ok.1 heval with ⟨⟨added, c'⟩, hadd, heval⟩
  rcases bind_eq_ok.1 heval with ⟨s', hs', heval⟩
  rw [pure_eq_ok, Bool.and_eq_true, decide_eq_true_eq] at heval
  rcases heval with ⟨hadded, hlow, hkept, hpaid⟩
  subst hadded
  have hparent : toyFirst.parentHash = toyGenesis.hash := by decide +kernel
  rcases readBlock_of_addBlock hadd with ⟨w, hread, -⟩
  have hiff := passes_covered_iff toyExternals_reserve toyVm_apart (by decide +kernel)
    (reserved_of_genesisChain toyExternals_reserve toyVm_apart (by decide +kernel)
      (by decide +kernel) h₀) (hparent ▸ hs) (readBlock_of_some hread).1
  have hpass : ¬∀ st, toyFirst.Passes toyExternals c₀ st →
      0 ≤ st.statedb.getBalance Config.coinBaseAddress :=
    fun hall => absurd (hiff.1 hall) (Int.not_le.2 hlow)
  push Not at hpass
  exact ⟨c₀, c', s, s', h₀, hs, hadd, hs', hlow, hpass, hkept, hpaid⟩

end Zond
