import Zond.Theory.Branch
import Zond.Theory.Finalizing

/-!
# The Stake of Signers

Whoever signs a protocol transaction has a full stake when it is processed. Stakes move only
when an epoch is opened, and an account that has signed has a nonce and is not deleted. So
until the epoch is closed the signers of its blocks keep their stake, as long as no account
gets lost on the way to the trie.

## Main definitions

* `Proper`: A regular block whose nonces do not wrap, signed by keys other than the reserve.
* `Account.Funded`: A full stake, in an account that cannot be deleted.
* `closing`: The blocks at the end of a branch that are of one epoch, the last one first.

## Theorems

* `closing_invariant`: What every block keeps holds of the last epoch of a branch.
* `funded_of_branch`: The signers of the last epoch of a branch are funded.
-/

namespace Zond

open StateDB

/-- A regular block under a hash that is not zero, after its parent, in which no nonce is the
    last one there is, signed by keys that do not have the address of the reserve. -/
structure Proper (ext : Externals) (c : Chain) (b : Block) : Prop extends Offered c b where
  slot : b.slotNumber ≠ 0
  root : Uncollided ext c b
  moderate : b.Moderate
  counts : ∀ tx ∈ b.allTransactions, tx.nonce + 1 ≠ 0
  keys : ∀ tx ∈ b.protocolTransactions,
    Config.coinBaseAddress ≠ ext.getDilithiumAddressFromUnSizedPK tx.pk

theorem Proper.regular {ext : Externals} {c : Chain} {b : Block} (h : Proper ext c b) :
    Regular ext c b :=
  { unseen := h.fresh, slot := h.slot, root := h.root, moderate := h.moderate }

/-- A full stake, in an account that cannot be deleted. -/
def Account.Funded (a : Account) : Prop :=
  int64 Config.stakeAmount ≤ a.stakeBalance ∧ a.nonce ≠ 0

section Blocks

variable {vm : Machine} {env : ExecEnv} {st st' : ExecState} {x : Address}

theorem Account.Funded.runs {a a' : Account} {txs : List AnyTransaction} {c : Crypto}
    (h : a.Funded) (hruns : a.Runs c x txs a') (hcounts : ∀ tx ∈ txs, tx.nonce + 1 ≠ 0) :
    a'.Funded := by
  rcases hruns.stake h.2 hcounts with ⟨hstake, hnonce⟩
  exact ⟨h.1.trans_eq hstake.symm, hnonce⟩

theorem Account.Funded.drifts {a a' : Account} (h : a.Funded) (hdrifts : a.Drifts a') :
    a'.Funded := by
  rw [hdrifts.of_nonce h.2]
  exact h

variable (hvm : vm.Apart) (hx : ¬vm.Creates x) (hreserve : Config.coinBaseAddress ≠ x)
include hvm hreserve

theorem protocol_step {txi : ProtocolTransaction × Nat} (hmoderate : txi.1.Moderate)
    (hattest : env.block.attestorReward = Config.attestorReward) (hsolvent : st.statedb.Solvent vm)
    (h : processProtocolTx vm env st txi = .ok st') :
    Keeps x (Account.Steps vm.toCrypto x (.inr txi.1)) st.statedb st'.statedb ∧
      st'.statedb.Solvent vm :=
  ⟨steps_processProtocolTx hreserve hmoderate hattest h,
    solvent_processProtocolTx hvm hmoderate hattest hsolvent h⟩

theorem funded_foldlM {l : List (ProtocolTransaction × Nat)}
    (hmoderate : ∀ txi ∈ l, txi.1.Moderate) (hcounts : ∀ txi ∈ l, txi.1.base.nonce + 1 ≠ 0)
    (hattest : env.block.attestorReward = Config.attestorReward)
    (hs : st.statedb.Steady x) (hsolvent : st.statedb.Solvent vm) (hslot : st.ctx.slotNumber ≠ 0)
    (h : l.foldlM (processProtocolTx vm env) st = .ok st') :
    ∀ txi ∈ l, vm.getDilithiumAddressFromUnSizedPK txi.1.pk = x →
      (st'.statedb.account x).Funded := by
  induction l generalizing st with
  | nil => exact fun _ hmem => nomatch hmem
  | cons txi l ih =>
    rw [List.foldlM_cons] at h
    rcases Outcome.bind_eq_ok.1 h with ⟨mid, hfirst, hrest⟩
    have hmoderate' := fun t ht => hmoderate t (List.mem_cons_of_mem _ ht)
    have hcounts' := fun t ht => hcounts t (List.mem_cons_of_mem _ ht)
    rcases protocol_step hvm hreserve (hmoderate txi List.mem_cons_self) hattest hsolvent hfirst
      with ⟨hstep, hmid⟩
    have hsteady := hstep.steady hs
    have hslot' : mid.ctx.slotNumber ≠ 0 := by
      rw [((Counted.nil st.ctx).processProtocolTx hslot hfirst).frame]
      exact hslot
    intro t hmem hsigner
    rcases List.mem_cons.1 hmem with rfl | hmem
    · -- The stake was tested when the transaction was applied.
      have hr := rewarded_of_processProtocolTx hfirst
      have hstaked : (mid.statedb.account x).Funded := by
        refine ⟨hsigner ▸ hr.staked hslot, ?_⟩
        have hacts := ((hstep.account hs).own hsigner)
        rw [hacts.2.nonce, ← hacts.1]
        exact hcounts t List.mem_cons_self
      have hruns := @runs_foldlM vm mid st' x _ _ (fun txi => .inr txi.1) l
        (fun u hu _ _ hok _ hs => protocol_step hvm hreserve (hmoderate' u hu) hattest hs hok)
        hsteady hmid hrest
      refine hstaked.runs (hruns.account hsteady) (fun tx htx => ?_)
      rcases List.mem_map.1 htx with ⟨u, hu, rfl⟩
      exact hcounts' u hu
    · exact ih hmoderate' hcounts' hsteady hmid hslot' hrest t hmem hsigner

include hx

theorem funded_of_processTransactions (hmoderate : env.block.Moderate)
    (hcounts : ∀ tx ∈ env.block.allTransactions, tx.nonce + 1 ≠ 0)
    (hs : st.statedb.Steady x) (hsolvent : st.statedb.Solvent vm) (hslot : st.ctx.slotNumber ≠ 0)
    (h : processTransactions vm env st = .ok st') {tx : ProtocolTransaction}
    (hmem : tx ∈ env.block.protocolTransactions)
    (hsigner : vm.getDilithiumAddressFromUnSizedPK tx.pk = x) : (st'.statedb.account x).Funded := by
  have hattest := attestorReward_of_ok h
  rcases processTransactions_of_ok h with ⟨-, -, mid, -, hprotocol, huser⟩
  have hfst : ∀ txi ∈ env.block.protocolTransactions.zipIdx,
      txi.1 ∈ env.block.protocolTransactions := fun _ => List.fst_mem_of_mem_zipIdx
  have hprotocolCounts : ∀ txi ∈ env.block.protocolTransactions.zipIdx,
      txi.1.base.nonce + 1 ≠ 0 := fun txi htxi =>
    hcounts (.inr txi.1) (List.mem_append_left _ (List.mem_map_of_mem (hfst txi htxi)))
  rcases List.mem_iff_getElem?.1 hmem with ⟨i, hi⟩
  have hindexed : (tx, i) ∈ env.block.protocolTransactions.zipIdx := by
    rw [List.mem_zipIdx_iff_getElem?]
    exact hi
  have hstaked := funded_foldlM hvm hreserve (fun txi htxi => hmoderate.protocol _ (hfst txi htxi))
    hprotocolCounts hattest hs hsolvent hslot hprotocol (tx, i) hindexed hsigner
  have hsteady : mid.statedb.Steady x := (@runs_foldlM vm st mid x _ _ (fun txi => .inr txi.1) _
    (fun txi htxi _ _ hok _ hs => protocol_step hvm hreserve
      (hmoderate.protocol _ (hfst txi htxi)) hattest hs hok) hs hsolvent hprotocol).steady hs
  have hsecond := @runs_foldlM vm mid st' x _ _ (fun txi => .inl txi.1) _
    (fun txi htxi _ _ hok hs hsolvent =>
      have huser := hmoderate.user _ (List.fst_mem_of_mem_zipIdx htxi)
      ⟨steps_processTx hvm hx hsolvent hs huser hmoderate.baseFee hok,
        solvent_processTx hvm hsolvent huser hmoderate.baseFee hok⟩)
    hsteady (solvent_protocol hvm hmoderate hfst hattest hsolvent hprotocol) huser
  refine hstaked.runs (hsecond.account hsteady) (fun t ht => ?_)
  rcases List.mem_map.1 ht with ⟨u, hu, rfl⟩
  exact hcounts (.inl u.1)
    (List.mem_append_right _ (List.mem_map_of_mem (List.fst_mem_of_mem_zipIdx hu)))

end Blocks

/-- The blocks of an epoch at the end of a branch, the last one first. -/
def closing (epoch : UInt64) (bs : List Block) : List Block :=
  bs.reverse.takeWhile (fun b => decide (b.epoch = epoch))

theorem closing_append {epoch : UInt64} {b : Block} (bs : List Block) (h : b.epoch = epoch) :
    closing epoch (bs ++ [b]) = b :: closing epoch bs := by
  unfold closing
  rw [List.reverse_append, List.reverse_singleton, List.singleton_append,
    List.takeWhile_cons, if_pos (decide_eq_true h)]

theorem closing_append_ne {epoch : UInt64} {b : Block} (bs : List Block) (h : b.epoch ≠ epoch) :
    closing epoch (bs ++ [b]) = [] := by
  unfold closing
  rw [List.reverse_append, List.reverse_singleton, List.singleton_append,
    List.takeWhile_cons, if_neg (by rw [decide_eq_true_eq]; exact h)]

theorem Store.Branch.exists_last {db : Store} {genesis k : Hash} {bs : List Block}
    (h : db.Branch genesis k bs) : ∃ bs' b, bs = bs' ++ [b] ∧ db.blocks.get k = some b := by
  cases h with
  | root hb => exact ⟨[], _, rfl, hb⟩
  | grow _ hb _ => exact ⟨_, _, rfl, hb⟩

/-- The signers of the blocks have their stake. -/
def SignersFunded (ext : Externals) (blocks : List Block) (s : StateDB) : Prop :=
  ∀ b ∈ blocks, b.slotNumber ≠ 0 → ∀ tx ∈ b.protocolTransactions,
    Config.coinBaseAddress ≠ ext.getDilithiumAddressFromUnSizedPK tx.pk ∧
      (s.account (ext.getDilithiumAddressFromUnSizedPK tx.pk)).Funded

section Branches

variable {vm : Machine} {x : Address} {c : Chain} {b parent : Block} {w : Pending}
variable {s : StateDB} {trie : AssocMap Address Account}

theorem funded_of_prepareBlock (hvm : vm.Apart) (hx : ¬vm.Creates x)
    (hreserve : Config.coinBaseAddress ≠ x) (hb : Proper vm c b)
    (hs : c.stateAt b.parentHash = .ok s) (hfit : (s.account x).Encodable)
    (hsolvent : s.Solvent vm) (hw : c.prepareBlock vm b parent = .ok w)
    (htrie : trie.get = w.trie.get) (h : Chain.SameEpoch c b ∧ (s.account x).Funded ∨
      ∃ tx ∈ b.protocolTransactions, vm.getDilithiumAddressFromUnSizedPK tx.pk = x) :
    ((StateDB.new trie).account x).Funded := by
  rcases h with ⟨hsame, hfunded⟩ | ⟨tx, htx, hsigner⟩
  · rcases runs_of_prepareBlock hvm hx hreserve hb.moderate hs hfit hsolvent hw htrie with
      ⟨m, m', -, hstays, hruns, hdrifts⟩
    rw [hstays hsame] at hruns
    exact (hfunded.runs hruns hb.counts).drifts hdrifts
  · rcases prepareBlock_stages hw with ⟨pm, opened, moved, e, env, st₀, st, hp⟩
    have hopened := hp.opened_eq hs
    subst hopened
    have hmoved := (booked_of_calculateEpochMetaData hp.moves).keeps (x := x)
    have hsteady := hmoved.steady (steady_of_stateAt hs)
    have hstart := (hp.solvent hvm hb.moderate hsolvent).1
    have hruns := runs_processTransactions hvm hx hreserve (hp.block ▸ hb.moderate)
      (hp.start ▸ hsteady) hstart hp.loops
    rcases hp.context with ⟨partialHash, signingHash, hctx⟩
    have hslot : st₀.ctx.slotNumber ≠ 0 := by
      rw [(StateContext.new_of_ok hctx).1]
      exact hb.slot
    have hfunded := funded_of_processTransactions hvm hx hreserve (hp.block ▸ hb.moderate)
      (hp.block ▸ hb.counts) (hp.start ▸ hsteady) hstart hslot hp.loops (hp.block ▸ htx) hsigner
    rw [hp.start] at hruns
    have hmoves := hmoved.account (steady_of_stateAt hs)
    rw [hp.trie] at htrie
    have hdrifts := account_of_commit (hruns.steady hsteady)
      ((hruns.account hsteady).encodable (hmoves.encodable hfit)) htrie
    exact hfunded.drifts hdrifts

end Branches

section Run

variable {vm : Machine} {g : Block} {preState : List (List UInt8 × UInt64)} {c₀ c : Chain}

/-- What every block of an epoch keeps, with the blocks before it if the parent is of its epoch
    and with none otherwise, holds of the blocks of the last epoch of every branch. -/
theorem closing_invariant (I : List Block → StateDB → Prop) (hvm : vm.Apart) (hg : Grounded g)
    (hmoderate : g.Moderate) (hpre : ModeratePreState preState)
    (h₀ : genesisChain vm g preState = .ok c₀) (hzero : c₀.tries.get zeroHash = none)
    (hgenesis : ∀ b s, b.slotNumber = 0 → I [b] s)
    (hstep : ∀ {c : Chain} {b parent : Block} {w : Pending} {blocks : List Block} {s : StateDB}
      {r : Hash} {p t : Bloom} {trie : AssocMap Address Account}, Proper vm c b →
      c.stateAt b.parentHash = .ok s → (∀ x, ¬vm.Creates x → Config.coinBaseAddress ≠ x →
        (s.account x).Encodable ∧ s.Solvent vm) →
      Chain.SameEpoch c b ∧ I blocks s ∨ blocks = [] → c.prepareBlock vm b parent = .ok w →
      trie.get = w.trie.get → I (b.updateRoots r p t :: blocks) (StateDB.new trie))
    (hrun : Run vm (Proper vm) c₀ c) {k : Hash} {bs : List Block} {b : Block}
    (hbranch : c.db.Branch g.hash k (bs ++ [b])) :
    ∃ s, c.stateAt k = .ok s ∧ I (closing b.epoch (bs ++ [b])) s := by
  rcases loaded_of_genesisChain h₀ with ⟨pre, first, ctx, env, st₀, st, s', e, q, hl⟩
  rcases stateAt_genesis hg.slot h₀ hzero hl with ⟨hstate, r, p, t, hstored⟩
  have hinv := branch_invariant (fun bs s => ∀ bs' b, bs = bs' ++ [b] → I (closing b.epoch bs) s)
    hg.slot h₀ (fun _ _ hP => hP.regular.toUnseen) ?_ ⟨_, hstate⟩ ?_ hrun hbranch
  · rcases hinv with ⟨s, hs, hI⟩
    exact ⟨s, hs, hI bs b rfl⟩
  · intro b s hb hs bs' b' heq
    rcases List.append_eq_singleton_iff.1 heq.symm with ⟨rfl, hlast⟩ | ⟨-, hlast⟩
    · cases hlast
      rw [hstored, Option.some.injEq] at hb
      rw [← List.nil_append [b], closing_append [] rfl]
      exact hgenesis b s (hb ▸ hg.slot)
    · cases hlast
  · intro c b parent w bs s r p t trie hreach hP hbefore hs hI hw htrie bs' b' heq
    cases List.append_inj_right' heq rfl
    have hregular := hreach.mono (fun _ _ h => Proper.regular h)
    have hsound : ∀ x, ¬vm.Creates x → Config.coinBaseAddress ≠ x →
        (s.account x).Encodable ∧ s.Solvent vm := by
      intro x hx hreserve
      rcases history_of_branch hvm hx hreserve hg.slot hmoderate hpre h₀ hzero hregular hbefore with
        ⟨s₁, hs₁, hhistory, hsolvent⟩
      rw [hs, Except.ok.injEq] at hs₁
      subst hs₁
      exact ⟨hhistory.sound.1, hsolvent⟩
    rw [closing_append bs rfl]
    refine hstep hP hs hsound ?_ hw htrie
    -- The blocks before it are of its epoch only if the parent is.
    rcases hbefore.exists_last with ⟨before, last, rfl, hlast⟩
    by_cases hepoch : last.epoch = b.epoch
    · have hoffered := hreach.mono (fun _ _ h => Proper.toOffered h)
      rcases (rooted_of_run hg h₀ hoffered).1.sound.recorded _ _ hlast with ⟨r, hr, -, hslot⟩
      have hbefore' := hI before last rfl
      rw [hepoch] at hbefore'
      exact .inl ⟨⟨r, hr, (congrArg epochOf hslot).trans hepoch⟩, hbefore'⟩
    · exact .inr (closing_append_ne before hepoch)

theorem funded_of_branch (hvm : vm.Apart) (hg : Grounded g) (hmoderate : g.Moderate)
    (hpre : ModeratePreState preState) (h₀ : genesisChain vm g preState = .ok c₀)
    (hzero : c₀.tries.get zeroHash = none) (hrun : Run vm (Proper vm) c₀ c) {k : Hash}
    {bs : List Block} {b : Block} (hbranch : c.db.Branch g.hash k (bs ++ [b])) :
    ∃ s, c.stateAt k = .ok s ∧ SignersFunded vm (closing b.epoch (bs ++ [b])) s := by
  refine closing_invariant (SignersFunded vm) hvm hg hmoderate hpre h₀ hzero ?_ ?_ hrun hbranch
  · -- Genesis is not held to account for its signers.
    intro b s hzero x hx hslot
    rw [List.mem_singleton.1 hx] at hslot
    exact absurd hzero hslot
  · intro c b parent w blocks s r p t trie hP hs hsound hI hw htrie y hy hslot tx htx
    have hstep : Config.coinBaseAddress ≠ vm.getDilithiumAddressFromUnSizedPK tx.pk →
        (Chain.SameEpoch c b ∧ (s.account (vm.getDilithiumAddressFromUnSizedPK tx.pk)).Funded ∨
          ∃ t ∈ b.protocolTransactions, vm.getDilithiumAddressFromUnSizedPK t.pk =
            vm.getDilithiumAddressFromUnSizedPK tx.pk) →
        ((StateDB.new trie).account (vm.getDilithiumAddressFromUnSizedPK tx.pk)).Funded := by
      intro hreserve
      have hx := hvm.keys _ (.inr ⟨tx.pk, rfl⟩)
      rcases hsound _ hx hreserve with ⟨hfit, hsolvent⟩
      exact funded_of_prepareBlock hvm hx hreserve hP hs hfit hsolvent hw htrie
    rcases List.mem_cons.1 hy with rfl | hy
    · exact ⟨hP.keys tx htx, hstep (hP.keys tx htx) (.inr ⟨tx, htx, rfl⟩)⟩
    · rcases hI with ⟨hsame, hI⟩ | rfl
      · rcases hI y hy hslot tx htx with ⟨hown, hfunded⟩
        exact ⟨hown, hstep hown (.inl ⟨hsame, hfunded⟩)⟩
      · exact absurd hy List.not_mem_nil

end Run

end Zond
