import Zond.Theory.Branch

/-!
# Nonces Along a Branch

Every transaction of a key, whether a transfer, a stake, a coinbase or an attestation,
carries the nonce the account has and raises it by one. Along a branch the nonces of a key
are therefore the numbers from zero on, and nothing it has signed is accepted twice, unless
an amount has become negative and the account does not reach the trie.

## Main definitions

* `ownTransactions`: What a key has signed on a branch, in the order of processing.

## Theorems

* `nonces_consecutive`: The nonces of a key along a branch of regular blocks.
* `stake_taken_twice`: One stake transaction accepted twice.
-/

namespace Zond

def signedBy (c : Crypto) (x : Address) (txs : List AnyTransaction) : List AnyTransaction :=
  txs.filter (fun tx => tx.signer c = x)

/-- The transactions of an address in a list of blocks, in the order they are processed. -/
def ownTransactions (c : Crypto) (x : Address) (bs : List Block) : List AnyTransaction :=
  bs.flatMap (fun b => signedBy c x b.allTransactions)

section Nonces

variable {c : Crypto} {x : Address} {a a' : Account}

theorem signedBy_cons_self {tx : AnyTransaction} (txs : List AnyTransaction)
    (h : tx.signer c = x) : signedBy c x (tx :: txs) = tx :: signedBy c x txs :=
  List.filter_cons_of_pos (decide_eq_true h)

theorem signedBy_cons_ne {tx : AnyTransaction} (txs : List AnyTransaction)
    (h : tx.signer c ≠ x) : signedBy c x (tx :: txs) = signedBy c x txs :=
  List.filter_cons_of_neg (fun hx => h (of_decide_eq_true hx))

theorem nonces_of_runs {txs : List AnyTransaction} (h : a.Runs c x txs a') :
    (signedBy c x txs).map AnyTransaction.nonce =
        (List.range (signedBy c x txs).length).map (fun i => a.nonce + UInt64.ofNat i) ∧
      a'.nonce = a.nonce + UInt64.ofNat (signedBy c x txs).length := by
  induction txs generalizing a with
  | nil =>
    refine ⟨rfl, ?_⟩
    rw [Account.Drifts.nonce h]
    exact (UInt64.add_zero _).symm
  | cons tx txs ih =>
    rcases h with ⟨m, hstep, hrest⟩
    rcases ih hrest with ⟨hnonces, hlast⟩
    by_cases hself : tx.signer c = x
    · rcases hstep.own hself with ⟨hnonce, hacts⟩
      have hone : ∀ i : Nat, a.nonce + UInt64.ofNat (i + 1) = m.nonce + UInt64.ofNat i := by
        intro i
        rw [hacts.nonce, UInt64.ofNat_add, UInt64.add_comm (UInt64.ofNat i), ← UInt64.add_assoc]
        rfl
      rw [signedBy_cons_self txs hself, List.map_cons, List.length_cons, hone, hlast, hnonces,
        List.range_succ_eq_map, List.map_cons, List.map_map]
      refine ⟨?_, rfl⟩
      rw [hnonce]
      refine congrArg₂ List.cons (UInt64.add_zero _).symm ?_
      exact List.map_congr_left (fun i _ => (hone i).symm)
    · rw [signedBy_cons_ne txs hself, ← (hstep.other hself).nonce]
      exact ⟨hnonces, hlast⟩

theorem nonces_of_lives {b : Block} (h : a.Lives c x b a') :
    (ownTransactions c x [b]).map AnyTransaction.nonce =
        (List.range (ownTransactions c x [b]).length).map (fun i => a.nonce + UInt64.ofNat i) ∧
      a'.nonce = a.nonce + UInt64.ofNat (ownTransactions c x [b]).length := by
  rcases h with ⟨m, m', m'', hmoves, hruns, hmoves', hdrifts⟩
  have hown : ownTransactions c x [b] = signedBy c x b.allTransactions :=
    List.flatMap_singleton ..
  rw [hown, hdrifts.nonce, hmoves'.nonce, ← hmoves.nonce]
  exact nonces_of_runs hruns

theorem nonces_of_history {bs : List Block} (h : a.History c x bs) :
    (ownTransactions c x bs).map AnyTransaction.nonce =
        (List.range (ownTransactions c x bs).length).map UInt64.ofNat ∧
      a.nonce = UInt64.ofNat (ownTransactions c x bs).length := by
  induction h with
  | birth hv => exact ⟨rfl, rfl⟩
  | @block bs b a a' _ hb ih =>
    rcases ih with ⟨hbefore, hnonce⟩
    rcases nonces_of_lives hb with ⟨hown, hlast⟩
    have hsplit : ownTransactions c x (bs ++ [b])
        = ownTransactions c x bs ++ ownTransactions c x [b] := List.flatMap_append
    rw [hsplit, List.map_append, List.length_append, List.range_add, List.map_append,
      List.map_map, hbefore, hown, hlast, hnonce, UInt64.ofNat_add]
    refine ⟨congrArg _ (List.map_congr_left (fun i _ => ?_)), rfl⟩
    exact (UInt64.ofNat_add ..).symm

end Nonces

/-- Along a branch of regular blocks the nonces of a key are `0, 1, 2, …`, and no two of its
    transactions have one nonce. -/
theorem nonces_consecutive {vm : Machine} {x : Address} {g : Block}
    {preState : List (List UInt8 × UInt64)} {c₀ c : Chain} (hvm : vm.Apart)
    (hx : vm.KeyAddress x) (hreserve : Config.coinBaseAddress ≠ x) (hg : g.slotNumber = 0)
    (hmoderate : g.Moderate) (hpre : ModeratePreState preState)
    (h₀ : genesisChain vm g preState = .ok c₀) (hzero : c₀.tries.get zeroHash = none)
    (hrun : Run vm (Regular vm) c₀ c) {k : Hash} {bs : List Block}
    (hbranch : c.db.Branch g.hash k bs) :
    let own := ownTransactions vm.toCrypto x bs
    own.map AnyTransaction.nonce = (List.range own.length).map UInt64.ofNat ∧
      (own.length ≤ 2 ^ 64 → (own.map AnyTransaction.nonce).Nodup) := by
  intro own
  rcases history_of_branch hvm (hvm.keys x hx) hreserve hg hmoderate hpre h₀ hzero hrun hbranch
    with ⟨s, -, hhistory, -⟩
  have hnonces := (nonces_of_history hhistory).1
  refine ⟨hnonces, fun hfew => ?_⟩
  rw [hnonces]
  refine List.Nodup.map_on (fun i hi j hj hij => ?_) List.nodup_range
  have hlt : ∀ n ∈ List.range own.length, n < 2 ^ 64 :=
    fun n hn => lt_of_lt_of_le (List.mem_range.1 hn) hfew
  have hmod := congrArg UInt64.toNat hij
  rwa [UInt64.toNat_ofNat_of_lt' (hlt i hi), UInt64.toNat_ofNat_of_lt' (hlt j hj)] at hmod

theorem toyRun_regular : ∃ c₀ c, genesisChain toyExternals toyGenesis toyPreState = .ok c₀ ∧
    Run toyExternals (Regular toyExternals) c₀ c ∧ c₀.tries.get zeroHash = none ∧
    ((c.db.branchTo toyGenesis.hash 2 toyFirst.hash).map fun bs =>
      (ownTransactions toyCrypto Config.foundationDilithiumAddress bs).length) = some 3 := by
  refine exists_run_of_check toyNow [toyFirst] _ (fun _ _ => regular_of_test) ?_
  decide +kernel

theorem toyRun_nonces : ∃ c₀ c bs, genesisChain toyExternals toyGenesis toyPreState = .ok c₀ ∧
    Run toyExternals (Regular toyExternals) c₀ c ∧
    c.db.Branch toyGenesis.hash toyFirst.hash bs ∧
    (ownTransactions toyCrypto Config.foundationDilithiumAddress bs).length = 3 ∧
    ((ownTransactions toyCrypto Config.foundationDilithiumAddress bs).map
      AnyTransaction.nonce).Nodup := by
  rcases toyRun_regular with ⟨c₀, c, h₀, hrun, hzero, hown⟩
  rcases Option.map_eq_some_iff.1 hown with ⟨bs, hbs, hlength⟩
  have hbranch := Store.branch_of_branchTo hbs
  have hkey : toyVm.KeyAddress Config.foundationDilithiumAddress := .inr ⟨[1], by decide⟩
  have hnonces := nonces_consecutive toyVm_apart hkey (by decide) toyGenesis_slotNumber
    (by decide +kernel) (by decide +kernel) h₀ hzero hrun hbranch
  exact ⟨c₀, c, bs, h₀, hrun, hbranch, hlength, hnonces.2 (hlength.trans_le (by norm_num))⟩

def toyLost : Block := toyBlock 1 100 toyGenesis.hash [toyStakeTx 2 (2 ^ 63) 1] 2

def toyLostAgain : Block := toyBlock 1 102 toyLost.hash [toyStakeTx 2 (2 ^ 63) 1] 3

/-- A branch on which one signed stake transaction is accepted twice: key 2 has used the
    nonce of its stake in genesis, and then the next one two times. -/
theorem stake_taken_twice : ∃ c₀ c bs,
    genesisChain toyExternals toyGenesis toyPreState = .ok c₀ ∧
    Run toyExternals (fun _ _ => True) c₀ c ∧
    c.db.Branch toyGenesis.hash toyLostAgain.hash bs ∧
    (ownTransactions toyCrypto (toyAddress 2) bs).map AnyTransaction.nonce = [0, 1, 1] := by
  rcases exists_toyRun [toyLost, toyLostAgain] (fun _ c =>
      ((c.db.branchTo toyGenesis.hash 3 toyLostAgain.hash).map fun bs =>
        (ownTransactions toyCrypto (toyAddress 2) bs).map AnyTransaction.nonce)
        = some [0, 1, 1]) (by decide +kernel) with ⟨c₀, c, h₀, hrun, hown⟩
  rcases Option.map_eq_some_iff.1 hown with ⟨bs, hbs, hnonces⟩
  exact ⟨c₀, c, bs, h₀, hrun, Store.branch_of_branchTo hbs, hnonces⟩

end Zond
