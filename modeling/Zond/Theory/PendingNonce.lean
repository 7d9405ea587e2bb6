import Zond.Core.TransactionAPI
import Zond.Theory.NonceIndex
import Zond.Theory.Nonces

/-!
# The Pending Nonce

The pool keeps the last nonce in use and the state the next one to use, and one is added to
either. With none in the pool the answer is one too many.

## Main definitions

* `GapFree`: The nonces of a sender in the pool follow on that of the state.

## Theorems

* `pending_nonce_usable`: With a right index the answer is right unless none is pooled.
-/

namespace Zond

open Greatest Outcome

def TransactionPool.pooledNonces (c : Crypto) (t : TransactionPool) (a : Address) : List UInt64 :=
  (t.txPool.filter (fun ti => ti.address c = a)).map (fun ti => ti.tx.base.nonce)

/-- The nonces are, in some order, those that follow each other from the given one on. -/
def GapFree (n : UInt64) (nonces : List UInt64) : Prop :=
  (nonces.map UInt64.toNat).Perm (List.range' n.toNat nonces.length)

section Counting

variable {c : Crypto} {chain : Chain} {t : TransactionPool} {a : Address} {s : StateDB}

theorem mem_noncesOf {n : UInt64} : n ∈ t.noncesOf c a ↔ n ∈ t.pooledNonces c a := by
  constructor
  · rintro ⟨ti, hti, haddr, hn⟩
    exact List.mem_map.2 ⟨ti, List.mem_filter.2 ⟨hti, decide_eq_true haddr⟩, hn⟩
  · intro hn
    rcases List.mem_map.1 hn with ⟨ti, hti, hn⟩
    rcases List.mem_filter.1 hti with ⟨hti, haddr⟩
    exact ⟨ti, hti, of_decide_eq_true haddr, hn⟩

theorem getTransactionCount_pending : chain.getTransactionCount t a .pending = (do
    let nonce ← chain.getNonce t a
    pure (nonce + 1)) :=
  if_pos rfl

theorem getTransactionCount_some {m : UInt64} (h : t.getNonceByAddress a = some m) :
    chain.getTransactionCount t a .pending = .ok (m + 1) := by
  rw [getTransactionCount_pending, Chain.getNonce, h]
  rfl

theorem getTransactionCount_none (hs : chain.accountDB = .ok s) (h : t.getNonceByAddress a = none) :
    chain.getTransactionCount t a .pending = .ok (s.getNonce a + 1) := by
  rw [getTransactionCount_pending, Chain.getNonce, h, hs]
  rfl

theorem GapFree.mem {n : UInt64} {nonces : List UInt64} (h : GapFree n nonces) {i : Nat} :
    i ∈ nonces.map UInt64.toNat ↔ n.toNat ≤ i ∧ i < n.toNat + nonces.length := by
  rw [h.mem_iff, List.mem_range'_1]

theorem GapFree.length_le {n : UInt64} {nonces : List UInt64} (h : GapFree n nonces)
    (hne : nonces.length ≠ 0) : n.toNat + nonces.length ≤ 2 ^ 64 := by
  have hlast : n.toNat + nonces.length - 1 ∈ nonces.map UInt64.toNat := h.mem.2 (by omega)
  rcases List.mem_map.1 hlast with ⟨m, -, hm⟩
  have hlt := m.toNat_lt
  omega

theorem GapFree.add_one_of_isGreatest {n m : UInt64}
    (h : GapFree n (t.pooledNonces c a)) (hm : IsGreatest (t.noncesOf c a) m) :
    m + 1 = n + UInt64.ofNat (t.pooledNonces c a).length := by
  have hmem := h.mem.1 (List.mem_map_of_mem (mem_noncesOf.1 hm.1))
  have hlast : n.toNat + (t.pooledNonces c a).length - 1 ∈
      (t.pooledNonces c a).map UInt64.toNat := h.mem.2 (by omega)
  rcases List.mem_map.1 hlast with ⟨last, hin, heq⟩
  have hle := UInt64.le_iff_toNat_le.1 (hm.2 (mem_noncesOf.2 hin))
  refine UInt64.toNat_inj.1 ?_
  rw [UInt64.toNat_add, UInt64.toNat_add, UInt64.toNat_ofNat', UInt64.toNat_one]
  omega

end Counting

/-- The answer for the pending block. Let the transactions of the address in the pool have the
    nonces that follow each other from the nonce of the state on. The answer is the nonce of the
    state plus their number exactly when the entry of the index is one less, or when there is no
    entry and one transaction. So where the index is right, it is unless there is none in the
    pool. An account that has been through as many transactions of its own then takes one with
    that nonce. -/
theorem pending_nonce_usable {c : Crypto} {chain : Chain} {t : TransactionPool} {a : Address}
    {s : StateDB} (hs : chain.accountDB = .ok s)
    (hgap : GapFree (s.getNonce a) (t.pooledNonces c a)) :
    let k := (t.pooledNonces c a).length
    let next := s.getNonce a + UInt64.ofNat k
    (chain.getTransactionCount t a .pending = .ok next ↔
      (∃ m, t.getNonceByAddress a = some m ∧ m + 1 = next) ∨
      (t.getNonceByAddress a = none ∧ k = 1)) ∧
    (t.Indexed c → (chain.getTransactionCount t a .pending = .ok next ↔ k ≠ 0)) ∧
    (chain.getTransactionCount t a .pending = .ok next →
      ∀ txs account, (s.account a).Runs c a txs account → (signedBy c a txs).length = k →
        chain.getTransactionCount t a .pending = .ok account.nonce) := by
  intro k next
  have hiff : chain.getTransactionCount t a .pending = .ok next ↔
      (∃ m, t.getNonceByAddress a = some m ∧ m + 1 = next) ∨
      (t.getNonceByAddress a = none ∧ k = 1) := by
    cases hget : t.getNonceByAddress a with
    | some m =>
      rw [getTransactionCount_some hget, Except.ok.injEq]
      constructor
      · exact fun h => .inl ⟨m, rfl, h⟩
      · rintro (⟨m', hm, h⟩ | ⟨hnone, -⟩)
        · cases hm
          exact h
        · cases hnone
    | none =>
      rw [getTransactionCount_none hs hget, Except.ok.injEq]
      have hone : s.getNonce a + 1 = next ↔ k = 1 := by
        constructor
        · intro h
          have hnat := congrArg UInt64.toNat h
          rw [UInt64.toNat_add, UInt64.toNat_add, UInt64.toNat_ofNat', UInt64.toNat_one] at hnat
          have hlt := (s.getNonce a).toNat_lt
          by_cases hzero : k = 0
          · omega
          · have hle : (s.getNonce a).toNat + k ≤ 2 ^ 64 := hgap.length_le hzero
            omega
        · intro h
          show s.getNonce a + 1 = s.getNonce a + UInt64.ofNat k
          rw [h]
          rfl
      rw [hone]
      constructor
      · exact fun h => .inr ⟨rfl, h⟩
      · rintro (⟨m, hm, -⟩ | ⟨-, h⟩)
        · cases hm
        · exact h
  refine ⟨hiff, fun hindexed => ?_, fun hok txs account hruns hlength => ?_⟩
  · rw [hiff]
    have hat := hindexed a
    cases hget : t.getNonceByAddress a with
    | none =>
      rw [hget] at hat
      have hzero : k = 0 := by
        refine List.length_eq_zero_iff.2 (List.eq_nil_iff_forall_not_mem.2 (fun n hn => ?_))
        have hmem := mem_noncesOf.2 hn
        rw [show t.noncesOf c a = ∅ from hat] at hmem
        exact hmem
      constructor
      · rintro (⟨m, hm, -⟩ | ⟨-, hone⟩)
        · cases hm
        · omega
      · exact fun hne => absurd hzero hne
    | some m =>
      have hgreatest := (hindexed a).eq_some_iff.1 hget
      constructor
      · intro _ hzero
        have hmem := mem_noncesOf.1 hgreatest.1
        rw [List.length_eq_zero_iff.1 hzero] at hmem
        cases hmem
      · exact fun _ => .inl ⟨m, rfl, hgap.add_one_of_isGreatest hgreatest⟩
  · rw [hok, (nonces_of_runs hruns).2, hlength]
    rfl

theorem toyTwoPooled_pending : ∃ chain first t s,
    genesisChain toyExternals toyGenesis toyPreState = .ok chain ∧
    toyTwoPooled = .ok (first, t) ∧ chain.accountDB = .ok s ∧ s.getNonce (toyAddress 2) = 1 ∧
    chain.getTransactionCount t (toyAddress 2) .pending = .ok 3 := by
  have hcheck : (genesisChain toyExternals toyGenesis toyPreState >>= fun chain =>
      toyTwoPooled >>= fun p => chain.accountDB >>= fun s =>
      pure (decide (s.getNonce (toyAddress 2) = 1 ∧
        (p.2.pooledNonces toyCrypto (toyAddress 2)).length = 2 ∧
        ((p.2.pooledNonces toyCrypto (toyAddress 2)).map UInt64.toNat).Perm (List.range' 1 2) ∧
        p.2.getNonceByAddress (toyAddress 2) = some 2))) = .ok true := by
    decide +kernel
  rcases bind_eq_ok.1 hcheck with ⟨chain, hgenesis, hcheck⟩
  rcases bind_eq_ok.1 hcheck with ⟨⟨first, t⟩, htwo, hcheck⟩
  rcases bind_eq_ok.1 hcheck with ⟨s, hs, hcheck⟩
  rw [pure_eq_ok, decide_eq_true_eq] at hcheck
  rcases hcheck with ⟨hnonce, hlength, hperm, hget⟩
  have hgap : GapFree (s.getNonce (toyAddress 2)) (t.pooledNonces toyCrypto (toyAddress 2)) := by
    unfold GapFree
    rw [hnonce, hlength]
    exact hperm
  have husable := (pending_nonce_usable hs hgap).1.2
  rw [hnonce, hlength] at husable
  exact ⟨chain, first, t, s, hgenesis, htwo, hs, hnonce, husable (.inl ⟨2, hget, by decide⟩)⟩

/-- With nothing in the pool, key 2 is told to use nonce 2, and the state expects 1. -/
theorem fresh_pool_pending : ∃ chain s,
    genesisChain toyExternals toyGenesis toyPreState = .ok chain ∧ chain.accountDB = .ok s ∧
    createTransactionPool.pooledNonces toyCrypto (toyAddress 2) = [] ∧
    s.getNonce (toyAddress 2) = 1 ∧
    chain.getTransactionCount createTransactionPool (toyAddress 2) .pending = .ok 2 := by
  have hcheck : (genesisChain toyExternals toyGenesis toyPreState >>= fun chain =>
      chain.accountDB >>= fun s => pure (decide (s.getNonce (toyAddress 2) = 1))) = .ok true := by
    decide +kernel
  rcases bind_eq_ok.1 hcheck with ⟨chain, hgenesis, hcheck⟩
  rcases bind_eq_ok.1 hcheck with ⟨s, hs, hcheck⟩
  rw [pure_eq_ok, decide_eq_true_eq] at hcheck
  refine ⟨chain, s, hgenesis, hs, rfl, hcheck, ?_⟩
  rw [getTransactionCount_none hs rfl, hcheck]
  rfl

end Zond
