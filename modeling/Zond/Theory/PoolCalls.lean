import Zond.Core.Pool
import Zond.Lib.Outcome

/-!
# Calls on the Pool

Each call adds an entry at the end of the queue or takes some away.

## Main definitions

* `DistinctHashes`: No two entries have one hash.

## Theorems

* `queue_reached`: A rule for properties of the queue.
* `removeHash_eq_filter`: Taking out a hash leaves out all entries with it.
-/

namespace Zond

open Outcome

variable {c : Crypto}

/-- The address the nonces of an entry count for. -/
def TransactionInfo.address (c : Crypto) (ti : TransactionInfo) : Address :=
  c.getAddressFromUnSizedPK ti.tx.base.pk

/-- The entry that `Add` makes of a transaction. -/
def newInfo (tx : Transaction) (txHash : Hash) (slotNumber timestamp time : UInt64) :
    TransactionInfo :=
  { tx := tx, txHash := txHash, blockNumber := slotNumber
    timestamp := if timestamp = 0 then time else timestamp }

/-- The transactions a call may add, with the hashes they are added under. -/
def PoolOp.Adds : PoolOp → Transaction → Hash → Prop
  | .add tx txHash _ _ _, tx', txHash' => tx' = tx ∧ txHash' = txHash
  | .addTxFromBlock txs _ _, tx', txHash' => tx' ∈ txs ∧ tx'.hash = .ok txHash'
  | _, _, _ => False

section Calls

variable {t t' : TransactionPool} {tx : Transaction} {txHash : Hash}
variable {slotNumber timestamp time : UInt64}

@[simp] theorem txPool_addNonceData (t : TransactionPool) (pk : List UInt8) (n : UInt64) :
    (t.addNonceData c pk n).txPool = t.txPool := by
  unfold TransactionPool.addNonceData
  dsimp only
  split
  · rfl
  · split
    · rfl
    · rfl

@[simp] theorem txPool_deleteNonceData (t : TransactionPool) (pk : List UInt8) (n : UInt64) :
    (t.deleteNonceData c pk n).txPool = t.txPool := by
  unfold TransactionPool.deleteNonceData
  dsimp only
  split
  · rfl
  · rfl

/-- A call of `Add` that succeeds passes every test and puts the entry at the back. -/
theorem add_of_ok (h : t.add c tx txHash slotNumber timestamp time = .ok t') :
    t.txPool.length ≤ Config.transactionPoolSize ∧
      (∃ addr, tx.addrFrom c = .ok addr ∧ ∀ ti ∈ t.txPool,
        (newInfo tx txHash slotNumber timestamp time).checkClash (c.isValidXMSSAddress addr) ti
          = .ok ()) ∧
      t' = { t with txPool := t.txPool ++ [newInfo tx txHash slotNumber timestamp time]
        }.addNonceData c tx.base.pk tx.base.nonce := by
  unfold TransactionPool.add at h
  rcases errorIf_bind_eq_ok.1 h with ⟨hroom, h⟩
  rcases bind_eq_ok.1 h with ⟨queue, hpush, h⟩
  unfold TransactionPool.push at hpush
  rcases bind_eq_ok.1 hpush with ⟨addr, haddr, hpush⟩
  rcases bind_eq_ok.1 hpush with ⟨_, hloop, hpush⟩
  rw [pure_eq_ok] at hpush h
  refine ⟨Nat.not_lt.1 hroom, ⟨addr, haddr, forM_eq_ok.1 hloop⟩, ?_⟩
  rw [← h, ← hpush]
  rfl

/-- An entry that does not clash has another hash. -/
theorem hash_ne_of_checkClash {isValidXMSS : Bool} {newTi ti : TransactionInfo}
    (h : newTi.checkClash isValidXMSS ti = .ok ()) : ti.txHash ≠ newTi.txHash := by
  exact (errorIf_bind_eq_ok.1 h).1

/-- What each `Add` keeps, `AddTxFromBlock` keeps, also where it stops at an error. -/
theorem addTxFromBlock_invariant {P : TransactionPool → Prop} {txs : List Transaction}
    {height : UInt64} {e : Option Err}
    (hadd : ∀ tx ∈ txs, ∀ txHash t t', tx.hash = .ok txHash → P t →
      t.add c tx txHash height time time = .ok t' →
      P (t'.addNonceData c tx.base.pk tx.base.nonce)) (ht : P t)
    (h : TransactionPool.addTxFromBlock c height time txs t = .ok (t', e)) : P t' := by
  induction txs generalizing t with
  | nil =>
    cases h
    exact ht
  | cons tx txs ih =>
    rcases bind_eq_ok.1 h with ⟨txHash, hhash, h⟩
    split at h
    · rename_i t₁ hok
      exact ih (fun tx' htx' => hadd tx' (List.mem_cons_of_mem tx htx'))
        (hadd tx List.mem_cons_self txHash t t₁ hhash ht hok) h
    · -- The first error ends the call, and what was added stays.
      cases h
      exact ht
    · cases h

theorem removeHash_sublist (queue : List TransactionInfo) (txHash : Hash) :
    (TransactionPool.removeHash queue txHash).Sublist queue :=
  List.eraseP_sublist

theorem removeHashes_sublist {queue queue' : List TransactionInfo} {txs : List Transaction}
    (h : TransactionPool.removeHashes queue txs = .ok queue') : queue'.Sublist queue := by
  unfold TransactionPool.removeHashes at h
  refine foldlM_invariant (fun q => q.Sublist queue) txs (fun q tx q' _ hq hstep => ?_)
    (List.Sublist.refl queue) h
  rcases bind_eq_ok.1 hstep with ⟨txHash, -, hstep⟩
  rw [pure_eq_ok] at hstep
  rw [← hstep]
  exact (removeHash_sublist q txHash).trans hq

theorem txPool_foldl_deleteNonceData (txs : List Transaction) (t : TransactionPool) :
    (txs.foldl (fun t tx => t.deleteNonceData c tx.base.pk tx.base.nonce) t).txPool
      = t.txPool := by
  induction txs generalizing t with
  | nil => rfl
  | cons tx txs ih => rw [List.foldl_cons, ih, txPool_deleteNonceData]

/-- `Pop` takes the last entry of the slice. -/
theorem pop_eq (t : TransactionPool) : t.pop c = none ∧ t.txPool = [] ∨
    ∃ rest ti, t.txPool = rest ++ [ti] ∧ t.pop c = some (ti,
      { t with txPool := rest }.deleteNonceData c ti.tx.base.pk ti.tx.base.nonce) := by
  unfold TransactionPool.pop
  rcases List.eq_nil_or_concat t.txPool with hnil | ⟨rest, ti, hsplit⟩
  · refine .inl ⟨?_, hnil⟩
    rw [hnil]
    rfl
  · refine .inr ⟨rest, ti, by rw [hsplit, List.concat_eq_append], ?_⟩
    rw [hsplit, List.concat_eq_append, List.getLast?_concat, List.dropLast_concat]
    rfl

/-- The step rule: what holds of parts of a queue, and that `Add` keeps, every call keeps. -/
theorem queue_step {Q : List TransactionInfo → Prop} {op : PoolOp}
    (hsub : ∀ l l' : List TransactionInfo, l'.Sublist l → Q l → Q l')
    (hadd : ∀ tx txHash, op.Adds tx txHash → ∀ (t : TransactionPool) slotNumber timestamp time t',
      Q t.txPool → t.add c tx txHash slotNumber timestamp time = .ok t' → Q t'.txPool)
    (ht : Q t.txPool) (h : t.perform c op = .ok t') : Q t'.txPool := by
  cases op with
  | add tx txHash slotNumber timestamp time =>
    simp only [TransactionPool.perform] at h
    split at h
    · cases h
      exact ht
    · exact hadd tx txHash ⟨rfl, rfl⟩ t _ _ _ t' ht h
  | pop =>
    simp only [TransactionPool.perform] at h
    rcases @pop_eq c t with ⟨hpop, -⟩ | ⟨rest, ti, hsplit, hpop⟩
    · rw [hpop] at h
      cases h
      exact ht
    · rw [hpop] at h
      cases h
      rw [txPool_deleteNonceData]
      refine hsub _ _ ?_ ht
      rw [hsplit]
      exact List.sublist_append_left rest [ti]
  | remove tx txHash =>
    simp only [TransactionPool.perform] at h
    rcases map_eq_ok.1 h with ⟨⟨found, t₁⟩, hcall, rfl⟩
    unfold TransactionPool.remove at hcall
    split at hcall
    · cases hcall
      exact hsub _ _ (removeHash_sublist t.txPool txHash) ht
    · split at hcall
      · cases hcall
      · cases hcall
        rw [txPool_deleteNonceData]
        exact ht
  | removeTxInBlock txs =>
    simp only [TransactionPool.perform, TransactionPool.removeTxInBlock] at h
    rcases bind_eq_ok.1 h with ⟨queue, hqueue, h⟩
    cases h
    rw [txPool_foldl_deleteNonceData]
    exact hsub _ _ (removeHashes_sublist hqueue) ht
  | addTxFromBlock txs height time =>
    simp only [TransactionPool.perform] at h
    rcases map_eq_ok.1 h with ⟨⟨t₁, e⟩, hcall, rfl⟩
    refine @addTxFromBlock_invariant c t t₁ time (fun t => Q t.txPool) txs height e
      (fun tx htx txHash t t' hhash ht hok => ?_) ht hcall
    rw [txPool_addNonceData]
    exact hadd tx txHash ⟨htx, hhash⟩ t _ _ _ t' ht hok

end Calls

section Reached

variable {P : TransactionPool → PoolOp → Prop} {t : TransactionPool}

theorem PoolReached.mono {P' : TransactionPool → PoolOp → Prop}
    (hmono : ∀ t op, P t op → P' t op) (h : PoolReached c P t) : PoolReached c P' t := by
  induction h with
  | fresh => exact .fresh
  | step _ hP hstep ih => exact .step ih (hmono _ _ hP) hstep

/-- The run rule: it holds of every pool that calls lead to. -/
theorem queue_reached {Q : List TransactionInfo → Prop} (hnil : Q [])
    (hsub : ∀ l l' : List TransactionInfo, l'.Sublist l → Q l → Q l')
    (hadd : ∀ t₀ op tx txHash, P t₀ op → op.Adds tx txHash →
      ∀ (t : TransactionPool) slotNumber timestamp time t', Q t.txPool →
        t.add c tx txHash slotNumber timestamp time = .ok t' → Q t'.txPool)
    (h : PoolReached c P t) : Q t.txPool := by
  induction h with
  | fresh => exact hnil
  | @step t t' op _ hP hstep ih => exact queue_step hsub (hadd t op · · hP) ih hstep

/-- No two entries have one hash. -/
def DistinctHashes (queue : List TransactionInfo) : Prop :=
  queue.Pairwise (fun ti ti' => ti.txHash ≠ ti'.txHash)

theorem distinctHashes_add {t t' : TransactionPool} {tx : Transaction} {txHash : Hash}
    {slotNumber timestamp time : UInt64} (ht : DistinctHashes t.txPool)
    (h : t.add c tx txHash slotNumber timestamp time = .ok t') : DistinctHashes t'.txPool := by
  rcases add_of_ok h with ⟨-, ⟨addr, -, hclash⟩, rfl⟩
  rw [txPool_addNonceData]
  refine List.pairwise_append.2 ⟨ht, List.pairwise_singleton _ _, fun ti hti ti' hti' => ?_⟩
  rw [List.mem_singleton.1 hti']
  exact hash_ne_of_checkClash (hclash ti hti)

/-- The test of `Push` keeps the hashes apart in every run. -/
theorem distinctHashes_reached (h : PoolReached c P t) : DistinctHashes t.txPool :=
  queue_reached List.Pairwise.nil (fun _ _ hsub hl => hl.sublist hsub)
    (fun _ _ _ _ _ _ _ _ _ _ _ ht hok => distinctHashes_add ht hok) h

end Reached

section Removing

variable {queue : List TransactionInfo}

/-- With distinct hashes, the one entry `Remove` finds is the only one. -/
theorem removeHash_eq_filter (h : DistinctHashes queue) (txHash : Hash) :
    TransactionPool.removeHash queue txHash = queue.filter (fun ti => ti.txHash ≠ txHash) := by
  unfold TransactionPool.removeHash
  induction queue with
  | nil => rfl
  | cons ti queue ih =>
    rcases List.pairwise_cons.1 h with ⟨hhead, htail⟩
    by_cases heq : ti.txHash = txHash
    · -- The entry found is the only one, so the rest passes the filter whole.
      have hrest : queue.filter (fun ti => ti.txHash ≠ txHash) = queue := by
        refine List.filter_eq_self.2 (fun ti' hti' => ?_)
        rw [decide_eq_true_eq, ← heq]
        exact fun h => hhead ti' hti' h.symm
      rw [List.eraseP_cons_of_pos (by rw [decide_eq_true_eq]; exact heq),
        List.filter_cons_of_neg (by rw [decide_eq_true_eq, not_not]; exact heq), hrest]
    · rw [List.eraseP_cons_of_neg (by rw [decide_eq_true_eq]; exact heq),
        List.filter_cons_of_pos (by rw [decide_eq_true_eq]; exact heq), ih htail]

/-- `RemoveTxInBlock` leaves just the entries that are not in the block. -/
theorem mem_removeHashes {queue' : List TransactionInfo} {txs : List Transaction}
    (hdistinct : DistinctHashes queue) (h : TransactionPool.removeHashes queue txs = .ok queue')
    (ti : TransactionInfo) : ti ∈ queue' ↔ ti ∈ queue ∧ ∀ tx ∈ txs, tx.hash ≠ .ok ti.txHash := by
  induction txs generalizing queue with
  | nil =>
    cases h
    exact ⟨fun hti => ⟨hti, fun _ htx => (nomatch htx)⟩, fun hti => hti.1⟩
  | cons tx txs ih =>
    unfold TransactionPool.removeHashes at h
    rw [List.foldlM_cons] at h
    rcases bind_eq_ok.1 h with ⟨queue₁, hfirst, hrest⟩
    rcases bind_eq_ok.1 hfirst with ⟨txHash, hhash, hfirst⟩
    rw [pure_eq_ok] at hfirst
    subst hfirst
    have hdistinct₁ : DistinctHashes (TransactionPool.removeHash queue txHash) :=
      hdistinct.sublist (removeHash_sublist queue txHash)
    rw [ih hdistinct₁ hrest, removeHash_eq_filter hdistinct, List.mem_filter, decide_eq_true_eq,
      List.forall_mem_cons, hhash, and_assoc]
    refine and_congr_right (fun _ => and_congr_left (fun _ => not_congr ?_))
    rw [Except.ok.injEq]
    exact eq_comm

end Removing

end Zond
