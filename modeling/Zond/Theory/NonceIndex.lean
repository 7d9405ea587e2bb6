import Zond.Lib.Greatest
import Zond.Theory.Genesis
import Zond.Theory.PoolCalls

/-!
# The Nonce Index

Adding keeps the index. Taking away does not: `Pop` and `RemoveTxInBlock` drop a nonce when
the transaction that has it goes, whatever else is there, and `Remove` drops it only when it
did not find the transaction.

## Main definitions

* `Indexed`: The nonce the pool keeps for a sender is the largest of its transactions there.
* `Benign`: What a call has to meet.

## Theorems

* `nonce_index_kept`: A call keeps the index exactly if it is benign.
-/

namespace Zond

open Greatest Outcome

variable {c : Crypto}

namespace TransactionPool

def noncesOf (c : Crypto) (t : TransactionPool) (a : Address) : Set UInt64 :=
  {n | ∃ ti ∈ t.txPool, ti.address c = a ∧ ti.tx.base.nonce = n}

/-- The index has a nonce for exactly the senders with transactions in the pool, and it is
    the largest of theirs. -/
def Indexed (c : Crypto) (t : TransactionPool) : Prop :=
  ∀ a, Tracks (t.noncesOf c a) (t.getNonceByAddress a)

/-- The calls that keep the index right.

    * `Pop`: the transaction does not have the largest nonce of its sender in the pool, or its
      sender has no other there.
    * `Remove`: when the transaction is found, its sender has another in the pool with a nonce
      as large; when not, its nonce is not the largest of its sender in the pool.
    * `RemoveTxInBlock`: for a sender of whom the block has a transaction with the largest
      nonce in the pool, it has all that are in the pool; for any other sender, it leaves one
      with the largest nonce. -/
def Benign (c : Crypto) (t : TransactionPool) : PoolOp → Prop
  | .add .. => True
  | .addTxFromBlock .. => True
  | .pop => ∀ rest ti, t.txPool = rest ++ [ti] →
      IsGreatest (t.noncesOf c (ti.address c)) ti.tx.base.nonce →
      ∀ other ∈ rest, other.address c ≠ ti.address c
  | .remove tx txHash =>
    (∀ ti ∈ t.txPool, ti.txHash = txHash → ∃ other ∈ t.txPool, other.txHash ≠ txHash ∧
      other.address c = ti.address c ∧ ti.tx.base.nonce ≤ other.tx.base.nonce) ∧
    ((∀ ti ∈ t.txPool, ti.txHash ≠ txHash) →
      ¬IsGreatest (t.noncesOf c (c.getAddressFromUnSizedPK tx.base.pk)) tx.base.nonce)
  | .removeTxInBlock txs => ∀ a m, IsGreatest (t.noncesOf c a) m →
      ((∃ tx ∈ txs, c.getAddressFromUnSizedPK tx.base.pk = a ∧ tx.base.nonce = m) →
        ∀ ti ∈ t.txPool, ti.address c = a → ∃ tx ∈ txs, tx.hash = .ok ti.txHash) ∧
      ((¬∃ tx ∈ txs, c.getAddressFromUnSizedPK tx.base.pk = a ∧ tx.base.nonce = m) →
        ∃ ti ∈ t.txPool, ti.address c = a ∧ ti.tx.base.nonce = m ∧
          ∀ tx ∈ txs, tx.hash ≠ .ok ti.txHash)

end TransactionPool

section Index

variable (t : TransactionPool) (pk : List UInt8) (n : UInt64) (a : Address)

theorem getNonce_addNonceData : (t.addNonceData c pk n).getNonceByAddress a =
    if c.getAddressFromUnSizedPK pk = a then raise (t.getNonceByAddress a) n
    else t.getNonceByAddress a := by
  unfold TransactionPool.addNonceData TransactionPool.getNonceByAddress
  dsimp only
  by_cases ha : c.getAddressFromUnSizedPK pk = a
  · rw [if_pos ha, ha]
    cases hget : t.nonce.get a with
    | none => exact AssocMap.get_put_self _ _ _
    | some m =>
      show (if m < n then { t with nonce := t.nonce.put a n } else t).nonce.get a
        = if m < n then some n else some m
      by_cases hlt : m < n
      · rw [if_pos hlt, if_pos hlt]
        exact AssocMap.get_put_self _ _ _
      · rw [if_neg hlt, if_neg hlt]
        exact hget
  · rw [if_neg ha]
    split
    · exact AssocMap.get_put_ne _ _ ha
    · split
      · exact AssocMap.get_put_ne _ _ ha
      · rfl

theorem getNonce_deleteNonceData : (t.deleteNonceData c pk n).getNonceByAddress a =
    if c.getAddressFromUnSizedPK pk = a ∧ t.getNonceByAddress a = some n then none
    else t.getNonceByAddress a := by
  unfold TransactionPool.deleteNonceData TransactionPool.getNonceByAddress
  dsimp only
  by_cases ha : c.getAddressFromUnSizedPK pk = a
  · rw [ha]
    by_cases hget : t.nonce.get a = some n
    · rw [if_pos hget, if_pos ⟨rfl, hget⟩]
      show (t.nonce.erase a).get a = none
      rw [AssocMap.get_erase, if_pos rfl]
    · rw [if_neg hget, if_neg (fun h => hget h.2)]
  · refine Eq.trans ?_ (if_neg (fun h => ha h.1)).symm
    split
    · show (t.nonce.erase _).get a = _
      rw [AssocMap.get_erase, if_neg ha]
    · rfl

theorem getNonce_withPool (queue : List TransactionInfo) :
    TransactionPool.getNonceByAddress { t with txPool := queue } a = t.getNonceByAddress a :=
  rfl

theorem getNonce_foldl_deleteNonceData (txs : List Transaction) (t : TransactionPool) :
    (txs.foldl (fun t tx => t.deleteNonceData c tx.base.pk tx.base.nonce) t).getNonceByAddress a =
      if ∃ tx ∈ txs, c.getAddressFromUnSizedPK tx.base.pk = a ∧
        t.getNonceByAddress a = some tx.base.nonce then none else t.getNonceByAddress a := by
  induction txs generalizing t with
  | nil => rw [List.foldl_nil, if_neg (fun ⟨_, htx, _⟩ => (nomatch htx))]
  | cons tx txs ih =>
    rw [List.foldl_cons, ih, getNonce_deleteNonceData]
    by_cases hfirst : c.getAddressFromUnSizedPK tx.base.pk = a ∧
        t.getNonceByAddress a = some tx.base.nonce
    · -- Once dropped, the nonce is not there for the others.
      rw [if_pos hfirst, if_neg (fun ⟨_, _, _, hnone⟩ => (nomatch hnone)),
        if_pos ⟨tx, List.mem_cons_self, hfirst⟩]
    · rw [if_neg hfirst]
      refine if_congr ?_ rfl rfl
      constructor
      · rintro ⟨tx', htx', hother⟩
        exact ⟨tx', List.mem_cons_of_mem tx htx', hother⟩
      · rintro ⟨tx', htx', hother⟩
        rcases List.mem_cons.1 htx' with rfl | htx'
        · exact absurd hother hfirst
        · exact ⟨tx', htx', hother⟩

end Index

section Adding

variable {t t' : TransactionPool} {tx : Transaction} {txHash : Hash}
variable {slotNumber timestamp time : UInt64}

theorem noncesOf_congr (h : t'.txPool = t.txPool) (a : Address) :
    t'.noncesOf c a = t.noncesOf c a := by
  unfold TransactionPool.noncesOf
  rw [h]

theorem indexed_add (ht : t.Indexed c) (h : t.add c tx txHash slotNumber timestamp time = .ok t') :
    t'.Indexed c ∧ tx.base.nonce ∈ t'.noncesOf c (c.getAddressFromUnSizedPK tx.base.pk) := by
  rcases add_of_ok h with ⟨-, -, rfl⟩
  have hmem : newInfo tx txHash slotNumber timestamp time ∈
      t.txPool ++ [newInfo tx txHash slotNumber timestamp time] :=
    List.mem_append_right _ (List.mem_singleton.2 rfl)
  refine ⟨fun a => ?_, ?_⟩
  · rw [getNonce_addNonceData, noncesOf_congr (txPool_addNonceData _ _ _)]
    have hold := ht a
    by_cases ha : c.getAddressFromUnSizedPK tx.base.pk = a
    · rw [if_pos ha]
      have hset : TransactionPool.noncesOf c
          { t with txPool := t.txPool ++ [newInfo tx txHash slotNumber timestamp time] } a
            = insert tx.base.nonce (t.noncesOf c a) := by
        ext n
        constructor
        · rintro ⟨ti, hti, haddr, hn⟩
          rcases List.mem_append.1 hti with hti | hti
          · exact .inr ⟨ti, hti, haddr, hn⟩
          · rw [List.mem_singleton.1 hti] at hn
            exact .inl hn.symm
        · rintro (rfl | ⟨ti, hti, haddr, hn⟩)
          · exact ⟨_, hmem, ha, rfl⟩
          · exact ⟨ti, List.mem_append_left _ hti, haddr, hn⟩
      rw [hset]
      exact tracks_raise hold _
    · rw [if_neg ha]
      have hset : TransactionPool.noncesOf c
          { t with txPool := t.txPool ++ [newInfo tx txHash slotNumber timestamp time] } a
            = t.noncesOf c a := by
        ext n
        constructor
        · rintro ⟨ti, hti, haddr, hn⟩
          rcases List.mem_append.1 hti with hti | hti
          · exact ⟨ti, hti, haddr, hn⟩
          · rw [List.mem_singleton.1 hti] at haddr
            exact absurd haddr ha
        · rintro ⟨ti, hti, haddr, hn⟩
          exact ⟨ti, List.mem_append_left _ hti, haddr, hn⟩
      rw [hset]
      exact hold
  · rw [noncesOf_congr (txPool_addNonceData _ _ _)]
    exact ⟨_, hmem, rfl, rfl⟩

theorem indexed_addNonceData {pk : List UInt8} {n : UInt64} (ht : t.Indexed c)
    (hn : n ∈ t.noncesOf c (c.getAddressFromUnSizedPK pk)) : (t.addNonceData c pk n).Indexed c := by
  intro a
  rw [getNonce_addNonceData, noncesOf_congr (txPool_addNonceData _ _ _)]
  have hold := ht a
  by_cases ha : c.getAddressFromUnSizedPK pk = a
  · rw [ha] at hn
    rw [if_pos ha, ← Set.insert_eq_of_mem hn]
    exact tracks_raise hold n
  · rw [if_neg ha]
    exact hold

end Adding

section Taking

variable {t t' : TransactionPool}

theorem indexed_iff_at (a₀ : Address)
    (h : ∀ a, a ≠ a₀ → Tracks (t.noncesOf c a) (t.getNonceByAddress a)) :
    t.Indexed c ↔ Tracks (t.noncesOf c a₀) (t.getNonceByAddress a₀) := by
  refine ⟨fun ht => ht a₀, fun h₀ a => ?_⟩
  by_cases ha : a = a₀
  · rw [ha]
    exact h₀
  · exact h a ha

theorem indexed_pop_iff (ht : t.Indexed c) (h : t.perform c .pop = .ok t') :
    t'.Indexed c ↔ t.Benign c .pop := by
  simp only [TransactionPool.perform, Except.ok.injEq] at h
  rcases @pop_eq c t with ⟨hpop, hnil⟩ | ⟨rest, ti, hsplit, hpop⟩
  · rw [hpop] at h
    cases h
    refine ⟨fun _ rest ti hsplit => ?_, fun _ => ht⟩
    rw [hnil] at hsplit
    exact absurd hsplit.symm (List.append_ne_nil_of_right_ne_nil _ (List.cons_ne_nil ti []))
  rw [hpop] at h
  subst h
  have hrest (a : Address) : TransactionPool.noncesOf c { t with txPool := rest } a
      ⊆ t.noncesOf c a := by
    rintro n ⟨ti', hti', haddr, hn⟩
    exact ⟨ti', by rw [hsplit]; exact List.mem_append_left _ hti', haddr, hn⟩
  -- A nonce of the pool is the popped one's or one of the rest.
  have hsplit' {a : Address} {n : UInt64} (hn : n ∈ t.noncesOf c a)
      (hne : ti.address c = a → ti.tx.base.nonce ≠ n) :
      n ∈ TransactionPool.noncesOf c { t with txPool := rest } a := by
    rcases hn with ⟨ti', hti', haddr, hn⟩
    rw [hsplit] at hti'
    rcases List.mem_append.1 hti' with hti' | hti'
    · exact ⟨ti', hti', haddr, hn⟩
    · rw [List.mem_singleton.1 hti'] at haddr hn
      exact absurd hn (hne haddr)
  have hold (a : Address) := ht a
  rw [indexed_iff_at (ti.address c)]
  · rw [getNonce_deleteNonceData, noncesOf_congr (txPool_deleteNonceData _ _ _),
      getNonce_withPool]
    by_cases hget : t.getNonceByAddress (ti.address c) = some ti.tx.base.nonce
    · rw [if_pos ⟨rfl, hget⟩]
      have hgreatest := (hold _).eq_some_iff.1 hget
      constructor
      · intro hempty rest' ti' hsplit₁ _ other hother haddr
        rw [hsplit] at hsplit₁
        rcases List.append_inj' hsplit₁ rfl with ⟨rfl, hlast⟩
        cases hlast
        have hmem : other.tx.base.nonce ∈
            TransactionPool.noncesOf c { t with txPool := rest } (ti.address c) :=
          ⟨other, hother, haddr, rfl⟩
        rw [show _ = (∅ : Set UInt64) from hempty] at hmem
        exact hmem
      · intro hbenign
        refine Set.eq_empty_iff_forall_notMem.2 ?_
        rintro n ⟨other, hother, haddr, -⟩
        exact hbenign rest ti hsplit hgreatest other hother haddr
    · rw [if_neg (fun h => hget h.2)]
      constructor
      · intro _ rest' ti' hsplit₁ hgreatest
        rw [hsplit] at hsplit₁
        rcases List.append_inj' hsplit₁ rfl with ⟨rfl, hlast⟩
        cases hlast
        exact absurd ((hold _).eq_some_iff.2 hgreatest) hget
      · intro _
        refine (tracks_subset_iff (hold _) (hrest _)).2 (fun m hm => ?_)
        refine hsplit' ((hold _).eq_some_iff.1 hm).1 (fun _ hn => hget ?_)
        rw [hm, hn]
  · intro a ha
    rw [getNonce_deleteNonceData, noncesOf_congr (txPool_deleteNonceData _ _ _),
      getNonce_withPool, if_neg (fun h => ha h.1.symm)]
    refine (tracks_subset_iff (hold a) (hrest a)).2 (fun m hm => ?_)
    exact hsplit' ((hold a).eq_some_iff.1 hm).1 (fun haddr => absurd haddr.symm ha)

theorem indexed_remove_iff {tx : Transaction} {txHash : Hash} (ht : t.Indexed c)
    (hdistinct : DistinctHashes t.txPool) (h : t.perform c (.remove tx txHash) = .ok t') :
    t'.Indexed c ↔ t.Benign c (.remove tx txHash) := by
  simp only [TransactionPool.perform] at h
  rcases map_eq_ok.1 h with ⟨⟨found, t₁⟩, hcall, rfl⟩
  unfold TransactionPool.remove at hcall
  by_cases hfound : ∃ ti ∈ t.txPool, ti.txHash = txHash
  · -- The entry goes and the index stays.
    rw [if_pos hfound] at hcall
    cases hcall
    have hset (a : Address) : TransactionPool.noncesOf c
        { t with txPool := TransactionPool.removeHash t.txPool txHash } a
          = {n | ∃ ti ∈ t.txPool, ti.txHash ≠ txHash ∧ ti.address c = a ∧ ti.tx.base.nonce = n} := by
      unfold TransactionPool.noncesOf
      rw [removeHash_eq_filter hdistinct]
      ext n
      simp only [List.mem_filter, decide_eq_true_eq, Set.mem_ofPred_eq, and_assoc]
    have htracks (a : Address) : Tracks (TransactionPool.noncesOf c
        { t with txPool := TransactionPool.removeHash t.txPool txHash } a)
        (t.getNonceByAddress a) ↔ ∀ m, t.getNonceByAddress a = some m → ∃ ti ∈ t.txPool,
          ti.txHash ≠ txHash ∧ ti.address c = a ∧ ti.tx.base.nonce = m := by
      rw [hset]
      refine tracks_subset_iff (ht a) ?_
      rintro n ⟨ti, hti, -, haddr, hn⟩
      exact ⟨ti, hti, haddr, hn⟩
    constructor
    · intro hindexed
      refine ⟨fun ti hti hhash => ?_, fun hnone => ?_⟩
      · -- The largest nonce of the sender is another's.
        cases hget : t.getNonceByAddress (ti.address c) with
        | none =>
          have hempty := ht (ti.address c)
          rw [hget] at hempty
          have hmem : ti.tx.base.nonce ∈ t.noncesOf c (ti.address c) := ⟨ti, hti, rfl, rfl⟩
          rw [show t.noncesOf c (ti.address c) = ∅ from hempty] at hmem
          exact absurd hmem (Set.notMem_empty _)
        | some m =>
          rcases (htracks _).1 (hindexed _) m hget with ⟨other, hother, hne, haddr, hm⟩
          refine ⟨other, hother, hne, haddr, ?_⟩
          rw [hm]
          exact ((ht _).eq_some_iff.1 hget).2 ⟨ti, hti, rfl, rfl⟩
      · rcases hfound with ⟨ti, hti, hhash⟩
        exact absurd hhash (hnone ti hti)
    · rintro ⟨hother, -⟩ a
      refine (htracks a).2 (fun m hm => ?_)
      have hgreatest := (ht a).eq_some_iff.1 hm
      rcases hgreatest.1 with ⟨ti, hti, haddr, hn⟩
      by_cases hhash : ti.txHash = txHash
      · rcases hother ti hti hhash with ⟨other, hmem, hne, hsame, hle⟩
        have hle' := hgreatest.2 ⟨other, hmem, hsame.trans haddr, rfl⟩
        rw [hn] at hle
        exact ⟨other, hmem, hne, hsame.trans haddr, UInt64.le_antisymm hle' hle⟩
      · exact ⟨ti, hti, hhash, haddr, hn⟩
  · -- The entry was not there and the index loses its nonce.
    rw [if_neg hfound] at hcall
    have hnone : ∀ ti ∈ t.txPool, ti.txHash ≠ txHash := fun ti hti h => hfound ⟨ti, hti, h⟩
    have hbenign : t.Benign c (.remove tx txHash) ↔
        t.getNonceByAddress (c.getAddressFromUnSizedPK tx.base.pk) ≠ some tx.base.nonce := by
      rw [ne_eq, (ht _).eq_some_iff]
      exact ⟨fun h => h.2 hnone, fun h => ⟨fun ti hti heq => absurd heq (hnone ti hti), fun _ => h⟩⟩
    split at hcall
    · cases hcall
    · cases hcall
      rw [hbenign, indexed_iff_at (c.getAddressFromUnSizedPK tx.base.pk)]
      · rw [getNonce_deleteNonceData, noncesOf_congr (txPool_deleteNonceData _ _ _)]
        by_cases hget : t.getNonceByAddress (c.getAddressFromUnSizedPK tx.base.pk)
            = some tx.base.nonce
        · rw [if_pos ⟨rfl, hget⟩]
          refine ⟨fun hempty => ?_, fun hne => absurd hget hne⟩
          have hmem := ((ht _).eq_some_iff.1 hget).1
          rw [show t.noncesOf c _ = ∅ from hempty] at hmem
          exact absurd hmem (Set.notMem_empty _)
        · rw [if_neg (fun h => hget h.2)]
          exact ⟨fun _ => hget, fun _ => ht _⟩
      · intro a ha
        rw [getNonce_deleteNonceData, noncesOf_congr (txPool_deleteNonceData _ _ _),
          if_neg (fun h => ha h.1.symm)]
        exact ht a

theorem indexed_removeTxInBlock_iff {txs : List Transaction} (ht : t.Indexed c)
    (hdistinct : DistinctHashes t.txPool) (h : t.perform c (.removeTxInBlock txs) = .ok t') :
    t'.Indexed c ↔ t.Benign c (.removeTxInBlock txs) := by
  simp only [TransactionPool.perform, TransactionPool.removeTxInBlock] at h
  rcases bind_eq_ok.1 h with ⟨queue, hqueue, h⟩
  cases h
  refine forall_congr' (fun a => ?_)
  rw [getNonce_foldl_deleteNonceData, noncesOf_congr (txPool_foldl_deleteNonceData _ _)]
  have hset : TransactionPool.noncesOf c { t with txPool := queue } a = {n | ∃ ti ∈ t.txPool,
      ti.address c = a ∧ ti.tx.base.nonce = n ∧ ∀ tx ∈ txs, tx.hash ≠ .ok ti.txHash} := by
    ext n
    constructor
    · rintro ⟨ti, hti, haddr, hn⟩
      rcases (mem_removeHashes hdistinct hqueue ti).1 hti with ⟨hti, hkept⟩
      exact ⟨ti, hti, haddr, hn, hkept⟩
    · rintro ⟨ti, hti, haddr, hn, hkept⟩
      exact ⟨ti, (mem_removeHashes hdistinct hqueue ti).2 ⟨hti, hkept⟩, haddr, hn⟩
  have hsub : TransactionPool.noncesOf c { t with txPool := queue } a ⊆ t.noncesOf c a := by
    rw [hset]
    rintro n ⟨ti, hti, haddr, hn, -⟩
    exact ⟨ti, hti, haddr, hn⟩
  rw [getNonce_withPool]
  cases hget : t.getNonceByAddress a with
  | none =>
    -- A sender without transactions in the pool.
    have hempty := ht a
    rw [hget] at hempty
    have hunnamed : ¬∃ tx ∈ txs, c.getAddressFromUnSizedPK tx.base.pk = a ∧
        none = some tx.base.nonce := by
      rintro ⟨_, _, _, hnone⟩
      cases hnone
    rw [if_neg hunnamed]
    refine ⟨fun _ m hm => ?_, fun _ => ?_⟩
    · rw [show t.noncesOf c a = ∅ from hempty] at hm
      exact absurd hm.1 (Set.notMem_empty m)
    · rw [show t.noncesOf c a = ∅ from hempty] at hsub
      exact Set.subset_empty_iff.1 hsub
  | some k =>
    have hgreatest := (ht a).eq_some_iff.1 hget
    have honly {m : UInt64} (hm : IsGreatest (t.noncesOf c a) m) : m = k := by
      have hsame := (ht a).eq_some_iff.2 hm
      rw [hget] at hsame
      exact (Option.some.inj hsame).symm
    by_cases hdropped : ∃ tx ∈ txs, c.getAddressFromUnSizedPK tx.base.pk = a ∧
        some k = some tx.base.nonce
    · rw [if_pos hdropped]
      rcases hdropped with ⟨tx, htx, haddr, hk⟩
      have hnamed : ∃ tx ∈ txs, c.getAddressFromUnSizedPK tx.base.pk = a ∧ tx.base.nonce = k :=
        ⟨tx, htx, haddr, (Option.some.inj hk).symm⟩
      constructor
      · intro hempty m hm
        cases honly hm
        refine ⟨fun _ ti hti hsame => ?_, fun hnot => absurd hnamed hnot⟩
        by_contra hkept
        have hmem : ti.tx.base.nonce ∈ TransactionPool.noncesOf c { t with txPool := queue } a := by
          rw [hset]
          exact ⟨ti, hti, hsame, rfl, fun tx htx hhash => hkept ⟨tx, htx, hhash⟩⟩
        rw [show _ = (∅ : Set UInt64) from hempty] at hmem
        exact hmem
      · intro hbenign
        refine Set.eq_empty_iff_forall_notMem.2 (fun n hn => ?_)
        rw [hset] at hn
        rcases hn with ⟨ti, hti, hsame, -, hkept⟩
        rcases (hbenign k hgreatest).1 hnamed ti hti hsame with ⟨tx', htx', hhash⟩
        exact hkept tx' htx' hhash
    · rw [if_neg hdropped]
      have hunnamed : ¬∃ tx ∈ txs, c.getAddressFromUnSizedPK tx.base.pk = a ∧
          tx.base.nonce = k := by
        rintro ⟨tx, htx, haddr, hk⟩
        exact hdropped ⟨tx, htx, haddr, by rw [hk]⟩
      have htracks := tracks_subset_iff (ht a) hsub
      rw [hget] at htracks
      rw [htracks, hset]
      constructor
      · intro hkept m hm
        cases honly hm
        exact ⟨fun hnamed => absurd hnamed hunnamed, fun _ => hkept k rfl⟩
      · intro hbenign m hm
        cases hm
        exact (hbenign k hgreatest).2 hunnamed

theorem indexed_perform_iff {op : PoolOp} (ht : t.Indexed c)
    (hdistinct : DistinctHashes t.txPool) (h : t.perform c op = .ok t') :
    t'.Indexed c ↔ t.Benign c op := by
  cases op with
  | add tx txHash slotNumber timestamp time =>
    refine ⟨fun _ => trivial, fun _ => ?_⟩
    simp only [TransactionPool.perform] at h
    split at h
    · cases h
      exact ht
    · exact (indexed_add ht h).1
  | pop => exact indexed_pop_iff ht h
  | remove tx txHash => exact indexed_remove_iff ht hdistinct h
  | removeTxInBlock txs => exact indexed_removeTxInBlock_iff ht hdistinct h
  | addTxFromBlock txs height time =>
    refine ⟨fun _ => trivial, fun _ => ?_⟩
    simp only [TransactionPool.perform] at h
    rcases map_eq_ok.1 h with ⟨⟨t₁, e⟩, hcall, rfl⟩
    refine @addTxFromBlock_invariant c t t₁ time (TransactionPool.Indexed c) txs height e
      (fun tx _ txHash t t' _ ht hok => ?_) ht hcall
    rcases indexed_add ht hok with ⟨hindexed, hmem⟩
    exact indexed_addNonceData hindexed hmem

end Taking

/-- The nonce index of the pool. In every pool that benign calls lead to, it has a nonce for
    exactly the senders with transactions in the pool, and the largest of theirs. Any call on
    such a pool leaves the index right exactly when it is benign. -/
theorem nonce_index_kept (c : Crypto) (t : TransactionPool)
    (h : PoolReached c (TransactionPool.Benign c) t) :
    (∀ a, (t.getNonceByAddress a ≠ none ↔ ∃ ti ∈ t.txPool, ti.address c = a) ∧
      ∀ m, t.getNonceByAddress a = some m → IsGreatest (t.noncesOf c a) m) ∧
    ∀ op t', t.perform c op = .ok t' → (t'.Indexed c ↔ t.Benign c op) := by
  have hindexed : t.Indexed c := by
    induction h with
    | fresh =>
      refine fun a => Set.eq_empty_iff_forall_notMem.2 ?_
      rintro n ⟨ti, hti, -⟩
      cases hti
    | @step t t' op hreach hbenign hstep ih =>
      exact (indexed_perform_iff ih (distinctHashes_reached hreach) hstep).2 hbenign
  refine ⟨fun a => ⟨?_, fun m hm => (hindexed a).eq_some_iff.1 hm⟩,
    fun op t' hstep => indexed_perform_iff hindexed (distinctHashes_reached h) hstep⟩
  have ha := hindexed a
  cases hget : t.getNonceByAddress a with
  | none =>
    rw [hget] at ha
    refine ⟨fun hne => absurd rfl hne, ?_⟩
    rintro ⟨ti, hti, haddr⟩
    have hmem : ti.tx.base.nonce ∈ t.noncesOf c a := ⟨ti, hti, haddr, rfl⟩
    rw [show t.noncesOf c a = ∅ from ha] at hmem
    exact absurd hmem (Set.notMem_empty _)
  | some m =>
    rcases ((hindexed a).eq_some_iff.1 hget).1 with ⟨ti, hti, haddr, -⟩
    exact ⟨fun _ => ⟨ti, hti, haddr⟩, fun _ hnone => (nomatch hnone)⟩

def toyTwoPooled : Go (Hash × TransactionPool) := do
  let first ← (toyStakeTx 2 0 1).hash
  let second ← (toyStakeTx 2 0 2).hash
  let t ← createTransactionPool.add toyCrypto (toyStakeTx 2 0 1) first 0 1 1
  let t ← t.add toyCrypto (toyStakeTx 2 0 2) second 0 1 1
  pure (first, t)

theorem toyTwoPooled_reached {first : Hash} {t : TransactionPool}
    {P : TransactionPool → PoolOp → Prop}
    (hP : ∀ t tx txHash slotNumber timestamp time, P t (.add tx txHash slotNumber timestamp time))
    (h : toyTwoPooled = .ok (first, t)) : PoolReached toyCrypto P t := by
  rcases bind_eq_ok.1 h with ⟨_, -, h⟩
  rcases bind_eq_ok.1 h with ⟨second, -, h⟩
  rcases bind_eq_ok.1 h with ⟨t₁, hadd₁, h⟩
  rcases bind_eq_ok.1 h with ⟨_, hadd₂, h⟩
  cases h
  have hstep₁ : createTransactionPool.perform toyCrypto (.add (toyStakeTx 2 0 1) first 0 1 1)
      = .ok t₁ := by
    simp only [TransactionPool.perform, hadd₁]
  have hstep₂ : t₁.perform toyCrypto (.add (toyStakeTx 2 0 2) second 0 1 1) = .ok t := by
    simp only [TransactionPool.perform, hadd₂]
  exact .step (.step .fresh (hP _ _ _ _ _ _) hstep₁) (hP _ _ _ _ _ _) hstep₂

theorem toyTwoPooled_kept : ∃ t, PoolReached toyCrypto (TransactionPool.Benign toyCrypto) t ∧
    t.txPool.length = 1 ∧ t.getNonceByAddress (toyAddress 2) = some 2 ∧
    IsGreatest (t.noncesOf toyCrypto (toyAddress 2)) 2 := by
  have hcheck : (toyTwoPooled >>= fun p =>
      p.2.perform toyCrypto (.remove (toyStakeTx 2 0 1) p.1) >>= fun t' =>
      pure (decide ((∃ ti ∈ p.2.txPool, ti.txHash = p.1) ∧ (∀ ti ∈ p.2.txPool, ti.txHash = p.1 →
        ∃ other ∈ p.2.txPool, other.txHash ≠ p.1 ∧
          other.address toyCrypto = ti.address toyCrypto ∧
          ti.tx.base.nonce ≤ other.tx.base.nonce) ∧
        t'.txPool.length = 1 ∧ t'.getNonceByAddress (toyAddress 2) = some 2))) = .ok true := by
    decide +kernel
  rcases bind_eq_ok.1 hcheck with ⟨⟨first, t⟩, htwo, hcheck⟩
  rcases bind_eq_ok.1 hcheck with ⟨t', hremove, hcheck⟩
  rw [pure_eq_ok, decide_eq_true_eq] at hcheck
  rcases hcheck with ⟨⟨ti, hti, hfirst⟩, hother, hlength, hnonce⟩
  have hbenign : t.Benign toyCrypto (.remove (toyStakeTx 2 0 1) first) :=
    ⟨hother, fun hnone => absurd hfirst (hnone ti hti)⟩
  have hreached : PoolReached toyCrypto (TransactionPool.Benign toyCrypto) t' :=
    .step (toyTwoPooled_reached (fun _ _ _ _ _ _ => trivial) htwo) hbenign hremove
  exact ⟨t', hreached, hlength, hnonce,
    ((nonce_index_kept toyCrypto t' hreached).1 (toyAddress 2)).2 2 hnonce⟩

/-- Of the two, the one with the larger nonce is popped. The sender has a transaction in the
    pool and no nonce. -/
theorem toyTwoPooled_dropped : ∃ t t', PoolReached toyCrypto (fun _ _ => True) t ∧
    t.perform toyCrypto .pop = .ok t' ∧
    (∃ ti ∈ t'.txPool, ti.address toyCrypto = toyAddress 2 ∧ ti.tx.base.nonce = 1) ∧
    t'.getNonceByAddress (toyAddress 2) = none := by
  have hcheck : (toyTwoPooled >>= fun p => p.2.perform toyCrypto .pop >>= fun t' =>
      pure (decide ((∃ ti ∈ t'.txPool, ti.address toyCrypto = toyAddress 2 ∧
          ti.tx.base.nonce = 1) ∧
        t'.getNonceByAddress (toyAddress 2) = none))) = .ok true := by
    decide +kernel
  rcases bind_eq_ok.1 hcheck with ⟨⟨first, t⟩, htwo, hcheck⟩
  rcases bind_eq_ok.1 hcheck with ⟨t', hpop, hcheck⟩
  rw [pure_eq_ok, decide_eq_true_eq] at hcheck
  exact ⟨t, t', toyTwoPooled_reached (fun _ _ _ _ _ _ => trivial) htwo, hpop, hcheck⟩

end Zond
