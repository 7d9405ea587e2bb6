import Zond.Core.Producer
import Zond.Core.Validate
import Zond.Theory.PoolCalls

/-!
# Admission to the Pool

The pool counts as full only when it has more transactions than `TransactionPoolSize`, so it
comes to hold one more than that.

## Main definitions

* `Clashes`: The pool has the hash, or the key index of an XMSS key.

## Theorems

* `pool_admission`: Which transactions `Add` takes, in every pool that calls lead to.
-/

namespace Zond

open Outcome

variable {c : Crypto}

/-- Some state accepts the transaction. -/
def Transaction.Validated (c : Crypto) (tx : Transaction) : Prop :=
  ∃ s s', validateTransaction c s tx = .ok s'

/-- The test of `Push` for an XMSS key: by the address that the key has. -/
def Transaction.SignsXMSS (c : Crypto) (tx : Transaction) : Prop :=
  c.isValidXMSSAddress (c.getAddressFromUnSizedPK tx.base.pk) = true

/-- A Dilithium key does not have an XMSS address: the first bytes of an address name its
    scheme. -/
def Crypto.SchemesApart (c : Crypto) : Prop :=
  ∀ pk, c.isValidXMSSAddress (c.getDilithiumAddressFromPK pk) = false

namespace TransactionPool

/-- The pool has a transaction with the hash or, for an XMSS key, one with the same key and
    key index. -/
def Clashes (c : Crypto) (t : TransactionPool) (tx : Transaction) (txHash : Hash) : Prop :=
  ∃ ti ∈ t.txPool, ti.txHash = txHash ∨ (tx.SignsXMSS c ∧ ti.tx.base.pk = tx.base.pk ∧
    ∃ i, ti.tx.base.otsIndex = .ok i ∧ tx.base.otsIndex = .ok i)

/-- The pool has a transaction with the same XMSS key, and one of the two signatures is too
    short to have a key index. -/
def Unreadable (c : Crypto) (t : TransactionPool) (tx : Transaction) : Prop :=
  ∃ ti ∈ t.txPool, tx.SignsXMSS c ∧ ti.tx.base.pk = tx.base.pk ∧
    ∀ i j, ¬(ti.tx.base.otsIndex = .ok i ∧ tx.base.otsIndex = .ok j)

/-- The calls that leave the pool within its size: nothing is added when the pool has as many
    transactions as the size, unless it is refused for another reason. -/
def HasRoom (c : Crypto) (t : TransactionPool) : PoolOp → Prop
  | .add tx txHash _ _ _ => t.txPool.length = Config.transactionPoolSize →
      t.Clashes c tx txHash ∨ t.Unreadable c tx
  | .addTxFromBlock txs _ _ => t.txPool.length + txs.length ≤ Config.transactionPoolSize
  | _ => True

end TransactionPool

section Adding

variable {t t' : TransactionPool} {tx : Transaction} {txHash : Hash}
variable {slotNumber timestamp time : UInt64}

theorem addrFrom_of_ok {addr : Address} (h : tx.addrFrom c = .ok addr) :
    c.getAddressFromUnSizedPK tx.base.pk = addr := by
  cases tx with
  | transfer | stake => exact (TxBase.addrFrom_eq_ok.1 h).1
  | unknown tx => cases h

theorem checkClash_eq_ok {isValidXMSS : Bool} {newTi ti : TransactionInfo} :
    newTi.checkClash isValidXMSS ti = .ok () ↔ ti.txHash ≠ newTi.txHash ∧
      (isValidXMSS = true → ti.tx.base.pk = newTi.tx.base.pk →
        ∃ i j, ti.tx.base.otsIndex = .ok i ∧ newTi.tx.base.otsIndex = .ok j ∧ i ≠ j) := by
  unfold TransactionInfo.checkClash
  rw [errorIf_bind_eq_ok]
  refine and_congr_right (fun _ => ?_)
  by_cases hsame : isValidXMSS = true ∧ ti.tx.base.pk = newTi.tx.base.pk
  · rw [if_pos hsame]
    constructor
    · intro h _ _
      rcases bind_eq_ok.1 h with ⟨i, hi, h⟩
      rcases bind_eq_ok.1 h with ⟨j, hj, h⟩
      exact ⟨i, j, hi, hj, errorIf_eq_ok.1 h⟩
    · intro h
      rcases h hsame.1 hsame.2 with ⟨i, j, hi, hj, hne⟩
      rw [hi, hj]
      exact errorIf_eq_ok.2 hne
  · rw [if_neg hsame]
    exact ⟨fun _ hxmss hpk => absurd ⟨hxmss, hpk⟩ hsame, fun _ => rfl⟩

theorem exists_add_iff {addr : Address} (haddr : tx.addrFrom c = .ok addr) :
    (∃ t', t.add c tx txHash slotNumber timestamp time = .ok t') ↔
      t.txPool.length ≤ Config.transactionPoolSize ∧ ¬t.Clashes c tx txHash ∧
        ¬t.Unreadable c tx := by
  have hkey := addrFrom_of_ok haddr
  constructor
  · rintro ⟨t', h⟩
    rcases add_of_ok h with ⟨hroom, ⟨addr', haddr', hpass⟩, -⟩
    rw [haddr] at haddr'
    cases haddr'
    refine ⟨hroom, ?_, ?_⟩
    · rintro ⟨ti, hti, hclash⟩
      rcases checkClash_eq_ok.1 (hpass ti hti) with ⟨hhash, hindex⟩
      rcases hclash with heq | ⟨hxmss, hpk, k, hk, hk'⟩
      · exact hhash heq
      · unfold Transaction.SignsXMSS at hxmss
        rw [hkey] at hxmss
        rcases hindex hxmss hpk with ⟨i, j, hi, hj, hne⟩
        change tx.base.otsIndex = .ok j at hj
        rw [hk] at hi
        rw [hk'] at hj
        cases hi
        cases hj
        exact hne rfl
    · rintro ⟨ti, hti, hxmss, hpk, hread⟩
      unfold Transaction.SignsXMSS at hxmss
      rw [hkey] at hxmss
      rcases (checkClash_eq_ok.1 (hpass ti hti)).2 hxmss hpk with ⟨i, j, hi, hj, -⟩
      exact hread i j ⟨hi, hj⟩
  · rintro ⟨hroom, hclash, hread⟩
    have hpass : t.txPool.forM ((newInfo tx txHash slotNumber timestamp time).checkClash
        (c.isValidXMSSAddress addr)) = .ok () := by
      refine forM_eq_ok.2 (fun ti hti => checkClash_eq_ok.2 ⟨?_, fun hxmss hpk => ?_⟩)
      · exact fun heq => hclash ⟨ti, hti, .inl heq⟩
      · have hsigns : tx.SignsXMSS c := by
          unfold Transaction.SignsXMSS
          rw [hkey]
          exact hxmss
        by_contra hnone
        refine hread ⟨ti, hti, hsigns, hpk, fun i j h => hnone ⟨i, j, h.1, h.2, ?_⟩⟩
        rintro rfl
        exact hclash ⟨ti, hti, .inr ⟨hsigns, hpk, i, h⟩⟩
    refine ⟨{ t with txPool := t.txPool ++ [newInfo tx txHash slotNumber timestamp time]
      }.addNonceData c tx.base.pk tx.base.nonce, ?_⟩
    unfold TransactionPool.add
    refine errorIf_bind_eq_ok.2 ⟨Nat.not_lt.2 hroom, bind_eq_ok.2 ⟨_, ?_, rfl⟩⟩
    unfold TransactionPool.push
    exact bind_eq_ok.2 ⟨addr, haddr, bind_eq_ok.2 ⟨(), hpass, rfl⟩⟩

/-- An error of `Add` has one of two reasons. -/
theorem failsOnly_add {addr : Address} (haddr : tx.addrFrom c = .ok addr) :
    FailsOnly (fun f => f.Returned →
        Config.transactionPoolSize < t.txPool.length ∨ t.Clashes c tx txHash)
      (t.add c tx txHash slotNumber timestamp time) := by
  -- A key index that cannot be read is a panic.
  have hots {P : Prop} (tx : TxBase) : FailsOnly (fun f => f.Returned → P) tx.otsIndex := by
    unfold TxBase.otsIndex
    split
    · exact failsOnly_ok _
    · exact failsOnly_error_iff.2 (fun ⟨_, he⟩ => (nomatch he))
  unfold TransactionPool.add TransactionPool.push
  refine (failsOnly_failIf fun hfull _ => .inl hfull).bind fun _ _ => ?_
  refine FailsOnly.bind ?_ fun _ _ => failsOnly_pure _
  rw [haddr, ok_bind]
  refine (failsOnly_forM fun ti hti => ?_).bind fun _ _ => failsOnly_pure _
  refine (failsOnly_failIf fun heq _ => .inr ⟨ti, hti, .inl heq⟩).bind fun _ _ => ?_
  by_cases hsame : c.isValidXMSSAddress addr = true ∧ ti.tx.base.pk = tx.base.pk
  · have hxmss : tx.SignsXMSS c :=
      (congrArg c.isValidXMSSAddress (addrFrom_of_ok haddr)).trans hsame.1
    rw [if_pos hsame]
    refine (hots _).bind fun i hi => (hots _).bind fun j hj => ?_
    refine failsOnly_failIf fun heq _ => ?_
    exact .inr ⟨ti, hti, .inr ⟨hxmss, hsame.2, i, hi, heq ▸ hj⟩⟩
  · rw [if_neg hsame]
    exact failsOnly_pure _

theorem length_add (h : t.add c tx txHash slotNumber timestamp time = .ok t') :
    t'.txPool.length = t.txPool.length + 1 := by
  rcases add_of_ok h with ⟨-, -, rfl⟩
  rw [txPool_addNonceData, List.length_append, List.length_singleton]

theorem length_addTxFromBlock {txs : List Transaction} {height : UInt64} {e : Option Err}
    (h : TransactionPool.addTxFromBlock c height time txs t = .ok (t', e)) :
    t'.txPool.length ≤ t.txPool.length + txs.length := by
  induction txs generalizing t with
  | nil =>
    cases h
    exact Nat.le_add_right _ _
  | cons tx txs ih =>
    unfold TransactionPool.addTxFromBlock at h
    rcases bind_eq_ok.1 h with ⟨txHash, -, h⟩
    split at h
    · rename_i t₁ hok
      have hrest := ih h
      rw [txPool_addNonceData, length_add hok] at hrest
      rw [List.length_cons]
      omega
    · cases h
      exact Nat.le_add_right _ _
    · cases h

end Adding

section Reached

variable {P : TransactionPool → PoolOp → Prop} {t t' : TransactionPool}

/-- No two entries with one XMSS key have one key index. -/
def DistinctKeys (c : Crypto) (queue : List TransactionInfo) : Prop :=
  queue.Pairwise (fun ti ti' => ti'.tx.SignsXMSS c → ti.tx.base.pk = ti'.tx.base.pk →
    ti.tx.base.otsIndex ≠ ti'.tx.base.otsIndex)

theorem distinctKeys_add {tx : Transaction} {txHash : Hash} {slotNumber timestamp time : UInt64}
    (ht : DistinctKeys c t.txPool) (h : t.add c tx txHash slotNumber timestamp time = .ok t') :
    DistinctKeys c t'.txPool := by
  rcases add_of_ok h with ⟨-, ⟨addr, haddr, hpass⟩, rfl⟩
  rw [txPool_addNonceData]
  refine List.pairwise_append.2 ⟨ht, List.pairwise_singleton _ _, fun ti hti ti' hti' => ?_⟩
  rw [List.mem_singleton.1 hti']
  intro hxmss hpk heq
  change c.isValidXMSSAddress (c.getAddressFromUnSizedPK tx.base.pk) = true at hxmss
  rw [addrFrom_of_ok haddr] at hxmss
  rcases (checkClash_eq_ok.1 (hpass ti hti)).2 hxmss hpk with ⟨i, j, hi, hj, hne⟩
  rw [hi, hj] at heq
  exact hne (Except.ok.inj heq)

theorem distinctKeys_reached (h : PoolReached c P t) : DistinctKeys c t.txPool :=
  queue_reached List.Pairwise.nil (fun _ _ hsub hl => hl.sublist hsub)
    (fun _ _ _ _ _ _ _ _ _ _ _ ht hok => distinctKeys_add ht hok) h

theorem length_reached (h : PoolReached c P t) :
    t.txPool.length ≤ Config.transactionPoolSize + 1 := by
  refine @queue_reached c P t (fun queue => queue.length ≤ Config.transactionPoolSize + 1)
    (Nat.zero_le _) (fun _ _ hsub hl => Nat.le_trans hsub.length_le hl) ?_ h
  intro _ _ _ _ _ _ t _ _ _ t' _ hok
  rw [length_add hok]
  exact Nat.add_le_add_right (add_of_ok hok).1 1

theorem length_step_of_hasRoom {op : PoolOp} (hroom : t.HasRoom c op)
    (ht : t.txPool.length ≤ Config.transactionPoolSize) (h : t.perform c op = .ok t') :
    t'.txPool.length ≤ Config.transactionPoolSize := by
  -- Calls that only take away need no room.
  have htaking (hnone : ∀ tx txHash, ¬op.Adds tx txHash) :
      t'.txPool.length ≤ Config.transactionPoolSize :=
    @queue_step c t t' (fun queue => queue.length ≤ Config.transactionPoolSize) op
      (fun _ _ hsub hl => Nat.le_trans hsub.length_le hl)
      (fun tx txHash hadds => absurd hadds (hnone tx txHash)) ht h
  cases op with
  | add tx txHash slotNumber timestamp time =>
    simp only [TransactionPool.perform] at h
    split at h
    · cases h
      exact ht
    · rw [length_add h]
      rcases add_of_ok h with ⟨-, ⟨addr, haddr, -⟩, -⟩
      have hpassed := (exists_add_iff haddr).1 ⟨t', h⟩
      have hne : t.txPool.length ≠ Config.transactionPoolSize := by
        intro hfull
        rcases hroom hfull with hclash | hread
        · exact hpassed.2.1 hclash
        · exact hpassed.2.2 hread
      omega
  | pop | remove | removeTxInBlock => exact htaking (fun _ _ hadds => hadds)
  | addTxFromBlock txs height time =>
    simp only [TransactionPool.perform] at h
    rcases map_eq_ok.1 h with ⟨⟨t₁, e⟩, hcall, rfl⟩
    exact Nat.le_trans (length_addTxFromBlock hcall) hroom

theorem length_reached_of_hasRoom (h : PoolReached c (TransactionPool.HasRoom c) t) :
    t.txPool.length ≤ Config.transactionPoolSize := by
  induction h with
  | fresh => exact Nat.zero_le _
  | step _ hroom hstep ih => exact length_step_of_hasRoom hroom ih hstep

end Reached

section Validated

variable {tx : Transaction}

theorem Transaction.Validated.addrFrom (h : tx.Validated c) : ∃ addr, tx.addrFrom c = .ok addr := by
  rcases h with ⟨s, s', h⟩
  cases tx with
  | transfer tx =>
    rcases (validateTransferTxn_eq_ok c).1 h with ⟨addr, haccepted, -⟩
    exact ⟨addr, haccepted.sender⟩
  | stake tx =>
    rcases (validateStakeTxn_eq_ok c).1 h with ⟨addr, haccepted, -⟩
    exact ⟨addr, haccepted.sender⟩
  | unknown tx => cases h

theorem Transaction.Validated.otsIndex (hc : c.SchemesApart) (h : tx.Validated c)
    (hxmss : tx.SignsXMSS c) : ∃ i, tx.base.otsIndex = .ok i := by
  have hsize : tx.base.pk.length ≠ Config.dilithiumPKSize := by
    intro hsize
    unfold Transaction.SignsXMSS at hxmss
    rw [c.getAddressFromUnSizedPK_of_dilithium hsize] at hxmss
    exact Bool.false_ne_true ((hc _).symm.trans hxmss)
  rcases h with ⟨s, s', h⟩
  cases tx with
  | transfer tx =>
    rcases (validateTransferTxn_eq_ok c).1 h with ⟨addr, haccepted, -⟩
    have hpk : tx.pk.length = Config.xmssExtendedPKSize := by
      -- A key of neither size has the zero address, which has no sender.
      by_contra hne
      rcases TxBase.addrFrom_eq_ok.1 haccepted.sender with ⟨hkey, hzero⟩
      unfold Crypto.getAddressFromUnSizedPK at hkey
      rw [if_neg hne, if_neg (show ¬tx.pk.length = _ from hsize)] at hkey
      exact hzero hkey.symm
    have hots := haccepted.ots
    unfold checkOTSIndex at hots
    rw [if_pos hpk] at hots
    rcases bind_eq_ok.1 hots with ⟨i, hi, -⟩
    exact ⟨i, hi⟩
  | stake tx =>
    rcases (validateStakeTxn_eq_ok c).1 h with ⟨addr, haccepted, -⟩
    exact absurd haccepted.pkSize hsize
  | unknown tx => cases h

theorem not_unreadable {t : TransactionPool} (hc : c.SchemesApart)
    (ht : PoolReached c (fun _ op => ∀ tx txHash, op.Adds tx txHash → tx.Validated c) t)
    (h : tx.Validated c) : ¬t.Unreadable c tx := by
  have hall : ∀ ti ∈ t.txPool, ti.tx.Validated c := by
    refine @queue_reached c _ t (fun queue => ∀ ti ∈ queue, ti.tx.Validated c)
      (fun _ hti => (nomatch hti)) (fun _ _ hsub hl ti hti => hl ti (hsub.subset hti)) ?_ ht
    intro _ op tx txHash hop hadds t _ _ _ t' hl hok ti hti
    rcases add_of_ok hok with ⟨-, -, rfl⟩
    rw [txPool_addNonceData] at hti
    rcases List.mem_append.1 hti with hti | hti
    · exact hl ti hti
    · rw [List.mem_singleton.1 hti]
      exact hop tx txHash hadds
  rintro ⟨ti, hti, hxmss, hpk, hread⟩
  have hxmss' : ti.tx.SignsXMSS c := by
    unfold Transaction.SignsXMSS
    rw [hpk]
    exact hxmss
  rcases Transaction.Validated.otsIndex hc (hall ti hti) hxmss' with ⟨i, hi⟩
  rcases Transaction.Validated.otsIndex hc h hxmss with ⟨j, hj⟩
  exact hread i j ⟨hi, hj⟩

end Validated

/-- Admission to the pool. Take any pool that calls lead to and any transaction that some state
    accepts. `Add` succeeds exactly when the pool has fewer transactions than its size, none
    with the hash and none with the XMSS key and key index, if and only if the pool does not
    have exactly as many transactions as its size, other reasons to refuse apart. On success the
    transaction is all that is added. An error changes nothing and is for one of the two reasons:
    a panic is for a key index that cannot be read. No two entries have one hash
    or one key index of an XMSS key, and there is at most one entry more than the size; runs of
    calls that leave room keep within the size. Key indices can be read where only validated
    transactions are added. -/
theorem pool_admission (c : Crypto) (t : TransactionPool) (h : PoolReached c (fun _ _ => True) t) :
    (∀ tx txHash slotNumber timestamp time, tx.Validated c → tx.hash = .ok txHash →
      ((((∃ t', t.add c tx txHash slotNumber timestamp time = .ok t') ↔
          t.txPool.length < Config.transactionPoolSize ∧ ¬t.Clashes c tx txHash) ↔
        (t.txPool.length = Config.transactionPoolSize →
          t.Clashes c tx txHash ∨ t.Unreadable c tx) ∧
        (t.txPool.length < Config.transactionPoolSize → t.Unreadable c tx →
          t.Clashes c tx txHash)) ∧
      (∀ t', t.add c tx txHash slotNumber timestamp time = .ok t' →
        t'.txPool = t.txPool ++ [newInfo tx txHash slotNumber timestamp time]) ∧
      ∀ e, t.add c tx txHash slotNumber timestamp time = .error (.error e) →
        t.perform c (.add tx txHash slotNumber timestamp time) = .ok t ∧
          (Config.transactionPoolSize < t.txPool.length ∨ t.Clashes c tx txHash))) ∧
    t.txPool.length ≤ Config.transactionPoolSize + 1 ∧ DistinctHashes t.txPool ∧
    DistinctKeys c t.txPool ∧
    (PoolReached c (TransactionPool.HasRoom c) t →
      t.txPool.length ≤ Config.transactionPoolSize) ∧
    (c.SchemesApart →
      PoolReached c (fun _ op => ∀ tx txHash, op.Adds tx txHash → tx.Validated c) t →
      ∀ tx, tx.Validated c → ¬t.Unreadable c tx) := by
  refine ⟨fun tx txHash slotNumber timestamp time hvalid _ => ⟨?_, fun t' hok => ?_, fun e he => ?_⟩,
    length_reached h, distinctHashes_reached h, distinctKeys_reached h, length_reached_of_hasRoom,
    fun hc ht tx htx => not_unreadable hc ht htx⟩
  · rcases hvalid.addrFrom with ⟨addr, haddr⟩
    rw [exists_add_iff haddr]
    by_cases hclash : t.Clashes c tx txHash
    · simp only [hclash, not_true, false_and, and_false, true_or, implies_true, and_self]
    by_cases hread : t.Unreadable c tx
    · -- The call ends in a panic, whatever the room.
      simp only [hclash, hread, not_true, and_false, not_false_eq_true, and_true, or_true,
        implies_true, forall_const, true_and, false_iff, imp_false]
    simp only [hclash, hread, not_false_eq_true, and_true, or_false, imp_false,
      implies_true]
    omega
  · rcases add_of_ok hok with ⟨-, -, rfl⟩
    exact txPool_addNonceData _ _ _
  · rcases hvalid.addrFrom with ⟨addr, haddr⟩
    refine ⟨?_, failsOnly_add haddr _ he ⟨e, rfl⟩⟩
    simp only [TransactionPool.perform, he]

/-- Stand-ins with a hash that keeps the first 32 bytes: those of a transfer are its chain id,
    nonce, gas and gas price. -/
def toyPrefixCrypto : Crypto := { toyCrypto with sha256 := Bytes.alignLeft 32 }

def toyFreeTransfer (nonce : UInt64) : Transfer :=
  (newTransfer 0 [] 0 0 0 [] nonce (toyKey 2).pk).signDilithium toyPrefixCrypto (toyKey 2)

theorem toyFreeTransfer_pk (nonce : UInt64) : (toyFreeTransfer nonce).pk = (toyKey 2).pk := rfl

theorem toyFreeTransfer_validated (nonce : UInt64) :
    (Transaction.transfer (toyFreeTransfer nonce)).Validated toyPrefixCrypto := by
  have hnonce : nonce = ((StateDB.new AssocMap.empty).setNonce (toyAddress 2) nonce).getNonce
      (toyAddress 2) := by
    unfold StateDB.getNonce StateDB.setNonce
    rw [StateDB.account_modify, if_pos rfl]
  have hsize : (toyKey 2).pk.length = Config.dilithiumPKSize := by decide +kernel
  have hsender : (toyFreeTransfer nonce).addrFrom toyPrefixCrypto = .ok (toyAddress 2) := by
    refine TxBase.addrFrom_eq_ok.2 ⟨?_, by decide +kernel⟩
    rw [toyFreeTransfer_pk]
    decide +kernel
  refine ⟨(StateDB.new AssocMap.empty).setNonce (toyAddress 2) nonce, _,
    (validateTransferTxn_eq_ok toyPrefixCrypto).2 ⟨toyAddress 2, ⟨hsender, rfl, hnonce, ?_, ?_,
      by decide +kernel, rfl, by decide +kernel, nofun, Nat.zero_le _, ?_⟩, rfl⟩⟩
  · unfold checkOTSIndex
    rw [toyFreeTransfer_pk, hsize, if_neg (by decide)]
  · exact UInt64.zero_le
  · unfold checkTransferSignature
    rw [toyFreeTransfer_pk, if_pos hsize]
    exact checkSignature_eq_ok.2 rfl

theorem toyFreeTransfer_hash_inj {n m : UInt64}
    (h : (toyFreeTransfer n).hash = (toyFreeTransfer m).hash) : n = m := by
  have hbytes (k : UInt64) : (toyFreeTransfer k).hash.val
      = uint64Bytes 0 ++ uint64Bytes k ++ uint64Bytes 0 ++ uint64Bytes 0 := by
    have hlength : (uint64Bytes 0 ++ uint64Bytes k ++ uint64Bytes 0 ++ uint64Bytes 0).length
        = 32 := by
      simp only [List.length_append, uint64Bytes_length]
    have hsigning : ((newTransfer 0 [] 0 0 0 [] k (toyKey 2).pk).getSigningHash
        toyPrefixCrypto).val = uint64Bytes 0 ++ uint64Bytes k ++ uint64Bytes 0 ++ uint64Bytes 0 :=
      Bytes.val_alignLeft_append hlength ([] ++ (uint64Bytes 0 ++ []))
    have hhash : (toyFreeTransfer k).hash = Bytes.alignLeft 32 (((newTransfer 0 [] 0 0 0 [] k
        (toyKey 2).pk).getSigningHash toyPrefixCrypto).val ++ [] ++ (toyKey 2).pk) := rfl
    rw [hhash, hsigning, List.append_assoc _ [] (toyKey 2).pk]
    exact Bytes.val_alignLeft_append hlength _
  have heq := congrArg Subtype.val h
  rw [hbytes, hbytes] at heq
  simp only [List.append_assoc] at heq
  exact (uint64Bytes_append_inj (uint64Bytes_append_inj heq).2).1

def toyFreeEntries (k : Nat) : List TransactionInfo :=
  (List.range k).map (fun i => newInfo (.transfer (toyFreeTransfer (UInt64.ofNat i)))
    (toyFreeTransfer (UInt64.ofNat i)).hash 0 1 1)

theorem toyFreeEntries_add {k : Nat} (hk : k ≤ Config.transactionPoolSize) {t : TransactionPool}
    (ht : t.txPool = toyFreeEntries k) :
    ∃ t', t.add toyPrefixCrypto (.transfer (toyFreeTransfer (UInt64.ofNat k)))
      (toyFreeTransfer (UInt64.ofNat k)).hash 0 1 1 = .ok t' ∧
      t'.txPool = toyFreeEntries (k + 1) := by
  rcases (toyFreeTransfer_validated (UInt64.ofNat k)).addrFrom with ⟨addr, haddr⟩
  have hroom : t.txPool.length ≤ Config.transactionPoolSize := by
    rw [ht, toyFreeEntries, List.length_map, List.length_range]
    exact hk
  have hclash : ¬t.Clashes toyPrefixCrypto (.transfer (toyFreeTransfer (UInt64.ofNat k)))
      (toyFreeTransfer (UInt64.ofNat k)).hash := by
    rintro ⟨ti, hti, hhash | ⟨hxmss, -⟩⟩
    · -- The earlier ones have smaller nonces.
      rw [ht] at hti
      rcases List.mem_map.1 hti with ⟨i, hi, rfl⟩
      have hlt := List.mem_range.1 hi
      have heq := congrArg UInt64.toNat (toyFreeTransfer_hash_inj hhash)
      have hsmall : Config.transactionPoolSize < 2 ^ 64 := by decide
      rw [UInt64.toNat_ofNat', UInt64.toNat_ofNat', Nat.mod_eq_of_lt (by omega),
        Nat.mod_eq_of_lt (by omega)] at heq
      omega
    · cases hxmss
  have hread : ¬t.Unreadable toyPrefixCrypto (.transfer (toyFreeTransfer (UInt64.ofNat k))) := by
    rintro ⟨ti, -, hxmss, -⟩
    cases hxmss
  rcases (@exists_add_iff _ t _ (toyFreeTransfer (UInt64.ofNat k)).hash 0 1 1 _ haddr).2
    ⟨hroom, hclash, hread⟩ with ⟨t', hadd⟩
  refine ⟨t', hadd, ?_⟩
  rcases add_of_ok hadd with ⟨-, -, rfl⟩
  rw [txPool_addNonceData, ht]
  unfold toyFreeEntries
  rw [List.range_succ, List.map_append]
  rfl

theorem toyFreeEntries_reached {k : Nat} (hk : k ≤ Config.transactionPoolSize + 1) :
    ∃ t, PoolReached toyPrefixCrypto
      (fun _ op => ∀ tx txHash, op.Adds tx txHash → tx.Validated toyPrefixCrypto) t ∧
      t.txPool = toyFreeEntries k := by
  induction k with
  | zero => exact ⟨createTransactionPool, .fresh, rfl⟩
  | succ k ih =>
    rcases ih (Nat.le_of_succ_le hk) with ⟨t, hreached, ht⟩
    rcases toyFreeEntries_add (Nat.le_of_succ_le_succ hk) ht with ⟨t', hadd, ht'⟩
    have hstep : t.perform toyPrefixCrypto (.add (.transfer (toyFreeTransfer (UInt64.ofNat k)))
        (toyFreeTransfer (UInt64.ofNat k)).hash 0 1 1) = .ok t' := by
      simp only [TransactionPool.perform, hadd]
    refine ⟨t', .step hreached ?_ hstep, ht'⟩
    rintro tx txHash ⟨rfl, -⟩
    exact toyFreeTransfer_validated _

theorem toyFreeEntries_admitted : ∃ t, PoolReached toyPrefixCrypto (fun _ _ => True) t ∧
    t.txPool = toyFreeEntries 3 ∧
    ((∃ t', t.add toyPrefixCrypto (.transfer (toyFreeTransfer 3)) (toyFreeTransfer 3).hash 0 1 1
        = .ok t') ↔ t.txPool.length < Config.transactionPoolSize ∧
      ¬t.Clashes toyPrefixCrypto (.transfer (toyFreeTransfer 3)) (toyFreeTransfer 3).hash) := by
  rcases @toyFreeEntries_reached 3 (by decide) with ⟨t, hreached, ht⟩
  have hlength : t.txPool.length = 3 := by
    rw [ht, toyFreeEntries, List.length_map, List.length_range]
  have hany := hreached.mono (fun _ _ _ => trivial)
  refine ⟨t, hany, ht, (((pool_admission toyPrefixCrypto t hany).1 _ _ 0 1 1
    (toyFreeTransfer_validated 3) rfl).1).2 ⟨fun hfull => ?_, fun _ hread => ?_⟩⟩
  · rw [hlength] at hfull
    exact absurd hfull (by decide)
  · rcases hread with ⟨ti, -, hxmss, -⟩
    cases hxmss

/-- A pool with as many transactions as its size, all of them validated, takes one more. -/
theorem toyFreeEntries_overfull : ∃ t t' tx txHash, PoolReached toyPrefixCrypto
      (fun _ op => ∀ tx txHash, op.Adds tx txHash → tx.Validated toyPrefixCrypto) t ∧
    t.txPool.length = Config.transactionPoolSize ∧ tx.Validated toyPrefixCrypto ∧
    tx.hash = .ok txHash ∧ t.add toyPrefixCrypto tx txHash 0 1 1 = .ok t' ∧
    t'.txPool.length = Config.transactionPoolSize + 1 := by
  rcases @toyFreeEntries_reached Config.transactionPoolSize (Nat.le_succ _)
    with ⟨t, hreached, ht⟩
  rcases toyFreeEntries_add (Nat.le_refl _) ht with ⟨t', hadd, -⟩
  have hlength : t.txPool.length = Config.transactionPoolSize := by
    rw [ht, toyFreeEntries, List.length_map, List.length_range]
  refine ⟨t, t', _, _, hreached, hlength, toyFreeTransfer_validated _, rfl, hadd, ?_⟩
  rw [length_add hadd, hlength]

end Zond
