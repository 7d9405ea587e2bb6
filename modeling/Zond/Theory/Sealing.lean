import Zond.Core.Producer

/-!
# Sealing a Block

Three hashes are taken of a block on its way: attestors sign the first, which covers the
coinbase unsigned; the proposer signs the second, which covers the attestations too; the third
covers the signed coinbase and names the block. Each is over something that changes later, and
none over what has changed by the time it is used.

## Main definitions

* `Collects`: What a row of attestations leaves of a block.

## Theorems

* `attestations_stand`: An attestation that passed on the way passes against the sealed block.
-/

namespace Zond

open Outcome

variable {c : Crypto} {d : Dilithium}

def Block.addAttestTxs (c : Crypto) (b : Block) (attestTxs : List Attest) : Go Block :=
  attestTxs.foldlM (Block.addAttestTx c) b

/-- Every transaction of the block has a kind. -/
structure Block.Kinded (b : Block) : Prop where
  transactions : ∀ tx ∈ b.transactions, ∀ base, tx ≠ .unknown base
  protocolTransactions : ∀ tx ∈ b.protocolTransactions, ∀ base, tx ≠ .unknown base

/-- An attestation passes the checks of `ValidateAttestTx` that depend on what the block
    hashes to: its own hash and its signature. -/
def Block.Attested (c : Crypto) (b : Block) (tx : Attest) : Prop :=
  ∃ h, b.partialBlockSigningHash c = .ok h ∧ tx.hash = tx.txHash c (tx.getSigningHash c h) ∧
    c.dilithiumVerify (tx.getSigningHash c h) tx.signature (unSizedDilithiumPKToSizedPK tx.pk)
      = some true

/-- The loop of `AddAttestTx` finds the attestation in the block. -/
def Block.Lists (c : Crypto) (b : Block) (tx : Attest) : Prop :=
  ∃ h, b.partialBlockSigningHash c = .ok h ∧
    listsTxHash c h (tx.txHash c (tx.getSigningHash c h)) b.protocolTransactions.tail = .ok true

theorem exists_txHash {tx : ProtocolTransaction} (h : Hash)
    (htx : ∀ base, tx ≠ .unknown base) : ∃ found, tx.txHash c h = .ok found := by
  cases tx with
  | coinBase | attest => exact ⟨_, rfl⟩
  | unknown base => exact absurd rfl (htx base)

section Listing

variable {h txHash : Hash} {l : List ProtocolTransaction}

theorem listsTxHash_append_of_true (hl : listsTxHash c h txHash l = .ok true)
    (more : List ProtocolTransaction) : listsTxHash c h txHash (l ++ more) = .ok true := by
  induction l with
  | nil => cases hl
  | cons tx rest ih =>
    unfold listsTxHash at hl
    rcases bind_eq_ok.1 hl with ⟨found, hfound, hl⟩
    rw [List.cons_append]
    unfold listsTxHash
    rw [hfound, ok_bind]
    by_cases heq : found = txHash
    · rw [if_pos heq]
      rfl
    · rw [if_neg heq] at hl ⊢
      exact ih hl

theorem listsTxHash_append_of_false (hl : listsTxHash c h txHash l = .ok false)
    (more : List ProtocolTransaction) :
    listsTxHash c h txHash (l ++ more) = listsTxHash c h txHash more := by
  induction l with
  | nil => rfl
  | cons tx rest ih =>
    unfold listsTxHash at hl
    rcases bind_eq_ok.1 hl with ⟨found, hfound, hl⟩
    by_cases heq : found = txHash
    · rw [if_pos heq] at hl
      cases hl
    · rw [if_neg heq] at hl
      rw [List.cons_append, ← ih hl]
      conv_lhs => unfold listsTxHash
      rw [hfound, ok_bind, if_neg heq]

theorem exists_listsTxHash (hl : ∀ tx ∈ l, ∀ base, tx ≠ .unknown base) :
    ∃ listed, listsTxHash c h txHash l = .ok listed := by
  induction l with
  | nil => exact ⟨false, rfl⟩
  | cons tx rest ih =>
    rcases ih (fun tx htx => hl tx (List.mem_cons_of_mem _ htx)) with ⟨listed, hlisted⟩
    rcases exists_txHash h (hl tx List.mem_cons_self) with ⟨found, hfound⟩
    unfold listsTxHash
    rw [hfound, ok_bind]
    by_cases heq : found = txHash
    · exact ⟨true, by rw [if_pos heq]; rfl⟩
    · exact ⟨listed, by rw [if_neg heq]; exact hlisted⟩

end Listing

section Adding

variable {b b' : Block} {tx other : Attest}

theorem tail_addAttestTx {first : CoinBase} {rest : List ProtocolTransaction}
    (hpts : b.protocolTransactions = .coinBase first :: rest) (tx : Attest) :
    (b.protocolTransactions ++ [ProtocolTransaction.attest tx]).tail
      = b.protocolTransactions.tail ++ [.attest tx] := by
  rw [hpts]
  rfl

theorem lists_addAttestTx (h : b.addAttestTx c tx = .ok b') : b'.Lists c tx := by
  have hsame := partialBlockSigningHash_addAttestTx h
  rcases addAttestTx_of_ok h with ⟨⟨first, rest, hpts⟩, -⟩
  unfold Block.addAttestTx at h
  rcases bind_eq_ok.1 h with ⟨hash, hhash, h⟩
  rcases bind_eq_ok.1 h with ⟨listed, hlisted, h⟩
  rw [pure_eq_ok] at h
  rw [hhash] at hsame
  refine ⟨hash, hsame, ?_⟩
  cases listed with
  | true =>
    rw [if_pos rfl] at h
    rw [← h]
    exact hlisted
  | false =>
    -- None before it has its hash, so the loop gets to the new one.
    rw [if_neg Bool.false_ne_true] at h
    rw [← h]
    show listsTxHash c hash _ (b.protocolTransactions ++ [ProtocolTransaction.attest tx]).tail = _
    rw [tail_addAttestTx hpts, listsTxHash_append_of_false hlisted]
    show (if tx.txHash c (tx.getSigningHash c hash) = _ then _ else _) = _
    rw [if_pos rfl]
    rfl

theorem Block.Lists.addAttestTx (hb : b.Lists c tx) (h : b.addAttestTx c other = .ok b') :
    b'.Lists c tx := by
  have hsame := partialBlockSigningHash_addAttestTx h
  rcases hb with ⟨hash, hhash, hlisted⟩
  refine ⟨hash, hsame.trans hhash, ?_⟩
  rcases addAttestTx_of_ok h with ⟨⟨first, rest, hpts⟩, rfl | rfl⟩
  · exact hlisted
  · show listsTxHash c hash _ (b.protocolTransactions ++ [ProtocolTransaction.attest other]).tail = _
    rw [tail_addAttestTx hpts]
    exact listsTxHash_append_of_true hlisted _

theorem Block.Lists.again (hb : b.Lists c tx) : b.addAttestTx c tx = .ok b := by
  rcases hb with ⟨hash, hhash, hlisted⟩
  unfold Block.addAttestTx
  rw [hhash, ok_bind]
  dsimp only
  rw [hlisted]
  rfl

/-- What a row of attestations leaves of a block: what attestors sign and the coinbase stay
    as they were, and the attestations are there. -/
structure Collects (c : Crypto) (b : Block) (done : List Attest) (b' : Block) : Prop where
  partialHash : b'.partialBlockSigningHash c = b.partialBlockSigningHash c
  first : b'.protocolTransactions.head? = b.protocolTransactions.head?
  lists : ∀ tx ∈ done, b'.Lists c tx

theorem Collects.step {done : List Attest} {b'' : Block} (h : Collects c b done b')
    (hstep : b'.addAttestTx c tx = .ok b'') : Collects c b (done ++ [tx]) b'' := by
  refine ⟨(partialBlockSigningHash_addAttestTx hstep).trans h.partialHash, ?_, fun t ht => ?_⟩
  · rw [← h.first]
    rcases addAttestTx_of_ok hstep with ⟨⟨first, rest, hpts⟩, rfl | rfl⟩
    · rfl
    · show (b'.protocolTransactions ++ [ProtocolTransaction.attest tx]).head? = _
      rw [hpts]
      rfl
  · rcases List.mem_append.1 ht with ht | ht
    · exact (h.lists t ht).addAttestTx hstep
    · rw [List.mem_singleton.1 ht]
      exact lists_addAttestTx hstep

theorem collects_addAttestTxs {attestTxs : List Attest} (h : b.addAttestTxs c attestTxs = .ok b') :
    Collects c b attestTxs b' := by
  refine foldlM_prefix (Collects c b) attestTxs ?_ ⟨rfl, rfl, fun _ ht => (nomatch ht)⟩ h
  intro done b₁ tx b₂ hdone hstep
  exact hdone.step hstep

end Adding

section Returning

variable {b : Block} {first : CoinBase} {rest : List ProtocolTransaction}

theorem Block.Kinded.bytes (h : b.Kinded)
    (hpts : b.protocolTransactions = .coinBase first :: rest) :
    ∃ bytes, b.partialBlockHashableBytes c = .ok bytes := by
  have hhashes : ∃ hashes, b.transactions.mapM Transaction.hash = .ok hashes := by
    refine exists_mapM (fun tx htx => ?_)
    cases tx with
    | transfer | stake => exact ⟨_, rfl⟩
    | unknown base => exact absurd rfl (h.transactions _ htx base)
  rcases hhashes with ⟨hashes, hhashes⟩
  rw [Block.partialBlockHashableBytes_of_coinBase hpts, hhashes]
  exact ⟨_, rfl⟩

theorem exists_addAttestTx (h : b.Kinded)
    (hpts : b.protocolTransactions = .coinBase first :: rest) (tx : Attest) :
    ∃ b', b.addAttestTx c tx = .ok b' ∧ b'.Kinded := by
  rcases @Block.Kinded.bytes c b first rest h hpts with ⟨bytes, hbytes⟩
  have htail : ∀ tx ∈ b.protocolTransactions.tail, ∀ base, tx ≠ .unknown base :=
    fun tx htx => h.protocolTransactions tx (List.mem_of_mem_tail htx)
  rcases @exists_listsTxHash c (c.sha256 bytes)
    (tx.txHash c (tx.getSigningHash c (c.sha256 bytes))) _ htail with ⟨listed, hlisted⟩
  have hpart : b.partialBlockSigningHash c = .ok (c.sha256 bytes) := by
    unfold Block.partialBlockSigningHash
    rw [hbytes]
    rfl
  unfold Block.addAttestTx
  rw [hpart, ok_bind]
  dsimp only
  rw [hlisted]
  refine ⟨_, rfl, ?_⟩
  cases listed with
  | true => exact h
  | false =>
    refine ⟨h.transactions, fun tx' htx' => ?_⟩
    rcases List.mem_append.1 htx' with htx' | htx'
    · exact h.protocolTransactions tx' htx'
    · rw [List.mem_singleton.1 htx']
      exact fun base heq => (nomatch heq)

theorem exists_addAttestTxs (attestTxs : List Attest) :
    ∀ {b : Block} {rest : List ProtocolTransaction}, b.Kinded →
      b.protocolTransactions = .coinBase first :: rest →
      ∃ b', b.addAttestTxs c attestTxs = .ok b' ∧ b'.Kinded := by
  induction attestTxs with
  | nil => exact fun {b} _ hkinded _ => ⟨b, rfl, hkinded⟩
  | cons tx attestTxs ih =>
    intro b rest hkinded hpts
    rcases @exists_addAttestTx c b first rest hkinded hpts tx with ⟨b₁, hstep, hkinded₁⟩
    have hfront : ∃ rest', b₁.protocolTransactions = .coinBase first :: rest' := by
      rcases (addAttestTx_of_ok hstep).2 with rfl | rfl
      · exact ⟨rest, hpts⟩
      · exact ⟨rest ++ [.attest tx], congrArg (· ++ [.attest tx]) hpts⟩
    rcases hfront with ⟨rest', hpts'⟩
    rcases ih hkinded₁ hpts' with ⟨b', hb', hkinded'⟩
    refine ⟨b', ?_, hkinded'⟩
    unfold Block.addAttestTxs
    rw [List.foldlM_cons, hstep]
    exact hb'

theorem exists_blockSigningHash (h : b.Kinded)
    (hpts : b.protocolTransactions = .coinBase first :: rest) :
    ∃ hash, b.blockSigningHash c = .ok hash := by
  rcases @Block.Kinded.bytes c b first rest h hpts with ⟨bytes, hbytes⟩
  have hhashes : ∃ hashes, b.protocolTransactions.tail.mapM
      (fun tx => tx.txHash c (c.sha256 bytes)) = .ok hashes :=
    exists_mapM (fun tx htx => exists_txHash _
      (h.protocolTransactions tx (List.mem_of_mem_tail htx)))
  rcases hhashes with ⟨hashes, hhashes⟩
  unfold Block.blockSigningHash
  rw [hbytes, ok_bind, hhashes]
  exact ⟨_, rfl⟩

theorem exists_computeBlockHash (h : b.Kinded)
    (hpts : b.protocolTransactions = .coinBase first :: rest) :
    ∃ hash, b.computeBlockHash c = .ok hash := by
  rcases @exists_blockSigningHash c b first rest h hpts with ⟨signingHash, hsigning⟩
  unfold Block.computeBlockHash
  rw [hsigning, ok_bind, Block.firstProtocolTx_of_cons hpts]
  exact ⟨_, rfl⟩

theorem exists_signByProposer (h : b.Kinded)
    (hpts : b.protocolTransactions = .coinBase first :: rest) :
    ∃ b', b.signByProposer c d = .ok b' := by
  rcases @exists_blockSigningHash c b first rest h hpts with ⟨signingHash, hsigning⟩
  -- The signed block has the same kinds, so its own hash can be taken too.
  have hsigned (message : Hash) : ∃ hash, Block.computeBlockHash c
      { b with
        protocolTransactions := .coinBase (first.sign c d message) :: b.protocolTransactions.tail }
      = .ok hash := by
    refine exists_computeBlockHash ⟨h.transactions, fun tx htx => ?_⟩ rfl
    rcases List.mem_cons.1 htx with rfl | htx
    · exact fun base heq => (nomatch heq)
    · exact h.protocolTransactions tx (List.mem_of_mem_tail htx)
  rcases hsigned (first.getSigningHash c signingHash) with ⟨hash, hhash⟩
  unfold Block.signByProposer
  rw [hsigning, ok_bind, Block.firstProtocolTx_of_cons hpts, ok_bind]
  exact ⟨_, bind_eq_ok.2 ⟨_, rfl, bind_eq_ok.2 ⟨hash, hhash, rfl⟩⟩⟩

end Returning

/-- A block from its making to its seal. Make a block with a proposer's key, add attestations
    one after the other and sign it with that key. After every attestation the block hashes to
    the same for attestors, and adding again one that was added changes nothing. The sealed
    block still hashes to the same, so an attestation that passed against the block at any
    point passes against the sealed one; it has the hash that is computed of it, and its
    coinbase too. If every transaction has a kind, all of this returns. -/
theorem attestations_stand (c : Crypto) (d : Dilithium)
    (chainID timestamp slotNumber signerNonce : UInt64) (parentHash : Hash)
    (txs : List Transaction) (protocolTxs : List ProtocolTransaction) (attestTxs : List Attest) :
    let b := newBlock chainID timestamp d.pk slotNumber parentHash txs protocolTxs signerNonce
    (∀ n bn, b.addAttestTxs c (attestTxs.take n) = .ok bn →
      bn.partialBlockSigningHash c = b.partialBlockSigningHash c ∧
        ∀ tx ∈ attestTxs.take n, bn.addAttestTx c tx = .ok bn) ∧
    (∀ be sealed, b.addAttestTxs c attestTxs = .ok be → be.signByProposer c d = .ok sealed →
      sealed.partialBlockSigningHash c = b.partialBlockSigningHash c ∧
        (∀ n bn, b.addAttestTxs c (attestTxs.take n) = .ok bn →
          ∀ tx, bn.Attested c tx → sealed.Attested c tx) ∧
        sealed.computeBlockHash c = .ok sealed.hash ∧
        ∃ (coinBase : CoinBase) (rest : List ProtocolTransaction) (signingHash : Hash),
          sealed.protocolTransactions = .coinBase coinBase :: rest ∧
          sealed.blockSigningHash c = .ok signingHash ∧
          coinBase.hash = coinBase.txHash c (coinBase.getSigningHash c signingHash)) ∧
    (b.Kinded → ∃ be sealed, b.addAttestTxs c attestTxs = .ok be ∧
      be.signByProposer c d = .ok sealed) := by
  intro b
  -- The coinbase is at the front throughout.
  have hfront {be : Block} {done : List Attest} (h : Collects c b done be) : ∃ rest,
      be.protocolTransactions = .coinBase (newCoinBase chainID d.pk Config.blockReward
        Config.attestorReward (feeRewardOf txs) signerNonce) :: rest := by
    have hfirst := h.first
    rcases hpts : be.protocolTransactions with - | ⟨tx, rest⟩
    · rw [hpts] at hfirst
      cases hfirst
    · rw [hpts] at hfirst
      cases hfirst
      exact ⟨rest, rfl⟩
  refine ⟨fun n bn hn => ?_, fun be sealed hadd hsign => ?_, fun hkinded => ?_⟩
  · have hafter := collects_addAttestTxs hn
    exact ⟨hafter.partialHash, fun tx htx => (hafter.lists tx htx).again⟩
  · have hafter := collects_addAttestTxs hadd
    rcases hfront hafter with ⟨rest, hpts⟩
    have hsealed := (partialBlockSigningHash_signByProposer hpts rfl hsign).trans hafter.partialHash
    refine ⟨hsealed, fun n bn hn tx htx => ?_, computeBlockHash_signByProposer hsign, ?_⟩
    · rcases htx with ⟨h, hh, hchecks⟩
      exact ⟨h, hsealed.trans ((collects_addAttestTxs hn).partialHash.symm.trans hh), hchecks⟩
    · rcases coinBase_hash_signByProposer hpts rfl hsign with
        ⟨coinBase, signingHash, hpts', hsigning, hhash⟩
      exact ⟨coinBase, rest, signingHash, hpts', hsigning, hhash⟩
  · rcases exists_addAttestTxs attestTxs hkinded rfl with ⟨be, hbe, hkindede⟩
    rcases hfront (collects_addAttestTxs hbe) with ⟨rest, hpts⟩
    rcases @exists_signByProposer c d be _ rest hkindede hpts with ⟨sealed, hsealed⟩
    exact ⟨be, sealed, hbe, hsealed⟩

theorem toyKey_stands : ∃ be sealed,
    (newBlock 0 7 (toyKey 1).pk 3 zeroHash [] [] 1).addAttestTxs toyCrypto
      [newAttest 0 5, newAttest 0 5] = .ok be ∧
    be.protocolTransactions.length = 2 ∧ be.signByProposer toyCrypto (toyKey 1) = .ok sealed ∧
    sealed.computeBlockHash toyCrypto = .ok sealed.hash := by
  have hcheck : ((newBlock 0 7 (toyKey 1).pk 3 zeroHash [] [] 1).addAttestTxs toyCrypto
      [newAttest 0 5, newAttest 0 5] >>= fun be =>
        pure (decide (be.protocolTransactions.length = 2))) = .ok true := by
    decide +kernel
  rcases bind_eq_ok.1 hcheck with ⟨be, hbe, hlength⟩
  rw [pure_eq_ok, decide_eq_true_eq] at hlength
  rcases attestations_stand toyCrypto (toyKey 1) 0 7 3 1 zeroHash [] []
    [newAttest 0 5, newAttest 0 5] with ⟨-, hsealed, hreturns⟩
  have hkinded : (newBlock 0 7 (toyKey 1).pk 3 zeroHash [] [] 1).Kinded := by
    refine ⟨fun tx htx => (nomatch htx), fun tx htx => ?_⟩
    rw [List.mem_singleton.1 htx]
    exact fun base heq => (nomatch heq)
  rcases hreturns hkinded with ⟨be', sealed, hbe', hsign⟩
  rw [hbe] at hbe'
  cases hbe'
  exact ⟨be, sealed, hbe, hlength, hsign, (hsealed be sealed hbe hsign).2.2.1⟩

end Zond
