import Zond.Theory.Genesis

/-!
# Counting the Stake of a Block

A block's weight in the fork choice is the stake of those who signed it. `ValidateCoinBaseTx`
and `ValidateAttestTx` check the signature and the role, the flags of the context let each
validator sign once, and `Commit` adds what was counted to the parent's total.

## Theorems

* `signed_of_processTransactions`: Every protocol transaction is signed, in its role.
* `process_counts_stake`: The three put together for a block with a slot of its own.
-/

namespace Zond

open Outcome

section Loop

variable {ext : Externals} {env : ExecEnv} {st st' : ExecState}

theorem signed_of_processTransactions (hgenesis : env.isGenesis = false)
    (h : processTransactions ext env st = .ok st') : ∀ tx ∈ env.block.protocolTransactions,
      tx.Signed ext.toCrypto env.block ∧ tx.InRole env.validators := by
  rcases processTransactions_of_ok h with ⟨-, -, mid, -, hprotocol, -⟩
  refine forall_of_foldlM_zipIdx (fun _ txi _ hstep => ?_) hprotocol
  have hr := rewarded_of_processProtocolTx hstep
  exact ⟨hr.signed hgenesis, hr.role⟩

end Loop

theorem SlotValidatorsMetaData.new_of_ok {slotNumber : UInt64} {e : EpochMetaData}
    {v : SlotValidatorsMetaData} (h : SlotValidatorsMetaData.new slotNumber e = .ok v) :
    ∃ info leader attestors, e.slotInfoAt slotNumber = .ok info ∧
      e.validatorAt info.slotLeader = .ok leader ∧
      info.attestors.mapM e.validatorAt = .ok attestors ∧
      v.validatorsType =
        attestors.foldl (fun m pk => m.put pk false) (AssocMap.empty.put leader true) := by
  unfold SlotValidatorsMetaData.new at h
  rcases bind_eq_ok.1 h with ⟨info, hinfo, h⟩
  rcases bind_eq_ok.1 h with ⟨leader, hleader, h⟩
  rcases bind_eq_ok.1 h with ⟨attestors, hattestors, h⟩
  rw [pure_eq_ok] at h
  subst h
  exact ⟨info, leader, attestors, hinfo, hleader, hattestors, rfl⟩

section Counting

variable {ext : Externals} {b parentBlock : Block} {s : StateDB} {ctx : StateContext}
variable {validators : SlotValidatorsMetaData} {db : Store} {tries : Tries} {p : Processed}
variable {e : EpochMetaData} {partialHash signingHash : Hash}

/-- A processed block starts with a coinbase signed by the leader of its slot, and every other
    protocol transaction is an attestation signed by another attestor of the slot, no attestor
    signing twice. The stake stored for the block is its parent's and one stake for each of
    them. -/
theorem process_counts_stake (hslot : b.slotNumber ≠ 0) (hself : b.hash ≠ b.parentHash)
    (hkeyed : db.Keyed)
    (hctx : StateContext.new db b.slotNumber b.parentHash b.hash partialHash signingHash e
      = .ok ctx)
    (hvalidators : SlotValidatorsMetaData.new b.slotNumber e = .ok validators)
    (h : process ext b parentBlock s ctx validators db tries = .ok p) :
    ∃ info leader attestors, e.slotInfoAt b.slotNumber = .ok info ∧
      e.validatorAt info.slotLeader = .ok leader ∧
      info.attestors.mapM e.validatorAt = .ok attestors ∧
      (∃ proposal rest, b.protocolTransactions = .coinBase proposal :: rest ∧
        proposal.pk = leader ∧ (ProtocolTransaction.coinBase proposal).Signed ext.toCrypto b ∧
        (∀ tx ∈ rest, tx.Signed ext.toCrypto b ∧
          ∃ attestation, tx = .attest attestation ∧ attestation.pk ∈ attestors) ∧
        leader ∉ rest.map ProtocolTransaction.pk ∧
        (rest.map ProtocolTransaction.pk).Nodup) ∧
      ∃ parent stored, db.blockMetaData.get b.parentHash = some parent ∧
        p.db.blockMetaData.get b.hash = some stored ∧
        stored.totalStakeAmount = parent.totalStakeAmount +
          Config.stakeAmount.toNat * b.protocolTransactions.length := by
  rcases SlotValidatorsMetaData.new_of_ok hvalidators with
    ⟨info, leader, attestors, hinfo, hleader, hattestors, hmarks⟩
  refine ⟨info, leader, attestors, hinfo, hleader, hattestors, ?_⟩
  rcases StateContext.new_of_ok hctx with ⟨hcslot, hcparent, hchash, -, -, hczero, -⟩
  rcases process_of_ok h with ⟨env, st₀, st, hexec, henv, hst₀, -, hloops, hseal⟩
  have hstatic : env.isGenesis = false ∧ env.validators = validators := by
    unfold newExec at hexec
    rcases bind_eq_ok.1 hexec with ⟨minter, -, hexec⟩
    simp only [pure_eq_ok, Prod.mk.injEq] at hexec
    rw [← hexec.1]
    exact ⟨rfl, rfl⟩
  have hsigned := signed_of_processTransactions hstatic.1 hloops
  have hslot₀ : st₀.ctx.slotNumber ≠ 0 := by
    rw [hst₀, hcslot]
    exact hslot
  have hcounted := counted_of_ok hslot₀ hloops
  rw [henv, hstatic.2] at hsigned
  rw [henv, hst₀] at hcounted
  constructor
  · rcases processTransactions_of_ok hloops with ⟨proposal, rest, -, hlist, -, -⟩
    rw [henv] at hlist
    have hfirst := hsigned (.coinBase proposal) (by rw [hlist]; exact List.mem_cons_self)
    have hproposer : proposal.pk = leader := eq_of_isSlotLeader hmarks hfirst.2
    have hnodup := hcounted.nodup
    rw [hlist, List.map_cons, List.nodup_cons] at hnodup
    have hnew : leader ∉ rest.map ProtocolTransaction.pk := by
      rw [← hproposer]
      exact hnodup.1
    refine ⟨proposal, rest, hlist, hproposer, hfirst.1, ?_, hnew, hnodup.2⟩
    intro tx htx
    have hone := hsigned tx (by rw [hlist]; exact List.mem_cons_of_mem _ htx)
    refine ⟨hone.1, ?_⟩
    cases tx with
    | coinBase second =>
      -- A second coinbase is the leader's as well, and the leader is counted once.
      have hagain : second.pk = leader := eq_of_isSlotLeader hmarks hone.2
      exact absurd (hagain ▸ List.mem_map_of_mem htx) hnew
    | attest attestation => exact ⟨attestation, rfl, mem_of_isAttestor hmarks hone.2⟩
    | unknown base => exact hone.1.elim
  · rcases sealBlock_of_ok hseal with ⟨-, -, -, -, -, hcommit⟩
    have hframe := hcounted.frame
    have hstslot : st.ctx.slotNumber ≠ 0 := by
      rw [hframe, hcslot]
      exact hslot
    rcases commit_of_ok hstslot hcommit with ⟨parent, last, hwrites⟩
    have hparent := hwrites.parent
    have hstparent : st.ctx.parentBlockHeaderHash = b.parentHash := by rw [hframe, hcparent]
    have hsthash : st.ctx.blockHeaderHash = b.hash := by rw [hframe, hchash]
    rw [hstparent] at hparent
    refine ⟨parent, newRecord st.ctx parent p.trieRoot, hparent, ?_, ?_⟩
    · -- The parent's record is written last, under another hash.
      rw [hwrites.records, AssocMap.get_put, hkeyed _ _ hparent, if_neg (Ne.symm hself), hsthash,
        AssocMap.get_put_self]
    · have hstake := hcounted.stake
      rw [hczero, List.length_map, Int.zero_add, Int.mul_comm] at hstake
      show parent.totalStakeAmount + st.ctx.currentBlockTotalStakeAmount = _
      rw [hstake]

end Counting

def toyRoster : EpochMetaData :=
  { EpochMetaData.new 1 toyGenesis.hash [(toyKey 1).pk, (toyKey 2).pk] with
    slotInfo := List.replicate 100 (some { slotLeader := 0, attestors := [1] }) }

def toyAttested : Go Block := do
  let b := newBlock 0 0 (toyKey 1).pk 100 toyGenesis.hash [] [] 2
  let attestTx ← b.attest toyCrypto (toyKey 2) 0 1
  let b ← b.addAttestTx toyCrypto attestTx
  b.signByProposer toyCrypto (toyKey 1)

theorem toyAttested_counts_stake : ∃ b parentBlock s db validators ctx tries p parent stored,
    toyAttested = .ok b ∧
    process toyExternals b parentBlock s ctx validators db tries = .ok p ∧
    b.protocolTransactions.length = 2 ∧ db.blockMetaData.get b.parentHash = some parent ∧
    p.db.blockMetaData.get b.hash = some stored ∧
    stored.totalStakeAmount = parent.totalStakeAmount + Config.stakeAmount.toNat * 2 := by
  have hcheck : (toyAttested >>= fun b =>
      genesisChain toyExternals toyGenesis toyPreState >>= fun c =>
      c.stateAt toyGenesis.hash >>= fun s =>
      Chain.calculateEpochMetaData toyExternals c.db s 100 toyGenesis.hash >>= fun r =>
      SlotValidatorsMetaData.new b.slotNumber toyRoster >>= fun validators =>
      StateContext.new c.db b.slotNumber b.parentHash b.hash zeroHash zeroHash toyRoster
        >>= fun ctx =>
      process toyExternals b toyGenesis r.1 ctx validators c.db c.tries >>= fun _ =>
      pure (decide (b.slotNumber ≠ 0 ∧ b.hash ≠ b.parentHash ∧
        b.protocolTransactions.length = 2))) = .ok true := by decide +kernel
  rcases bind_eq_ok.1 hcheck with ⟨b, hb, hcheck⟩
  rcases bind_eq_ok.1 hcheck with ⟨c, hc, hcheck⟩
  rcases bind_eq_ok.1 hcheck with ⟨s, -, hcheck⟩
  rcases bind_eq_ok.1 hcheck with ⟨r, -, hcheck⟩
  rcases bind_eq_ok.1 hcheck with ⟨validators, hvalidators, hcheck⟩
  rcases bind_eq_ok.1 hcheck with ⟨ctx, hctx, hcheck⟩
  rcases bind_eq_ok.1 hcheck with ⟨p, hp, hcheck⟩
  rw [pure_eq_ok, decide_eq_true_iff] at hcheck
  rcases hcheck with ⟨hslot, hself, hlength⟩
  rcases genesisNode_of_ok toyGenesis_slotNumber hc with ⟨e, trie, total, hgenesis⟩
  have hkeyed := (hgenesis.sound toyGenesis_slotNumber).keyed
  rcases process_counts_stake hslot hself hkeyed hctx hvalidators hp with
    ⟨-, -, -, -, -, -, -, parent, stored, hparent, hstored, htotal⟩
  rw [hlength] at htotal
  exact ⟨b, toyGenesis, r.1, c.db, validators, ctx, c.tries, p, parent, stored, hb, hp, hlength,
    hparent, hstored, htotal⟩

-- The leader signs first, then its attestor.
example : toyAttested.map (fun b => b.protocolTransactions.map ProtocolTransaction.pk) =
    .ok [(toyKey 1).pk, (toyKey 2).pk] := by decide +kernel

end Zond
