import Zond.Core.Chain

/-!
# What One Block Does

`addBlock` taken apart at a block that was added. Everything later says about runs is
derived from here.

## Main definitions

* `Rewarded`: What is known of a protocol transaction that was processed.
* `Counted`: What the protocol loop has counted of a list of keys.

## Theorems

* `rewarded_of_processProtocolTx`: Every protocol transaction that was processed.
* `Counted.processProtocolTx`: It adds its key to those counted.
-/

namespace Zond

open Outcome

variable {c : Crypto} {ctx ctx' : StateContext} {s : StateDB} {p : Processed} {db : Store}

/-- Two contexts that differ in the counted stake and the flags only. -/
def SameFrame (ctx ctx' : StateContext) : Prop :=
  ctx' = { ctx with
    currentBlockTotalStakeAmount := ctx'.currentBlockTotalStakeAmount
    validatorsFlag := ctx'.validatorsFlag }

theorem SameFrame.refl (ctx : StateContext) : SameFrame ctx ctx := rfl

theorem SameFrame.trans {a b c : StateContext} (hab : SameFrame a b) (hbc : SameFrame b c) :
    SameFrame a c := by
  unfold SameFrame at *
  rw [hbc, hab]

namespace StateContext

variable {c : Crypto} {ctx ctx' : StateContext} {pk : PublicKey} {stakeBalance : Int}

theorem processValidatorStakeAmount_of_ok
    (h : ctx.processValidatorStakeAmount c pk stakeBalance = .ok ctx') : ctx' = { ctx with
      currentBlockTotalStakeAmount :=
        ctx.currentBlockTotalStakeAmount + Config.stakeAmount.toNat
      validatorsFlag := ctx.validatorsFlag.put pk true } := by
  unfold processValidatorStakeAmount at h
  rcases errorIf_bind_eq_ok.1 h with ⟨-, h⟩
  rw [pure_eq_ok, int64_of_lt (by decide)] at h
  exact h.symm

theorem processAttestorsFlag_of_ok (hslot : ctx.slotNumber ≠ 0)
    (h : ctx.processAttestorsFlag c pk stakeBalance = .ok ctx') :
    ctx.validatorsFlag.get pk = some false ∧
      ctx.processValidatorStakeAmount c pk stakeBalance = .ok ctx' := by
  unfold processAttestorsFlag at h
  rw [if_neg hslot] at h
  split at h
  · cases h
  · cases h
  · exact ⟨‹_›, h⟩

/-- A proposer that was counted would have been counted as an attestor. -/
theorem processAttestorsFlag_of_proposer
    (h : ctx.processBlockProposerFlag c pk stakeBalance = .ok ctx') :
    ctx.processAttestorsFlag c pk stakeBalance = .ok ctx' := by
  unfold processBlockProposerFlag at h
  unfold processAttestorsFlag
  split at h
  · rw [if_pos ‹_›]
    exact h
  · rw [if_neg ‹_›]
    rcases bind_eq_ok.1 h with ⟨info, -, h⟩
    rcases bind_eq_ok.1 h with ⟨leader, -, h⟩
    rcases errorIf_bind_eq_ok.1 h with ⟨-, h⟩
    split at h
    · cases h
    · cases h
    · exact h

end StateContext

/-- The transaction carries a signature of its own key over what transactions of its kind
    sign: the coinbase the block, an attestation the block without its attestations. -/
def ProtocolTransaction.Signed (c : Crypto) (b : Block) : ProtocolTransaction → Prop
  | .coinBase tx => ∃ signingHash, b.blockSigningHash c = .ok signingHash ∧
      c.dilithiumVerify (tx.getSigningHash c signingHash) tx.signature
        (unSizedDilithiumPKToSizedPK tx.pk) = some true
  | .attest tx => ∃ partialHash, b.partialBlockSigningHash c = .ok partialHash ∧
      c.dilithiumVerify (tx.getSigningHash c partialHash) tx.signature
        (unSizedDilithiumPKToSizedPK tx.pk) = some true
  | .unknown _ => False

/-- The transaction's key has the role that its kind asks for. -/
def ProtocolTransaction.InRole (validators : SlotValidatorsMetaData) : ProtocolTransaction → Prop
  | .coinBase tx => validators.IsSlotLeader tx.pk
  | .attest tx => validators.IsAttestor tx.pk
  | .unknown _ => False

/-- The transaction holds its own hash, and its key is of the one size. -/
def ProtocolTransaction.Sound (c : Crypto) (b : Block) : ProtocolTransaction → Prop
  | .coinBase tx => tx.pk.length = Config.dilithiumPKSize ∧ ∃ h, b.blockSigningHash c = .ok h ∧
      tx.hash = tx.txHash c (tx.getSigningHash c h)
  | .attest tx => tx.pk.length = Config.dilithiumPKSize ∧
      ∃ h, b.partialBlockSigningHash c = .ok h ∧ tx.hash = tx.txHash c (tx.getSigningHash c h)
  | .unknown _ => False

def ProtocolTransaction.type : ProtocolTransaction → TxType
  | .coinBase _ => .coinBase
  | _ => .attest

/-- What the signer is paid. -/
def ProtocolTransaction.credits (b : Block) : ProtocolTransaction → List Int
  | .coinBase tx => [int64 tx.blockProposerReward, int64 tx.feeReward]
  | .attest _ => [int64 b.attestorReward]
  | .unknown _ => []

/-- What the reserve is charged. -/
def ProtocolTransaction.charge (b : Block) : ProtocolTransaction → Int
  | .coinBase tx => int64 tx.blockProposerReward
  | .attest _ => int64 b.attestorReward
  | .unknown _ => 0

section Validation

variable {c : Crypto} {s s' : StateDB} {validators : SlotValidatorsMetaData}
variable {slotNumber parentSlotNumber : UInt64}

theorem validateCoinBaseTx_of_ok {tx : CoinBase} {signingHash : Hash} {isGenesis : Bool}
    (h : validateCoinBaseTx c tx s validators signingHash slotNumber parentSlotNumber isGenesis
      = .ok s') :
    tx.hash = tx.txHash c (tx.getSigningHash c signingHash) ∧
      tx.nonce = s.getNonce (c.getDilithiumAddressFromUnSizedPK tx.pk) ∧
      tx.pk.length = Config.dilithiumPKSize ∧
      (isGenesis = false → c.dilithiumVerify (tx.getSigningHash c signingHash) tx.signature
        (unSizedDilithiumPKToSizedPK tx.pk) = some true) ∧
      validators.IsSlotLeader tx.pk ∧ tx.blockProposerReward = Config.blockReward ∧
      tx.attestorReward = Config.attestorReward ∧
      s' = s.getOrNewStateObject (c.getDilithiumAddressFromUnSizedPK tx.pk) := by
  rcases errorIf_bind_eq_ok.1 h with ⟨hhash, h⟩
  rcases errorIf_bind_eq_ok.1 h with ⟨hnonce, h⟩
  rcases errorIf_bind_eq_ok.1 h with ⟨hsize, h⟩
  rcases bind_eq_ok.1 h with ⟨_, hsig, h⟩
  rcases errorIf_bind_eq_ok.1 h with ⟨hrole, h⟩
  rcases errorIf_bind_eq_ok.1 h with ⟨hblock, h⟩
  rcases errorIf_bind_eq_ok.1 h with ⟨hattest, h⟩
  refine ⟨not_not.1 hhash, (not_not.1 hnonce).trans ?_, not_not.1 hsize, ?_, not_not.1 hrole,
    not_not.1 hblock, not_not.1 hattest, ?_⟩
  · exact congrArg Account.nonce (StateDB.account_getOrNewStateObject ..)
  · rintro rfl
    exact checkSignature_eq_ok.1 hsig
  · split at h
    · exact (pure_eq_ok.1 h).symm
    · rcases bind_eq_ok.1 h with ⟨_, -, h⟩
      exact (pure_eq_ok.1 h).symm

theorem validateAttestTx_of_ok {tx : Attest} {partialHash : Hash}
    (h : validateAttestTx c tx s validators partialHash slotNumber parentSlotNumber = .ok s') :
    tx.hash = tx.txHash c (tx.getSigningHash c partialHash) ∧
      tx.nonce = s.getNonce (c.getDilithiumAddressFromUnSizedPK tx.pk) ∧
      tx.pk.length = Config.dilithiumPKSize ∧
      c.dilithiumVerify (tx.getSigningHash c partialHash) tx.signature
        (unSizedDilithiumPKToSizedPK tx.pk) = some true ∧
      validators.IsAttestor tx.pk ∧
      s' = s.getOrNewStateObject (c.getDilithiumAddressFromUnSizedPK tx.pk) := by
  rcases errorIf_bind_eq_ok.1 h with ⟨hhash, h⟩
  rcases errorIf_bind_eq_ok.1 h with ⟨hnonce, h⟩
  rcases errorIf_bind_eq_ok.1 h with ⟨hsize, h⟩
  rcases bind_eq_ok.1 h with ⟨_, hsig, h⟩
  rcases errorIf_bind_eq_ok.1 h with ⟨hrole, h⟩
  rcases bind_eq_ok.1 h with ⟨_, -, h⟩
  exact ⟨not_not.1 hhash,
    (not_not.1 hnonce).trans (congrArg Account.nonce (StateDB.account_getOrNewStateObject ..)),
    not_not.1 hsize, checkSignature_eq_ok.1 hsig, not_not.1 hrole, (pure_eq_ok.1 h).symm⟩

end Validation

/-- The protocol transaction `tx` at position `i` was processed: what it had passed, how it
    was counted and the state it left. -/
structure Rewarded (ext : Externals) (env : ExecEnv) (tx : ProtocolTransaction) (i : Nat)
    (st st' : ExecState) : Prop where
  sound : tx.Sound ext.toCrypto env.block
  nonce : tx.base.nonce = st.statedb.getNonce (ext.getDilithiumAddressFromUnSizedPK tx.pk)
  signed : env.isGenesis = false → tx.Signed ext.toCrypto env.block
  role : tx.InRole env.validators
  rewards : ∀ t, tx = .coinBase t →
    t.blockProposerReward = Config.blockReward ∧ t.attestorReward = Config.attestorReward
  flag : st.ctx.processAttestorsFlag ext.toCrypto tx.pk
    ((((st.statedb.getOrNewStateObject (ext.getDilithiumAddressFromUnSizedPK tx.pk)).prepare
      tx.base.hash i).finalise.getOrNewStateObject
        (ext.getDilithiumAddressFromUnSizedPK tx.pk)).getStakeBalance
      (ext.getDilithiumAddressFromUnSizedPK tx.pk)) = .ok st'.ctx
  state : st'.statedb = payReward
    (((st.statedb.getOrNewStateObject (ext.getDilithiumAddressFromUnSizedPK tx.pk)).prepare
      tx.base.hash i).finalise.getOrNewStateObject (ext.getDilithiumAddressFromUnSizedPK tx.pk))
    (ext.getDilithiumAddressFromUnSizedPK tx.pk) (tx.credits env.block) (tx.charge env.block)
  receipt : env.block.blockSigningHash ext.toCrypto = .ok st'.ctx.blockSigningHash →
    env.block.partialBlockSigningHash ext.toCrypto = .ok st'.ctx.partialBlockSigningHash →
    st'.protocolTxReceipts = st.protocolTxReceipts ++ [plainReceipt tx.type 0 0 tx.base.hash
      env.block.hash (int64 env.block.slotNumber) st'.statedb.txIndex]
  rest : st' = { st with
    statedb := st'.statedb, ctx := st'.ctx, protocolTxReceipts := st'.protocolTxReceipts }

theorem rewarded_of_processProtocolTx {ext : Externals} {env : ExecEnv} {st st' : ExecState}
    {txi : ProtocolTransaction × Nat} (h : processProtocolTx ext env st txi = .ok st') :
    Rewarded ext env txi.1 txi.2 st st' := by
  rcases txi with ⟨tx, i⟩
  cases tx with
  | coinBase tx =>
    simp only [processProtocolTx, processCoinBase] at h
    rcases failIf_bind_eq_ok.1 h with ⟨-, h⟩
    rcases bind_eq_ok.1 h with ⟨signingHash, hsigning, h⟩
    rcases bind_eq_ok.1 h with ⟨s, hvalid, h⟩
    rcases validateCoinBaseTx_of_ok hvalid with
      ⟨hhash, hnonce, hsize, hsig, hrole, hblock, hattest, rfl⟩
    rw [← hhash] at h
    rcases bind_eq_ok.1 h with ⟨⟨s', ctx', receipt⟩, happly, h⟩
    rcases bind_eq_ok.1 (wrapApply_eq_ok.1 happly) with ⟨ctx₁, hflag, happly⟩
    cases happly
    cases h
    refine ⟨⟨hsize, _, hsigning, hhash⟩, hnonce, fun hg => ⟨_, hsigning, hsig hg⟩, hrole, ?_,
      StateContext.processAttestorsFlag_of_proposer hflag, rfl, fun hsame _ => ?_, rfl⟩
    · rintro t ht
      cases ht
      exact ⟨hblock, hattest⟩
    · cases hsigning.symm.trans hsame
      rw [← hhash]
      rfl
  | attest tx =>
    simp only [processProtocolTx, processAttest] at h
    rcases bind_eq_ok.1 h with ⟨partialHash, hpartial, h⟩
    rcases bind_eq_ok.1 h with ⟨s, hvalid, h⟩
    rcases validateAttestTx_of_ok hvalid with ⟨hhash, hnonce, hsize, hsig, hrole, rfl⟩
    rw [← hhash] at h
    rcases bind_eq_ok.1 h with ⟨⟨s', ctx', receipt⟩, happly, h⟩
    rcases bind_eq_ok.1 (wrapApply_eq_ok.1 happly) with ⟨ctx₁, hflag, happly⟩
    cases happly
    cases h
    refine ⟨⟨hsize, _, hpartial, hhash⟩, hnonce, fun _ => ⟨_, hpartial, hsig⟩, hrole,
      fun t ht => (by cases ht), hflag, rfl, fun _ hsame => ?_, rfl⟩
    cases hpartial.symm.trans hsame
    rw [← hhash]
    rfl
  | unknown base => cases h

section Rewarded

variable {ext : Externals} {env : ExecEnv} {tx : ProtocolTransaction} {i : Nat} {st st' : ExecState}

theorem Rewarded.idle (h : Rewarded ext env tx i st st') (hslot : st.ctx.slotNumber = 0) :
    st'.ctx = st.ctx := by
  have hflag := h.flag
  unfold StateContext.processAttestorsFlag at hflag
  rw [if_pos hslot] at hflag
  exact (Except.ok.inj hflag).symm

theorem Rewarded.frame (h : Rewarded ext env tx i st st') : SameFrame st.ctx st'.ctx := by
  by_cases hslot : st.ctx.slotNumber = 0
  · rw [h.idle hslot]
    rfl
  · rw [StateContext.processValidatorStakeAmount_of_ok
      (StateContext.processAttestorsFlag_of_ok hslot h.flag).2]
    rfl

end Rewarded

section Loops

variable {ext : Externals} {env : ExecEnv} {st st' : ExecState}

/-- What the protocol loop has counted of a list of keys: each was an unseen
    validator of the slot when it was counted, and each adds one stake. -/
structure Counted (ctx₀ : StateContext) (keys : List PublicKey) (ctx : StateContext) : Prop where
  frame : SameFrame ctx₀ ctx
  nodup : keys.Nodup
  assigned : ∀ pk ∈ keys, ctx₀.validatorsFlag.get pk = some false
  flags : ∀ pk, ctx.validatorsFlag.get pk =
    if pk ∈ keys then some true else ctx₀.validatorsFlag.get pk
  stake : ctx.currentBlockTotalStakeAmount =
    ctx₀.currentBlockTotalStakeAmount + keys.length * Config.stakeAmount.toNat

theorem Counted.nil (ctx : StateContext) : Counted ctx [] ctx :=
  { frame := rfl, nodup := List.nodup_nil, assigned := fun _ h => (nomatch h)
    flags := fun _ => rfl, stake := by simp only [List.length_nil]; omega }

theorem Counted.snoc {ctx₀ : StateContext} {keys : List PublicKey} {pk : PublicKey}
    {stakeBalance : Int} (h : Counted ctx₀ keys ctx)
    (hunseen : ctx.validatorsFlag.get pk = some false)
    (hcount : ctx.processValidatorStakeAmount c pk stakeBalance = .ok ctx') :
    Counted ctx₀ (keys ++ [pk]) ctx' := by
  have hnew : pk ∉ keys := by
    intro hmem
    rw [h.flags, if_pos hmem] at hunseen
    cases hunseen
  have hassigned : ctx₀.validatorsFlag.get pk = some false := by
    rw [h.flags, if_neg hnew] at hunseen
    exact hunseen
  have hctx := StateContext.processValidatorStakeAmount_of_ok hcount
  subst hctx
  refine ⟨h.frame.trans rfl, ?_, ?_, ?_, ?_⟩
  · exact List.nodup_append.2 ⟨h.nodup, List.nodup_singleton pk, fun a ha b hb hab =>
      hnew (List.mem_singleton.1 hb ▸ hab ▸ ha)⟩
  · intro key hkey
    rcases List.mem_append.1 hkey with hold | hlast
    · exact h.assigned key hold
    · rw [List.mem_singleton.1 hlast]
      exact hassigned
  · intro key
    simp only [AssocMap.get_put, List.mem_append, List.mem_singleton, h.flags]
    by_cases hk : pk = key
    · rw [if_pos hk, if_pos (.inr hk.symm)]
    · rw [if_neg hk]
      simp only [eq_comm (a := key), hk, or_false]
  · simp only [h.stake, List.length_append, List.length_singleton]
    push_cast
    rw [Int.add_mul, Int.one_mul, Int.add_assoc]

theorem Counted.processProtocolTx {ctx₀ : StateContext} {keys : List PublicKey}
    {txi : ProtocolTransaction × Nat} (h : Counted ctx₀ keys st.ctx)
    (hslot : ctx₀.slotNumber ≠ 0) (hok : processProtocolTx ext env st txi = .ok st') :
    Counted ctx₀ (keys ++ [txi.1.pk]) st'.ctx := by
  have hslot' : st.ctx.slotNumber ≠ 0 := by
    rw [h.frame]
    exact hslot
  rcases StateContext.processAttestorsFlag_of_ok hslot' (rewarded_of_processProtocolTx hok).flag with
    ⟨hunseen, hcount⟩
  exact h.snoc hunseen hcount

theorem markOTSIndex_ctx {tx : TxBase} (h : markOTSIndex ext tx st = .ok st') :
    st'.ctx = st.ctx := by
  unfold markOTSIndex at h
  rcases bind_eq_ok.1 h with ⟨addr, -, h⟩
  split at h
  · rcases bind_eq_ok.1 h with ⟨index, -, h⟩
    rcases bind_eq_ok.1 h with ⟨s, -, h⟩
    rw [pure_eq_ok] at h
    rw [← h]
  · rw [pure_eq_ok] at h
    rw [h]

theorem processTx_ctx {txi : Transaction × Nat} (h : processTx ext env st txi = .ok st') :
    st'.ctx = st.ctx := by
  rcases txi with ⟨tx, i⟩
  cases tx with
  | stake tx =>
    simp only [processTx] at h
    rcases bind_eq_ok.1 h with ⟨st₁, hstake, h⟩
    rw [markOTSIndex_ctx h]
    unfold processStake at hstake
    rcases bind_eq_ok.1 hstake with ⟨s, -, hstake⟩
    rcases bind_eq_ok.1 hstake with ⟨⟨gp, usedGas, receipt⟩, -, hstake⟩
    rw [pure_eq_ok] at hstake
    rw [← hstake]
  | transfer tx =>
    simp only [processTx] at h
    rcases bind_eq_ok.1 h with ⟨st₁, htransfer, h⟩
    rw [markOTSIndex_ctx h]
    unfold processTransfer at htransfer
    rcases bind_eq_ok.1 htransfer with ⟨s, -, htransfer⟩
    rcases bind_eq_ok.1 htransfer with ⟨msg, -, htransfer⟩
    rcases bind_eq_ok.1 htransfer with ⟨⟨s', gp, usedGas, receipt⟩, -, htransfer⟩
    rw [pure_eq_ok] at htransfer
    rw [← htransfer]
  | unknown base => cases h

theorem processTransactions_of_ok (h : processTransactions ext env st = .ok st') :
    ∃ tx rest mid, env.block.protocolTransactions = .coinBase tx :: rest ∧
      env.block.protocolTransactions.zipIdx.foldlM (processProtocolTx ext env) st = .ok mid ∧
      env.block.transactions.zipIdx.foldlM (processTx ext env) mid = .ok st' := by
  unfold processTransactions at h
  rcases bind_eq_ok.1 h with ⟨first, hfirst, h⟩
  unfold Block.firstProtocolTx at hfirst
  split at hfirst
  · cases hfirst
  · rename_i tx rest hlist
    cases hfirst
    split at h
    · rename_i tx
      rcases bind_eq_ok.1 h with ⟨mid, hprotocol, huser⟩
      exact ⟨tx, rest, mid, hlist, hprotocol, huser⟩
    · cases h

theorem counted_of_ok (hslot : st.ctx.slotNumber ≠ 0)
    (h : processTransactions ext env st = .ok st') :
    Counted st.ctx (env.block.protocolTransactions.map ProtocolTransaction.pk) st'.ctx := by
  rcases processTransactions_of_ok h with ⟨-, -, mid, -, hprotocol, huser⟩
  have hmid : Counted st.ctx (env.block.protocolTransactions.zipIdx.map (fun txi => txi.1.pk))
      mid.ctx := by
    refine foldlM_prefix
      (fun (done : List (ProtocolTransaction × Nat)) (mid : ExecState) =>
        Counted st.ctx (done.map (fun txi => txi.1.pk)) mid.ctx) _ ?_
      (Counted.nil st.ctx) hprotocol
    intro done a txi b hdone hstep
    rw [List.map_append]
    exact hdone.processProtocolTx hslot hstep
  have hsame : st'.ctx = mid.ctx := foldlM_invariant (fun s => s.ctx = mid.ctx) _
    (fun a txi b _ ha hstep => (processTx_ctx hstep).trans ha) rfl huser
  rw [hsame, ← List.zipIdx_map_fst 0 env.block.protocolTransactions, List.map_map]
  exact hmid

end Loops

namespace Chain

variable {ext : Externals} {c c' : Chain} {now : UInt64} {b parentBlock : Block}

theorem rejectOnError_eq_some {α : Type} {x : Go α} {a : α} :
    rejectOnError x = .ok (some a) ↔ x = .ok a := by
  unfold rejectOnError
  split
  · simp only [Except.ok.injEq, Option.some.injEq]
  · simp only [Except.ok.injEq, reduceCtorEq]
  · simp only [reduceCtorEq]

theorem addBlock_cases {added : Bool} (h : c.addBlock ext now b = .ok (added, c')) :
    added = false ∧ c' = c ∨ added = true ∧ ∃ parentBlock p,
      checkBlock ext c now b = .ok (some parentBlock) ∧
      processBlock ext c b parentBlock = .ok p ∧ finishBlock c parentBlock p = .ok c' := by
  rcases bind_eq_ok.1 h with ⟨checked, hchecked, h⟩
  split at h
  · rename_i parentBlock
    rcases bind_eq_ok.1 h with ⟨processed, hprocessed, h⟩
    split at h
    · rename_i p
      rcases bind_eq_ok.1 h with ⟨next, hfinish, h⟩
      rcases h with ⟨rfl, rfl⟩
      exact .inr ⟨rfl, parentBlock, p, rejectOnError_eq_some.1 hchecked,
        rejectOnError_eq_some.1 hprocessed, hfinish⟩
    · simp only [pure_eq_ok, Prod.mk.injEq] at h
      exact .inl ⟨h.1.symm, h.2.symm⟩
  · simp only [pure_eq_ok, Prod.mk.injEq] at h
    exact .inl ⟨h.1.symm, h.2.symm⟩

theorem checkBlock_of_some (h : checkBlock ext c now b = .ok (some parentBlock)) :
    b.computeBlockHash ext.toCrypto = .ok b.hash ∧
      b.slotNumber ≤ getMaxPossibleSlotNumber now ∧
      ∃ m, c.db.mainChainMetaData = some m ∧ c.db.blocks.get b.parentHash = some parentBlock ∧
        m.finalizedBlockSlotNumber ≤ parentBlock.slotNumber := by
  unfold checkBlock at h
  rcases bind_eq_ok.1 h with ⟨expected, hexpected, h⟩
  split at h
  · simp only [pure_eq_ok, reduceCtorEq] at h
  · rename_i hhash
    split at h
    · simp only [pure_eq_ok, reduceCtorEq] at h
    · rename_i hslot
      rcases bind_eq_ok.1 h with ⟨m, hm, h⟩
      rcases bind_eq_ok.1 h with ⟨parent, hparent, h⟩
      split at h
      · simp only [pure_eq_ok, reduceCtorEq] at h
      · rename_i hfinal
        split at h
        · simp only [pure_eq_ok, reduceCtorEq] at h
        · simp only [pure_eq_ok, Option.some.injEq] at h
          subst h
          exact ⟨Decidable.not_not.1 hhash ▸ hexpected, UInt64.not_lt.1 hslot, m,
            orFail_eq_ok.1 hm, orFail_eq_ok.1 hparent, UInt64.not_lt.1 hfinal⟩

/-- What a block is processed with: the parent's record, the state after the epoch
    bookkeeping and the context its signers are counted in. -/
theorem processBlock_of_ok (h : processBlock ext c b parentBlock = .ok p) :
    ∃ pm s s₁ e validators partialHash signingHash ctx,
      c.db.blockMetaData.get b.parentHash = some pm ∧ openState c.tries pm.trieRoot = .ok s ∧
      calculateEpochMetaData ext c.db s b.slotNumber b.parentHash = .ok (s₁, e) ∧
      StateContext.new c.db b.slotNumber b.parentHash b.hash partialHash signingHash e
        = .ok ctx ∧
      process ext b parentBlock s₁ ctx validators c.db c.tries = .ok p := by
  rcases bind_eq_ok.1 h with ⟨pm, hpm, h⟩
  rcases bind_eq_ok.1 h with ⟨s, hs, h⟩
  rcases bind_eq_ok.1 h with ⟨⟨s₁, e⟩, hcalc, h⟩
  rcases bind_eq_ok.1 h with ⟨validators, -, h⟩
  rcases bind_eq_ok.1 h with ⟨partialHash, -, h⟩
  rcases bind_eq_ok.1 h with ⟨signingHash, -, h⟩
  rcases bind_eq_ok.1 h with ⟨ctx, hctx, h⟩
  exact ⟨pm, s, s₁, e, validators, partialHash, signingHash, ctx, orFail_eq_ok.1 hpm, hs,
    hcalc, hctx, h⟩

end Chain

section SlotValidators

variable {v : SlotValidatorsMetaData} {leader pk : PublicKey} {attestors : List PublicKey}

theorem mem_of_isAttestor (hv : v.validatorsType =
      attestors.foldl (fun m pk => m.put pk false) (AssocMap.empty.put leader true))
    (h : v.IsAttestor pk) : pk ∈ attestors := by
  unfold SlotValidatorsMetaData.IsAttestor at h
  rw [hv, AssocMap.get_foldl_put_const, AssocMap.get_put] at h
  by_cases hmem : pk ∈ attestors
  · exact hmem
  · rw [if_neg hmem] at h
    by_cases heq : leader = pk
    · rw [if_pos heq] at h
      cases h
    · rw [if_neg heq] at h
      cases h

theorem eq_of_isSlotLeader (hv : v.validatorsType =
      attestors.foldl (fun m pk => m.put pk false) (AssocMap.empty.put leader true))
    (h : v.IsSlotLeader pk) : pk = leader := by
  unfold SlotValidatorsMetaData.IsSlotLeader at h
  rw [hv, AssocMap.get_foldl_put_const, AssocMap.get_put] at h
  by_cases hmem : pk ∈ attestors
  · rw [if_pos hmem] at h
    cases h
  · rw [if_neg hmem] at h
    by_cases heq : leader = pk
    · exact heq.symm
    · rw [if_neg heq] at h
      cases h

end SlotValidators

theorem StateContext.new_of_ok {slotNumber : UInt64}
    {parentHash hash partialHash signingHash : Hash} {e : EpochMetaData}
    (h : StateContext.new db slotNumber parentHash hash partialHash signingHash e = .ok ctx) :
    ctx.slotNumber = slotNumber ∧ ctx.parentBlockHeaderHash = parentHash ∧
      ctx.blockHeaderHash = hash ∧ ctx.epochMetaData = e ∧
      db.mainChainMetaData = some ctx.mainChainMetaData ∧
      ctx.currentBlockTotalStakeAmount = 0 ∧
      StateContext.initialFlags slotNumber e = .ok ctx.validatorsFlag := by
  unfold StateContext.new at h
  rcases bind_eq_ok.1 h with ⟨m, hm, h⟩
  rcases bind_eq_ok.1 h with ⟨flags, hflags, h⟩
  rw [pure_eq_ok] at h
  subst h
  exact ⟨rfl, rfl, rfl, rfl, orFail_eq_ok.1 hm, rfl, hflags⟩

theorem StateContext.new_epochBlockHashes {slotNumber : UInt64}
    {parentHash hash partialHash signingHash : Hash} {e : EpochMetaData}
    (h : StateContext.new db slotNumber parentHash hash partialHash signingHash e = .ok ctx) :
    ctx.epochBlockHashes = db.getEpochBlockHashes (epochOf slotNumber) := by
  unfold StateContext.new at h
  rcases bind_eq_ok.1 h with ⟨m, -, h⟩
  rcases bind_eq_ok.1 h with ⟨flags, -, h⟩
  rw [pure_eq_ok] at h
  rw [← h]

theorem process_of_ok {ext : Externals} {b parentBlock : Block}
    {validators : SlotValidatorsMetaData} {tries : Tries}
    (h : process ext b parentBlock s ctx validators db tries = .ok p) :
    ∃ env st₀ st, newExec ext b db.getBlockHashBySlotNumber parentBlock.slotNumber s ctx
        validators false = .ok (env, st₀) ∧ env.block = b ∧ st₀.ctx = ctx ∧ st₀.statedb = s ∧
      processTransactions ext env st₀ = .ok st ∧ sealBlock ext b st false db tries = .ok p := by
  rcases bind_eq_ok.1 h with ⟨⟨env, st₀⟩, hexec, h⟩
  rcases bind_eq_ok.1 h with ⟨st, hloops, hseal⟩
  refine ⟨env, st₀, st, hexec, ?_⟩
  rcases bind_eq_ok.1 hexec with ⟨minter, -, hexec⟩
  rcases hexec with ⟨rfl, rfl⟩
  exact ⟨rfl, rfl, rfl, hloops, hseal⟩

theorem sealBlock_of_ok {ext : Externals} {b : Block} {st : ExecState} {isFinalized : Bool}
    {tries : Tries} (h : sealBlock ext b st isFinalized db tries = .ok p) :
    ∃ protocolTxBloom txBloom, p.block = b.updateRoots p.trieRoot protocolTxBloom txBloom ∧
      p.trieRoot = ext.stateRoot st.statedb.finalise.commit.get ∧
      p.tries = tries.putNew p.trieRoot st.statedb.finalise.commit ∧
      commit st.ctx p.block st.protocolTxReceipts st.txReceipts p.trieRoot isFinalized db
        = .ok (p.ctx, p.db) := by
  unfold sealBlock at h
  rcases bind_eq_ok.1 h with ⟨⟨ctx, db'⟩, hcommit, h⟩
  rw [pure_eq_ok] at h
  subst h
  exact ⟨_, _, rfl, rfl, rfl, hcommit⟩

end Zond
