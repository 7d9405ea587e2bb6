import Zond.Theory.Commitment
import Zond.Theory.Conduct

/-!
# Block Gas

A stake takes a fixed amount from the gas pool of a block, a transfer takes its limit and
puts back what is left and what is refunded; both add what they used to a running sum, in
`uint64`. The interpreter is given, and may do anything with the gas of a contract but
make more of it.

## Main definitions

* `ExecState.Balanced`: The sum and the pool make up the limit of the header.

## Theorems

* `gas_accounted`: They always do, so the sum never wraps and the pool never overflows.
-/

namespace Zond

open Outcome

/-- The interpreter hands back no more gas than it was given. -/
def Externals.Frugal (ext : Externals) : Prop :=
  ∀ ctx txCtx s contract input, (ext.interpreterRun ctx txCtx s contract input).gas ≤ contract.gas

section Frames

variable {ext : Externals} {ctx : BlockContext} {txCtx : TxContext} {s : StateDB}
variable {caller addr : Address} {input code : List UInt8} {gas : UInt64} {value : Int}

theorem sub_le (x y : UInt64) (h : y ≤ x) : x - y ≤ x := by
  rw [UInt64.le_iff_toNat_le] at h ⊢
  rw [UInt64.toNat_sub_of_le x y (UInt64.le_iff_toNat_le.2 h)]
  omega

theorem gas_runPrecompiledContract_le :
    (Vm.runPrecompiledContract ext s addr input gas).gas ≤ gas := by
  unfold Vm.runPrecompiledContract
  by_cases hlt : gas < ext.precompileRequiredGas addr input
  · rw [if_pos hlt]
    exact UInt64.zero_le
  · rw [if_neg hlt]
    have hle := sub_le gas _ (UInt64.not_lt.1 hlt)
    cases ext.precompileRun addr input with
    | ok | error => exact hle

theorem gas_closeFrame_le {r : FrameResult} (h : r.gas ≤ gas) : (Vm.closeFrame s r).gas ≤ gas := by
  unfold Vm.closeFrame
  cases r.err with
  | none => exact h
  | some e =>
    dsimp only
    by_cases he : e = .executionReverted
    · rw [if_pos he]
      exact h
    · rw [if_neg he]
      exact UInt64.zero_le

theorem gas_runCode_le (hext : ext.Frugal) :
    (Vm.runCode ext ctx txCtx s caller addr input gas value).gas ≤ gas := by
  unfold Vm.runCode
  by_cases hpre : addr ∈ precompiledContracts
  · rw [if_pos hpre]
    exact gas_runPrecompiledContract_le
  · rw [if_neg hpre]
    split
    · exact UInt64.le_refl gas
    · exact hext ctx txCtx s _ input

theorem gas_call_le (hext : ext.Frugal) :
    (Vm.call ext ctx txCtx s caller addr input gas value).gas ≤ gas := by
  unfold Vm.call
  split
  · exact UInt64.le_refl gas
  · split
    · exact UInt64.le_refl gas
    · exact gas_closeFrame_le (gas_runCode_le hext)

theorem gas_storeCode_le {r : FrameResult} (h : r.gas ≤ gas) : (Vm.storeCode addr r).gas ≤ gas := by
  unfold Vm.storeCode
  split
  · exact h
  · split
    · exact h
    · split
      · exact h
      · dsimp only
        split
        · exact h
        · rename_i hlt
          exact UInt64.le_trans (sub_le _ _ (UInt64.not_lt.1 hlt)) h

theorem gas_create_le (hext : ext.Frugal) :
    (Vm.create ext ctx txCtx s caller code gas value).gas ≤ gas := by
  unfold Vm.create
  dsimp only
  split
  · exact UInt64.le_refl gas
  · split
    · exact UInt64.le_refl gas
    · split
      · exact UInt64.zero_le
      · exact gas_closeFrame_le (gas_storeCode_le (hext ctx txCtx _ _ []))

theorem gas_execute_le (hext : ext.Frugal) (msg : Message) :
    (execute ext ctx msg s gas).gas ≤ gas := by
  unfold execute
  split
  · exact gas_create_le hext
  · exact gas_call_le hext

end Frames

section Messages

variable {ext : Externals} {ctx : BlockContext} {msg : Message} {s s' : StateDB}
variable {gp gp' : UInt64} {result : ExecutionResult}

theorem addGas_ok {amount : UInt64} (h : gp.toNat + amount.toNat < 2 ^ 64) :
    GasPool.addGas gp amount = .ok (gp + amount) := by
  unfold GasPool.addGas
  have hle : amount ≤ 0xFFFFFFFFFFFFFFFF := by
    rw [UInt64.le_iff_toNat_le]
    exact Nat.le_of_lt_succ amount.toNat_lt
  have hmax : (0xFFFFFFFFFFFFFFFF : UInt64).toNat = 2 ^ 64 - 1 := rfl
  rw [if_neg]
  rw [UInt64.lt_iff_toNat_lt, UInt64.toNat_sub_of_le _ _ hle, hmax]
  omega

theorem refundedGas_lt {gas : UInt64} (hext : ext.Frugal)
    (hgas : intrinsicGas msg.data msg.toAddr.isNone = .ok gas) (hcover : gas ≤ msg.gas)
    (s : StateDB) : (refundedGas msg.gas (execute ext ctx msg s (msg.gas - gas)).gas
      (execute ext ctx msg s (msg.gas - gas)).state.refund).toNat < msg.gas.toNat := by
  have hbase := intrinsicGas_le hgas
  have hleft := UInt64.le_iff_toNat_le.1 (@gas_execute_le ext ctx s (msg.gas - gas) hext msg)
  have hcover' := UInt64.le_iff_toNat_le.1 hcover
  rw [UInt64.toNat_sub_of_le _ _ hcover] at hleft
  have hlt : (execute ext ctx msg s (msg.gas - gas)).gas < msg.gas := by
    rw [UInt64.lt_iff_toNat_lt]
    omega
  have hback := toNat_refundedGas (execute ext ctx msg s (msg.gas - gas)).state.refund
    (UInt64.le_of_lt hlt)
  have hlt' := UInt64.lt_iff_toNat_lt.1 hlt
  omega

theorem gas_transitionDb (hext : ext.Frugal)
    (h : transitionDb ext ctx msg s gp = .ok (s', gp', result)) :
    gp'.toNat + result.usedGas.toNat = gp.toNat ∧ 0 < result.usedGas.toNat := by
  rcases transitionDb_of_ok h with ⟨gas, hgas, hcover, hchecked, -, hsettle⟩
  have hback := @refundedGas_lt ext ctx msg gas hext hgas hcover
    ((s.subBalance msg.sender (msg.gas.toNat * msg.gasPrice)).prepareAccessList msg.sender
      msg.toAddr precompiledContracts)
  rcases settleGas_of_ok hsettle with ⟨-, hused⟩
  unfold settleGas at hsettle
  rcases bind_eq_ok.1 hsettle with ⟨pool, hpool, hend⟩
  simp only [pure_eq_ok, Prod.mk.injEq] at hend
  rcases hend with ⟨-, rfl, -⟩
  have hgp := UInt64.le_iff_toNat_le.1 hchecked.pool
  have hbound := gp.toNat_lt
  have hrest := UInt64.toNat_sub_of_le _ _ hchecked.pool
  rw [addGas_ok (by omega), Except.ok.injEq] at hpool
  rw [hused, ← hpool, UInt64.toNat_add, hrest,
    UInt64.toNat_sub_of_le _ _ (UInt64.le_iff_toNat_le.2 (Nat.le_of_lt hback)),
    Nat.mod_eq_of_lt (by omega)]
  omega

end Messages

/-- What a transaction takes from the pool and adds to the sum, with the receipt it leaves. -/
structure Charged (st st' : ExecState) (gas : UInt64) (r : Receipt) : Prop where
  receipts : st'.txReceipts = st.txReceipts ++ [r]
  cumulative : r.cumulativeGasUsed = st'.usedGas
  sum : st'.usedGas = st.usedGas + gas
  pool : st'.gp.toNat + gas.toNat = st.gp.toNat
  pos : 0 < gas.toNat

section Transactions

variable {ext : Externals} {env : ExecEnv} {st st' : ExecState} {i : Nat}

theorem charged_processStake {tx : Stake} (h : processStake ext env st i tx = .ok st') :
    ∃ r, Charged st st' Config.stakeTxGas r := by
  unfold processStake at h
  rcases bind_eq_ok.1 h with ⟨s, -, h⟩
  rcases bind_eq_ok.1 h with ⟨⟨gp, usedGas, receipt⟩, happly, h⟩
  rw [wrapApply_eq_ok] at happly
  rcases bind_eq_ok.1 happly with ⟨pool, hpool, hreceipt⟩
  simp only [pure_eq_ok, Prod.mk.injEq] at hreceipt
  rcases hreceipt with ⟨rfl, rfl, rfl⟩
  cases h
  rcases subGas_eq_ok.1 hpool with ⟨hle, rfl⟩
  refine ⟨_, rfl, rfl, rfl, ?_, by decide⟩
  have hle' := UInt64.le_iff_toNat_le.1 hle
  rw [UInt64.toNat_sub_of_le _ _ hle]
  omega

theorem charged_processTransfer {tx : Transfer} (hext : ext.Frugal)
    (h : processTransfer ext env st i tx = .ok st') : ∃ gas r, Charged st st' gas r := by
  unfold processTransfer at h
  rcases bind_eq_ok.1 h with ⟨s, -, h⟩
  rcases bind_eq_ok.1 h with ⟨msg, -, h⟩
  rcases bind_eq_ok.1 h with ⟨⟨s', gp, usedGas, receipt⟩, happly, h⟩
  rw [wrapApply_eq_ok] at happly
  rcases bind_eq_ok.1 happly with ⟨⟨s₁, gp₁, result⟩, htrans, hreceipt⟩
  simp only [pure_eq_ok, Prod.mk.injEq] at hreceipt
  rcases hreceipt with ⟨rfl, rfl, rfl, rfl⟩
  cases h
  rcases gas_transitionDb hext htrans with ⟨hpool, hpos⟩
  exact ⟨result.usedGas, _, rfl, rfl, rfl, hpool, hpos⟩

theorem charged_markOTSIndex {tx : TxBase} {mid : ExecState} {gas : UInt64} {r : Receipt}
    (hmid : Charged st mid gas r) (h : markOTSIndex ext tx mid = .ok st') :
    Charged st st' gas r := by
  rcases bind_eq_ok.1 h with ⟨addr, -, h⟩
  split at h
  · rcases bind_eq_ok.1 h with ⟨index, -, h⟩
    rcases bind_eq_ok.1 h with ⟨s, -, h⟩
    cases h
    exact ⟨hmid.receipts, hmid.cumulative, hmid.sum, hmid.pool, hmid.pos⟩
  · cases h
    exact hmid

theorem charged_processTx {tx : Transaction} (hext : ext.Frugal)
    (h : processTx ext env st (tx, i) = .ok st') : ∃ gas r, Charged st st' gas r := by
  cases tx with
  | stake tx =>
    rcases bind_eq_ok.1 h with ⟨mid, hstake, hmark⟩
    rcases charged_processStake hstake with ⟨r, hr⟩
    exact ⟨_, r, charged_markOTSIndex hr hmark⟩
  | transfer tx =>
    rcases bind_eq_ok.1 h with ⟨mid, htransfer, hmark⟩
    rcases charged_processTransfer hext htransfer with ⟨gas, r, hr⟩
    exact ⟨gas, r, charged_markOTSIndex hr hmark⟩
  | unknown base => cases h

end Transactions

/-- The sum and the pool make up the limit, and the sums in the receipts have led up to it. -/
structure ExecState.Balanced (limit : UInt64) (st : ExecState) : Prop where
  total : st.usedGas.toNat + st.gp.toNat = limit.toNat
  last : ∀ r, st.txReceipts.getLast? = some r → r.cumulativeGasUsed = st.usedGas
  reached : ∀ r ∈ st.txReceipts, r.cumulativeGasUsed.toNat ≤ st.usedGas.toNat
  rises : st.txReceipts.Pairwise
    (fun r r' => r.cumulativeGasUsed.toNat < r'.cumulativeGasUsed.toNat)

section Blocks

variable {ext : Externals} {env : ExecEnv} {st st' : ExecState} {limit : UInt64}

theorem Charged.balanced {gas : UInt64} {r : Receipt} (h : Charged st st' gas r)
    (hst : st.Balanced limit) : st'.Balanced limit := by
  have htotal := hst.total
  have hpool := h.pool
  have hpos := h.pos
  have hbound := limit.toNat_lt
  -- What the transaction used was in the pool, so the sum does not wrap.
  have hsum : st'.usedGas.toNat = st.usedGas.toNat + gas.toNat := by
    rw [h.sum, UInt64.toNat_add, Nat.mod_eq_of_lt (by omega)]
  have hr : r.cumulativeGasUsed.toNat = st'.usedGas.toNat := congrArg UInt64.toNat h.cumulative
  refine ⟨by omega, fun r' hr' => ?_, fun r' hr' => ?_, ?_⟩
  · rw [h.receipts, List.getLast?_append, List.getLast?_singleton, Option.some_or] at hr'
    cases hr'
    exact h.cumulative
  · rw [h.receipts, List.mem_append, List.mem_singleton] at hr'
    rcases hr' with hr' | rfl
    · have hreached := hst.reached r' hr'
      omega
    · omega
  · rw [h.receipts]
    refine List.pairwise_append.2 ⟨hst.rises, List.pairwise_singleton _ _, fun r₁ hr₁ r₂ hr₂ => ?_⟩
    rw [List.mem_singleton.1 hr₂]
    have hreached := hst.reached r₁ hr₁
    omega

theorem balanced_processProtocolTx {txi : ProtocolTransaction × Nat} (hst : st.Balanced limit)
    (h : processProtocolTx ext env st txi = .ok st') : st'.Balanced limit := by
  rw [(rewarded_of_processProtocolTx h).rest]
  exact ⟨hst.total, hst.last, hst.reached, hst.rises⟩

theorem balanced_processUpTo {n : Nat} (hext : ext.Frugal) (hst : st.Balanced limit)
    (h : processUpTo ext env st n = .ok st') : st'.Balanced limit := by
  rcases bind_eq_ok.1 h with ⟨mid, hprotocol, huser⟩
  have hmid : mid.Balanced limit := by
    refine foldlM_invariant (ExecState.Balanced limit) _ (fun st txi st' _ hst h => ?_) hst hprotocol
    exact balanced_processProtocolTx hst h
  refine foldlM_invariant (ExecState.Balanced limit) _ (fun st txi st' _ hst h => ?_) hmid huser
  rcases charged_processTx hext h with ⟨gas, r, hcharged⟩
  exact hcharged.balanced hst

theorem balanced_newExec {b : Block} {getHash : UInt64 → Hash} {parentSlotNumber : UInt64}
    {s : StateDB} {ctx : StateContext} {validators : SlotValidatorsMetaData} {isGenesis : Bool}
    (h : newExec ext b getHash parentSlotNumber s ctx validators isGenesis = .ok (env, st)) :
    env.block = b ∧ st.Balanced b.header.gasLimit := by
  rcases bind_eq_ok.1 h with ⟨minter, -, h⟩
  cases h
  refine ⟨rfl, ?_, fun r hr => (nomatch hr), fun r hr => (nomatch hr), List.Pairwise.nil⟩
  exact Nat.zero_add _

end Blocks

/-- The computation does not overflow the pool. -/
def PoolSafe {α : Type} (x : Go α) : Prop := FailsOnly (fun f => f ≠ .panic .gasPoolOverflow) x

section PoolSafe

variable {α : Type} {ext : Externals} {c : Crypto} {s : StateDB}

theorem poolSafe_error (e : Err) : PoolSafe (.error (.error e) : Go α) :=
  failsOnly_error_iff.2 (fun h => (nomatch h))

theorem poolSafe_errorIf (bad : Prop) [Decidable bad] (e : Err) : PoolSafe (errorIf bad e) :=
  failsOnly_failIf (fun _ h => (nomatch h))

theorem poolSafe_wrapApply {label : TxLabel} {index : Nat} {txHash : Hash} {r : Go α}
    (h : PoolSafe r) : PoolSafe (wrapApply label index txHash r) := by
  intro f hf
  unfold wrapApply at hf
  split at hf
  · cases hf
    exact fun h => (nomatch h)
  · exact h f hf

theorem poolSafe_addrFrom (tx : TxBase) : PoolSafe (tx.addrFrom c) := by
  unfold TxBase.addrFrom
  dsimp only
  split
  · exact failsOnly_error_iff.2 (fun h => (nomatch h))
  · exact failsOnly_ok _

theorem poolSafe_otsIndex (tx : TxBase) : PoolSafe tx.otsIndex := by
  unfold TxBase.otsIndex
  split
  · exact failsOnly_ok _
  · exact failsOnly_error_iff.2 (fun h => (nomatch h))

theorem poolSafe_checkSignature (valid : Option Bool) (e : Err) :
    PoolSafe (checkSignature valid e) := by
  refine FailsOnly.bind ?_ (fun _ _ => poolSafe_errorIf _ _)
  cases valid with
  | none => exact failsOnly_error_iff.2 (fun h => (nomatch h))
  | some _ => exact failsOnly_ok _

theorem poolSafe_validateStakeTxn (tx : Stake) : PoolSafe (validateStakeTxn c tx s) := by
  refine FailsOnly.bind (FailsOnly.bind (poolSafe_addrFrom _) (fun addr _ => ?_)) (fun _ _ => ?_)
  · repeat refine FailsOnly.bind (poolSafe_errorIf _ _) (fun _ _ => ?_)
    exact failsOnly_pure _
  · exact FailsOnly.bind (poolSafe_checkSignature _ _) (fun _ _ => failsOnly_pure _)

theorem poolSafe_checkOTSIndex (tx : Transfer) (addr : Address) :
    PoolSafe (checkOTSIndex c tx addr s) := by
  unfold checkOTSIndex
  split
  · exact FailsOnly.bind (poolSafe_otsIndex _) (fun _ _ => poolSafe_errorIf _ _)
  · exact failsOnly_ok _

theorem poolSafe_checkAddrTo (tx : Transfer) : PoolSafe (checkAddrTo c tx s) := by
  unfold checkAddrTo
  split
  · exact failsOnly_ok _
  · exact poolSafe_errorIf _ _

theorem poolSafe_checkTransferSignature (tx : Transfer) (addr : Address) :
    PoolSafe (checkTransferSignature c tx addr) := by
  unfold checkTransferSignature
  split
  · exact poolSafe_checkSignature _ _
  · split
    · exact poolSafe_checkSignature _ _
    · exact failsOnly_ok _

theorem poolSafe_validateTransferTxn (tx : Transfer) : PoolSafe (validateTransferTxn c tx s) := by
  refine FailsOnly.bind ?_ (fun r _ =>
    FailsOnly.bind (poolSafe_checkTransferSignature tx r.1) (fun _ _ => failsOnly_pure _))
  refine FailsOnly.bind (poolSafe_addrFrom _) (fun addr _ => ?_)
  refine FailsOnly.bind (poolSafe_errorIf _ _) (fun _ _ => ?_)
  refine FailsOnly.bind (poolSafe_errorIf _ _) (fun _ _ => ?_)
  refine FailsOnly.bind (poolSafe_checkOTSIndex tx addr) (fun _ _ => ?_)
  refine FailsOnly.bind (poolSafe_errorIf _ _) (fun _ _ => ?_)
  refine FailsOnly.bind (poolSafe_errorIf _ _) (fun _ _ => ?_)
  refine FailsOnly.bind (poolSafe_checkAddrTo tx) (fun _ _ => ?_)
  refine FailsOnly.bind (poolSafe_errorIf _ _) (fun _ _ => ?_)
  refine FailsOnly.bind (poolSafe_errorIf _ _) (fun _ _ => ?_)
  refine FailsOnly.bind (poolSafe_errorIf _ _) (fun _ _ => ?_)
  exact failsOnly_pure _

theorem poolSafe_subGas (gp amount : UInt64) : PoolSafe (GasPool.subGas gp amount) := by
  unfold GasPool.subGas
  split
  · exact poolSafe_error _
  · exact failsOnly_ok _

theorem poolSafe_intrinsicGas (data : List UInt8) (creation : Bool) :
    PoolSafe (intrinsicGas data creation) := by
  have hcharge (gas price count : UInt64) : PoolSafe (chargeBytes gas price count) :=
    FailsOnly.bind (poolSafe_errorIf _ _) (fun _ _ => failsOnly_pure _)
  unfold intrinsicGas
  dsimp only
  split
  · exact failsOnly_ok _
  · exact FailsOnly.bind (hcharge _ _ _) (fun _ _ => hcharge _ _ _)

theorem poolSafe_preCheck (ctx : BlockContext) (msg : Message) (gp : UInt64) :
    PoolSafe (preCheck ctx msg s gp) := by
  repeat refine FailsOnly.bind (poolSafe_errorIf _ _) (fun _ _ => ?_)
  exact FailsOnly.bind (poolSafe_subGas _ _) (fun _ _ => failsOnly_pure _)

theorem poolSafe_transitionDb (hext : ext.Frugal) (ctx : BlockContext) (msg : Message)
    (gp : UInt64) : PoolSafe (transitionDb ext ctx msg s gp) := by
  unfold transitionDb
  refine FailsOnly.bind (poolSafe_preCheck ctx msg gp) (fun ⟨s', gp'⟩ hpre => ?_)
  rcases preCheck_of_ok hpre with ⟨hchecked, rfl, rfl⟩
  refine FailsOnly.bind (poolSafe_intrinsicGas _ _) (fun gas hgas => ?_)
  refine FailsOnly.bind (poolSafe_errorIf _ _) (fun _ hcover => ?_)
  refine FailsOnly.bind (poolSafe_errorIf _ _) (fun _ _ => ?_)
  have hback := @refundedGas_lt ext ctx msg gas hext hgas (UInt64.not_lt.1 (errorIf_eq_ok.1 hcover))
    ((s.subBalance msg.sender (msg.gas.toNat * msg.gasPrice)).prepareAccessList msg.sender
      msg.toAddr precompiledContracts)
  have hpool := UInt64.le_iff_toNat_le.1 hchecked.pool
  have hbound := gp.toNat_lt
  have hrest := UInt64.toNat_sub_of_le _ _ hchecked.pool
  unfold settleGas
  dsimp only
  rw [addGas_ok (by omega)]
  exact failsOnly_ok _

theorem poolSafe_markOTSIndex (tx : TxBase) (st : ExecState) :
    PoolSafe (markOTSIndex ext tx st) := by
  have hset (s : StateDB) (addr : Address) (index : Nat) :
      PoolSafe (s.setOTSBitfield addr index) := by
    unfold StateDB.setOTSBitfield
    dsimp only
    split
    · exact failsOnly_error_iff.2 (fun h => (nomatch h))
    · exact failsOnly_ok _
  unfold markOTSIndex
  refine FailsOnly.bind (poolSafe_addrFrom _) (fun addr _ => ?_)
  split
  · refine FailsOnly.bind (poolSafe_otsIndex _) (fun index _ => ?_)
    exact FailsOnly.bind (hset _ _ _) (fun _ _ => failsOnly_pure _)
  · exact failsOnly_pure _

theorem poolSafe_processTx (hext : ext.Frugal) (env : ExecEnv) (st : ExecState)
    (txi : Transaction × Nat) : PoolSafe (processTx ext env st txi) := by
  unfold processTx
  split
  · refine FailsOnly.bind ?_ (fun _ _ => poolSafe_markOTSIndex _ _)
    refine FailsOnly.bind (poolSafe_validateStakeTxn _) (fun s _ => ?_)
    refine FailsOnly.bind (poolSafe_wrapApply ?_) (fun _ _ => failsOnly_pure _)
    exact FailsOnly.bind (poolSafe_subGas _ _) (fun _ _ => failsOnly_pure _)
  · refine FailsOnly.bind ?_ (fun _ _ => poolSafe_markOTSIndex _ _)
    refine FailsOnly.bind (poolSafe_validateTransferTxn _) (fun s _ => ?_)
    refine FailsOnly.bind (FailsOnly.bind (poolSafe_addrFrom _) (fun _ _ => failsOnly_pure _))
      (fun msg _ => ?_)
    refine FailsOnly.bind (poolSafe_wrapApply ?_) (fun _ _ => failsOnly_pure _)
    exact FailsOnly.bind (poolSafe_transitionDb hext _ _ _) (fun _ _ => failsOnly_pure _)
  · exact failsOnly_error_iff.2 (fun h => (nomatch h))

end PoolSafe

/-- The gas of a block. Let the loops of `Process` or `ProcessGenesis` run for some of the
    transactions: the sum so far and the gas left in the pool make up the limit of the header,
    the last receipt has that sum, the sums in the receipts have risen to it without passing
    the limit, and whatever comes next does not overflow the pool. -/
theorem gas_accounted (ext : Externals) (hext : ext.Frugal) (b : Block)
    (getHash : UInt64 → Hash) (parentSlotNumber : UInt64) (s : StateDB) (ctx : StateContext)
    (validators : SlotValidatorsMetaData) (isGenesis : Bool) (env : ExecEnv) (st₀ : ExecState)
    (hnew : newExec ext b getHash parentSlotNumber s ctx validators isGenesis = .ok (env, st₀))
    (n : Nat) (st : ExecState) (hst : processUpTo ext env st₀ n = .ok st) :
    st.usedGas.toNat + st.gp.toNat = b.header.gasLimit.toNat ∧
      (∀ r, st.txReceipts.getLast? = some r → r.cumulativeGasUsed = st.usedGas) ∧
      (∀ r ∈ st.txReceipts, r.cumulativeGasUsed.toNat ≤ b.header.gasLimit.toNat) ∧
      st.txReceipts.Pairwise
        (fun r r' => r.cumulativeGasUsed.toNat < r'.cumulativeGasUsed.toNat) ∧
      ∀ tx, processTx ext env st (tx, n) ≠ .error (.panic .gasPoolOverflow) := by
  rcases balanced_newExec hnew with ⟨-, hstart⟩
  have hbalanced := balanced_processUpTo hext hstart hst
  refine ⟨hbalanced.total, hbalanced.last, fun r hr => ?_, hbalanced.rises, fun tx hpanic => ?_⟩
  · have hreached := hbalanced.reached r hr
    have htotal := hbalanced.total
    omega
  · exact poolSafe_processTx hext env st (tx, n) _ hpanic rfl

theorem toyExternals_frugal : toyExternals.Frugal := fun _ _ _ _ _ => UInt64.le_refl _

def toyMixed : Block :=
  toyBlock 1 100 toyGenesis.hash
    [.transfer (toyTransferTx 2 (toyAddress 3).val 5 1), toyStakeTx 2 0 2] 2

theorem toyMixed_accounted : ∃ c₀ p env st₀ st,
    genesisChain toyExternals toyGenesis toyPreState = .ok c₀ ∧
    c₀.processBlock toyExternals toyMixed toyGenesis = .ok p ∧
    processTransactions toyExternals env st₀ = .ok st ∧ st.txReceipts = p.txReceipts ∧
    st.usedGas.toNat + st.gp.toNat = toyMixed.header.gasLimit.toNat := by
  have hcheck : (genesisChain toyExternals toyGenesis toyPreState >>= fun c₀ =>
      c₀.processBlock toyExternals toyMixed toyGenesis >>= fun _ => pure true) = .ok true := by
    decide +kernel
  rcases bind_eq_ok.1 hcheck with ⟨c₀, h₀, hcheck⟩
  rcases bind_eq_ok.1 hcheck with ⟨p, hp, -⟩
  rcases Chain.processBlock_of_ok hp with
    ⟨pm, s, s₁, e, validators, partialHash, signingHash, ctx, -, -, -, -, hprocess⟩
  rcases process_of_ok hprocess with ⟨env, st₀, st, hnew, henv, -, -, hloops, hseal⟩
  rcases bind_eq_ok.1 hseal with ⟨⟨ctx', db'⟩, -, hend⟩
  cases hend
  exact ⟨c₀, _, env, st₀, st, h₀, hp, hloops, rfl, (gas_accounted toyExternals toyExternals_frugal
    toyMixed _ _ _ _ _ _ env st₀ hnew _ st (processUpTo_length hloops)).1⟩

end Zond
