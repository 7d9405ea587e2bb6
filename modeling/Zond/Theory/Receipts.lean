import Zond.Theory.Derivation
import Zond.Theory.Gas
import Zond.Theory.Logs
import Zond.Theory.Sandbox

/-!
# Receipts

Four functions make receipts, and each fills in by hand what the derivation works out again.
They agree, but for a stake that has transactions before it: its receipt gives the sum of all
gas so far as the gas it used. The number of the block goes through `int64` when a receipt is
made and not when it is read.

The logs of a transfer are looked up by its hash, so transfers of one hash would share theirs;
their hashes are taken to be different.

## Main definitions

* `ProtocolKept`, `TxKept`: The receipts so far, in each of the loops.

## Theorems

* `receipts_survive`: The receipts a block was processed with, against those that are read back.
-/

namespace Zond

open Outcome StateDB

/-- What a receipt says of the block that the derivation does not take over. -/
structure Receipt.Stamped (b : Block) (r : Receipt) : Prop where
  number : r.blockNumber = int64 b.slotNumber
  logs : ∀ log ∈ r.logs, log.blockNumber = bigUint64 (int64 b.slotNumber)
  stake : r.type = .stake → r.gasUsed = r.cumulativeGasUsed

theorem Receipt.Stamped.asRead_eq_iff {b : Block} {r : Receipt} (h : r.Stamped b) :
    r.asRead b.slotNumber = r ↔ b.slotNumber.toNat < 2 ^ 63 ∧
      (r.type = .stake → r.cumulativeGasUsed = Config.stakeTxGas) := by
  constructor
  · intro heq
    have hnumber : (b.slotNumber.toNat : Int) = int64 b.slotNumber :=
      (congrArg Receipt.blockNumber heq).trans h.number
    have hgas : r.charge = r.gasUsed := congrArg Receipt.gasUsed heq
    refine ⟨?_, fun hstake => ?_⟩
    · by_contra hle
      rw [int64_of_le (Nat.not_lt.1 hle)] at hnumber
      omega
    · rw [← h.stake hstake, ← hgas, Receipt.charge, if_pos hstake]
  · rintro ⟨hslot, hstake⟩
    have hnumber : (b.slotNumber.toNat : Int) = r.blockNumber := by
      rw [h.number, int64_of_lt hslot]
    have hgas : r.charge = r.gasUsed := by
      unfold Receipt.charge
      by_cases htype : r.type = .stake
      · rw [if_pos htype, h.stake htype, hstake htype]
      · rw [if_neg htype]
    have hslot' : bigUint64 (int64 b.slotNumber) = b.slotNumber := by
      have hlt := b.slotNumber.toNat_lt
      rw [int64_of_lt hslot]
      refine UInt64.toNat_inj.1 (Int.ofNat_inj.1 (bigUint64_of_nonneg (by omega) (by omega)))
    have hlogs : r.logs.map (fun l => { l with blockNumber := b.slotNumber }) = r.logs := by
      refine (List.map_congr_left (fun l hl => ?_)).trans (List.map_id' r.logs)
      rw [← hslot', ← h.logs l hl]
    unfold Receipt.asRead
    rw [hgas, hnumber, hlogs]

/-- What one user transaction leaves: a receipt `r` where `d` says. -/
structure Posted (ext : Externals) (b : Block) (tx : Transaction) (i : Nat)
    (st st' : ExecState) (d : TxDescription) (r : Receipt) : Prop where
  described : tx.describe ext = .ok d
  receipts : st'.txReceipts = st.txReceipts ++ [r]
  protocolReceipts : st'.protocolTxReceipts = st.protocolTxReceipts
  used : st'.usedGas = r.cumulativeGasUsed
  logSize : st'.statedb.logSize = st.statedb.logSize + r.logs.length
  located : Located ext.toCrypto b.hash d i st.usedGas st.statedb.logSize r
  stamped : r.Stamped b
  logs : ∀ h, (∀ t, tx = .transfer t → t.hash ≠ h) →
    (st'.statedb.logs.get h).getD [] = (st.statedb.logs.get h).getD []

section Transactions

variable {ext : Externals} {env : ExecEnv} {st st' : ExecState} {i : Nat}

theorem logging_moveStake (s : StateDB) (address minter : Address) (tx : Stake) :
    (moveStake s address minter tx).logging = s.logging := by
  unfold moveStake
  simp only [logging_addBalance, logging_setPendingStakeBalance, logging_subBalance,
    logging_setNonce, logging_getOrNewStateObject]

theorem posted_processStake {tx : Stake} (h : processStake ext env st i tx = .ok st') :
    ∃ d r, Posted ext env.block (.stake tx) i st st' d r := by
  rcases bind_eq_ok.1 h with ⟨s, hvalid, h⟩
  rcases (validateStakeTxn_eq_ok ext.toCrypto).1 hvalid with ⟨addr, -, rfl⟩
  rcases bind_eq_ok.1 h with ⟨⟨gp, usedGas, receipt⟩, happly, h⟩
  rw [wrapApply_eq_ok] at happly
  rcases bind_eq_ok.1 happly with ⟨pool, -, hreceipt⟩
  simp only [pure_eq_ok, Prod.mk.injEq] at hreceipt
  rcases hreceipt with ⟨rfl, rfl, rfl⟩
  cases h
  have hlogging : (moveStake ((st.statedb.prepare tx.hash i).getOrNewStateObject addr).finalise
      (ext.getDilithiumAddressFromUnSizedPK tx.pk) env.minter tx).logging
        = (st.statedb.prepare tx.hash i).logging := by
    rw [logging_moveStake, logging_finalise, logging_getOrNewStateObject]
  have hindex := congrArg (fun x => x.2.1) hlogging
  have hlogs := congrArg (fun x => x.2.2.1) hlogging
  have hsize := congrArg (fun x => x.2.2.2) hlogging
  refine ⟨_, _, rfl, rfl, rfl, rfl, hsize, ?_, ?_, fun hash _ => ?_⟩
  · exact ⟨rfl, rfl, rfl, rfl, hindex, rfl, rfl, fun k log hk => (by cases hk)⟩
  · exact ⟨rfl, fun log hlog => absurd hlog List.not_mem_nil, fun _ => rfl⟩
  · exact congrArg (fun logs => (AssocMap.get logs hash).getD []) hlogs

theorem posted_markOTSIndex {tx : Transaction} {base : TxBase} {mid : ExecState}
    {d : TxDescription} {r : Receipt} {b : Block} (hmid : Posted ext b tx i st mid d r)
    (h : markOTSIndex ext base mid = .ok st') : Posted ext b tx i st st' d r := by
  rcases bind_eq_ok.1 h with ⟨addr, -, h⟩
  split at h
  · rcases bind_eq_ok.1 h with ⟨index, -, h⟩
    rcases bind_eq_ok.1 h with ⟨s, hset, h⟩
    rcases setOTSBitfield_of_ok hset with ⟨field, -, hs⟩
    have hlogging : s.logging = mid.statedb.logging := by rw [hs, logging_modify]
    cases h
    refine ⟨hmid.described, hmid.receipts, hmid.protocolReceipts, hmid.used, ?_, hmid.located,
      hmid.stamped, fun hash hne => ?_⟩
    · exact (congrArg (fun x => x.2.2.2) hlogging).trans hmid.logSize
    · have hlogs := congrArg (fun x => x.2.2.1) hlogging
      exact (congrArg (fun logs => (AssocMap.get logs hash).getD []) hlogs).trans
        (hmid.logs hash hne)
  · cases h
    exact hmid

end Transactions

section Transfers

variable {vm : Machine} {env : ExecEnv} {st st' : ExecState} {i : Nat}

theorem posted_processTransfer {tx : Transfer} (hvm : vm.NumbersLogs)
    (hnumber : env.blockContext.blockNumber = int64 env.block.slotNumber)
    (hfresh : (st.statedb.logs.get tx.hash).getD [] = [])
    (h : processTransfer vm.toExternals env st i tx = .ok st') :
    ∃ d r, Posted vm.toExternals env.block (.transfer tx) i st st' d r := by
  unfold processTransfer at h
  rcases bind_eq_ok.1 h with ⟨s, hvalid, h⟩
  rcases (validateTransferTxn_eq_ok vm.toCrypto).1 hvalid with ⟨addr, haccepted, rfl⟩
  rcases bind_eq_ok.1 h with ⟨msg, hmsg, h⟩
  unfold transferTxAsMessage at hmsg
  rw [haccepted.sender, ok_bind, pure_eq_ok] at hmsg
  have hsender : msg.sender = vm.getAddressFromUnSizedPK tx.pk := by
    rw [← hmsg]
    exact (TxBase.addrFrom_eq_ok.1 haccepted.sender).1.symm
  have hto : msg.toAddr = tx.toAddr := by rw [← hmsg]
  rcases bind_eq_ok.1 h with ⟨⟨s', gp, usedGas, receipt⟩, happly, h⟩
  rw [wrapApply_eq_ok] at happly
  unfold applyTransaction at happly
  rcases bind_eq_ok.1 happly with ⟨⟨s₁, gp₁, result⟩, htrans, hreceipt⟩
  simp only [pure_eq_ok, Prod.mk.injEq] at hreceipt
  rcases hreceipt with ⟨rfl, rfl, rfl, rfl⟩
  cases h
  have hlogging : ((st.statedb.prepare tx.hash i).getOrNewStateObject addr).logging
      = (st.statedb.prepare tx.hash i).logging := logging_getOrNewStateObject _ addr
  have hemitted : Emitted env.blockContext (st.statedb.prepare tx.hash i) s₁.finalise :=
    ((emitted_of_logging hlogging).trans (emitted_transitionDb hvm htrans)).trans
      (emitted_of_logging (logging_finalise s₁))
  rcases hemitted with ⟨new, hlogged, hnumbered⟩
  -- Nothing was there under the hash, so the lookup gives what was added.
  have hlogs : s₁.finalise.getLogs tx.hash env.block.hash
      = new.map (fun l => { l with blockHash := env.block.hash }) := by
    have hthash : (st.statedb.prepare tx.hash i).thash = tx.hash := rfl
    unfold StateDB.getLogs
    rw [hlogged.logs, if_pos hthash]
    show List.map _ ((st.statedb.logs.get tx.hash).getD [] ++ new) = _
    rw [hfresh, List.nil_append]
  refine ⟨_, _, rfl, rfl, rfl, rfl, ?_, ?_, ?_, fun hash hne => ?_⟩
  · show s₁.finalise.logSize = _ + (s₁.finalise.getLogs tx.hash env.block.hash).length
    rw [hlogs, List.length_map]
    exact hlogged.logSize
  · refine ⟨rfl, rfl, ?_, rfl, hlogged.txIndex, rfl, rfl, fun k log hk => ?_⟩
    · dsimp only
      rw [hto, hsender]
      cases tx.toAddr with
      | none => rfl
      | some addr => rfl
    · change (s₁.finalise.getLogs tx.hash env.block.hash)[k]? = some log at hk
      rw [hlogs, List.getElem?_map, Option.map_eq_some_iff] at hk
      rcases hk with ⟨log', hk, rfl⟩
      rcases hlogged.placed k log' hk with ⟨htx, hindex, hplace⟩
      exact ⟨htx, hindex, rfl, hplace⟩
  · refine ⟨rfl, fun log hlog => ?_, fun htype => (by cases htype)⟩
    change log ∈ s₁.finalise.getLogs tx.hash env.block.hash at hlog
    rw [hlogs, List.mem_map] at hlog
    rcases hlog with ⟨log', hlog', rfl⟩
    rw [← hnumber]
    exact hnumbered log' hlog'
  · have hother : (st.statedb.prepare tx.hash i).thash ≠ hash := hne tx rfl
    have hsame := hlogged.logs hash
    rw [if_neg hother, List.append_nil] at hsame
    exact hsame

theorem posted_processTx {tx : Transaction} (hvm : vm.NumbersLogs)
    (hnumber : env.blockContext.blockNumber = int64 env.block.slotNumber)
    (hfresh : ∀ t, tx = .transfer t → (st.statedb.logs.get t.hash).getD [] = [])
    (h : processTx vm.toExternals env st (tx, i) = .ok st') :
    ∃ d r, Posted vm.toExternals env.block tx i st st' d r := by
  cases tx with
  | stake tx =>
    rcases bind_eq_ok.1 h with ⟨mid, hstake, hmark⟩
    rcases posted_processStake hstake with ⟨d, r, hmid⟩
    exact ⟨d, r, posted_markOTSIndex hmid hmark⟩
  | transfer tx =>
    rcases bind_eq_ok.1 h with ⟨mid, htransfer, hmark⟩
    rcases posted_processTransfer hvm hnumber (hfresh tx rfl) htransfer with ⟨d, r, hmid⟩
    exact ⟨d, r, posted_markOTSIndex hmid hmark⟩
  | unknown base => cases h

end Transfers

def transferHashes (txs : List Transaction) : List Hash :=
  txs.filterMap (fun tx => match tx with
    | .transfer t => some t.hash
    | _ => none)

theorem mem_transferHashes {txs : List Transaction} {t : Transfer} (h : .transfer t ∈ txs) :
    t.hash ∈ transferHashes txs :=
  List.mem_filterMap.2 ⟨.transfer t, h, rfl⟩

/-- What the user loop leaves after the transactions `done`. -/
structure TxKept (ext : Externals) (b : Block) (protocol : List Receipt) (done : List Transaction)
    (st : ExecState) : Prop where
  filed : Filed ext.toCrypto b.hash (Transaction.describe ext) done st.txReceipts st.usedGas
    st.statedb.logSize
  stamped : ∀ r ∈ st.txReceipts, r.Stamped b
  logs : ∀ h, h ∉ transferHashes done → (st.statedb.logs.get h).getD [] = []
  protocolReceipts : st.protocolTxReceipts = protocol

section UserLoop

variable {vm : Machine} {b : Block} {protocol : List Receipt} {done : List Transaction}
variable {env : ExecEnv} {st st' : ExecState}

theorem TxKept.post {tx : Transaction} {ext : Externals} {d : TxDescription} {r : Receipt}
    (h : TxKept ext b protocol done st) (hr : Posted ext b tx done.length st st' d r) :
    TxKept ext b protocol (done ++ [tx]) st' := by
  refine ⟨?_, fun r' hr' => ?_, fun hash hnot => ?_, hr.protocolReceipts.trans h.protocolReceipts⟩
  · rw [hr.receipts, hr.used, hr.logSize]
    exact h.filed.snoc hr.described hr.located
  · rw [hr.receipts, List.mem_append, List.mem_singleton] at hr'
    rcases hr' with hr' | rfl
    · exact h.stamped r' hr'
    · exact hr.stamped
  · unfold transferHashes at hnot
    rw [List.filterMap_append, List.mem_append, not_or] at hnot
    rw [hr.logs hash ?_]
    · exact h.logs hash hnot.1
    · rintro t rfl rfl
      exact hnot.2 (mem_transferHashes (List.mem_singleton.2 rfl))

theorem txKept_transactions (hvm : vm.NumbersLogs) (henv : env.block = b)
    (hnumber : env.blockContext.blockNumber = int64 b.slotNumber)
    (hdistinct : (transferHashes b.transactions).Nodup)
    (hst : TxKept vm.toExternals b protocol [] st)
    (h : b.transactions.zipIdx.foldlM (processTx vm.toExternals env) st = .ok st') :
    TxKept vm.toExternals b protocol b.transactions st' := by
  refine foldlM_zipIdx (TxKept vm.toExternals b protocol) b.transactions ?_ hst h
  intro done tx rest st st' hsplit hdone hstep
  -- A transfer's hash is none of those before it, so no logs are under it.
  have hfresh : ∀ t, tx = .transfer t → (st.statedb.logs.get t.hash).getD [] = [] := by
    rintro t rfl
    refine hdone.logs t.hash (fun hmem => ?_)
    unfold transferHashes at hdistinct
    rw [hsplit, List.filterMap_append] at hdistinct
    exact (List.nodup_append.1 hdistinct).2.2 _ hmem _
      (mem_transferHashes List.mem_cons_self) rfl
  rcases posted_processTx hvm (by rw [henv]; exact hnumber) hfresh hstep with ⟨d, r, hr⟩
  rw [henv] at hr
  exact hdone.post hr

end UserLoop

/-- What the protocol loop leaves after the transactions `done`: receipts, and no logs. -/
structure ProtocolKept (ext : Externals) (b : Block) (ctx : StateContext)
    (done : List ProtocolTransaction) (st : ExecState) : Prop where
  filed : Filed ext.toCrypto b.hash ProtocolTransaction.describe done st.protocolTxReceipts 0 0
  stamped : ∀ r ∈ st.protocolTxReceipts, r.Stamped b ∧ r.type ≠ .stake
  frame : SameFrame ctx st.ctx
  receipts : st.txReceipts = []
  used : st.usedGas = 0
  logs : st.statedb.logs = AssocMap.empty
  logSize : st.statedb.logSize = 0

section ProtocolLoop

variable {ext : Externals} {b : Block} {ctx : StateContext} {env : ExecEnv}
variable {st st' : ExecState} {done : List ProtocolTransaction}
variable {tx : ProtocolTransaction}

theorem logging_payReward (s : StateDB) (signer : Address) (credits : List Int) (charge : Int) :
    (payReward s signer credits charge).logging = s.logging := by
  have hcredits : ∀ (l : List Int) (s : StateDB),
      (l.foldl (fun s amount => s.addBalance signer amount) s).logging = s.logging := by
    intro l
    induction l with
    | nil => exact fun _ => rfl
    | cons amount l ih =>
      intro s
      rw [List.foldl_cons, ih, logging_addBalance]
  unfold payReward
  rw [logging_subBalance, logging_setNonce, hcredits]

theorem ProtocolKept.post {d : TxDescription} {s : StateDB}
    {txHash : Hash} {ctx' : StateContext} (h : ProtocolKept ext b ctx done st)
    (htx : tx.describe = .ok d) (hhash : d.txHash = txHash) (hcreated : d.created = none)
    (htype : d.type ≠ .stake) (hframe : SameFrame st.ctx ctx')
    (hs : s.logging = (txHash, done.length, st.statedb.logs, st.statedb.logSize)) :
    ProtocolKept ext b ctx (done ++ [tx])
      { st with
        statedb := s, ctx := ctx'
        protocolTxReceipts := st.protocolTxReceipts ++ [plainReceipt d.type 0 0 txHash b.hash
          (int64 b.slotNumber) s.txIndex] } := by
  have hlocated : Located ext.toCrypto b.hash d done.length 0 0
      (plainReceipt d.type 0 0 txHash b.hash (int64 b.slotNumber) s.txIndex) := by
    refine ⟨rfl, hhash.symm, by rw [hcreated]; rfl, rfl, congrArg (fun x => x.2.1) hs, rfl, ?_,
      fun k log hk => (nomatch hk)⟩
    show (0 : UInt64) = 0 + (if d.type = .stake then _ else 0)
    rw [if_neg htype, UInt64.zero_add]
  refine ⟨h.filed.snoc htx hlocated, fun r hr => ?_, h.frame.trans hframe, h.receipts, h.used,
    ?_, ?_⟩
  · rcases List.mem_append.1 hr with hr | hr
    · exact h.stamped r hr
    · rw [List.mem_singleton.1 hr]
      exact ⟨⟨rfl, fun log hlog => (nomatch hlog), fun hstake => absurd hstake htype⟩, htype⟩
  · exact (congrArg (fun x => x.2.2.1) hs).trans h.logs
  · exact (congrArg (fun x => x.2.2.2) hs).trans h.logSize

theorem logging_rewarded (s : StateDB) (signer : Address) (txHash : Hash) (i : Nat)
    (credits : List Int) (charge : Int) :
    (payReward (((s.getOrNewStateObject signer).prepare txHash i).finalise.getOrNewStateObject
      signer) signer credits charge).logging = (txHash, i, s.logs, s.logSize) := by
  have hopened := logging_getOrNewStateObject s signer
  rw [logging_payReward, logging_getOrNewStateObject, logging_finalise]
  exact congrArg (fun x => (txHash, i, x.2.2.1, x.2.2.2)) hopened

theorem ProtocolTransaction.Sound.describe {c : Crypto} (h : tx.Sound c b) :
    tx.describe = .ok { type := tx.type, txHash := tx.base.hash, created := none } := by
  cases tx with
  | coinBase | attest => rfl
  | unknown base => exact h.elim

theorem ProtocolKept.step (henv : env.block = b)
    (hpart : b.partialBlockSigningHash ext.toCrypto = .ok ctx.partialBlockSigningHash)
    (hsigning : b.blockSigningHash ext.toCrypto = .ok ctx.blockSigningHash)
    (h : ProtocolKept ext b ctx done st)
    (hok : processProtocolTx ext env st (tx, done.length) = .ok st') :
    ProtocolKept ext b ctx (done ++ [tx]) st' := by
  subst henv
  have hr := rewarded_of_processProtocolTx hok
  have hframe := h.frame.trans hr.frame
  have hreceipt := hr.receipt (by rw [hframe]; exact hsigning) (by rw [hframe]; exact hpart)
  rw [hr.rest, hreceipt]
  refine h.post hr.sound.describe rfl rfl ?_ hr.frame ?_
  · cases tx <;> exact TxType.noConfusion
  · rw [hr.state]
    exact logging_rewarded st.statedb _ _ _ _ _

theorem protocolKept_transactions (henv : env.block = b)
    (hpart : b.partialBlockSigningHash ext.toCrypto = .ok ctx.partialBlockSigningHash)
    (hsigning : b.blockSigningHash ext.toCrypto = .ok ctx.blockSigningHash)
    (hst : ProtocolKept ext b ctx [] st)
    (h : b.protocolTransactions.zipIdx.foldlM (processProtocolTx ext env) st = .ok st') :
    ProtocolKept ext b ctx b.protocolTransactions st' := by
  refine foldlM_zipIdx (ProtocolKept ext b ctx) b.protocolTransactions ?_ hst h
  intro done tx rest st st' _ hdone hstep
  exact hdone.step henv hpart hsigning hstep

theorem ProtocolKept.kept (h : ProtocolKept ext b ctx done st) :
    TxKept ext b st.protocolTxReceipts [] st := by
  refine ⟨?_, fun r hr => ?_, fun hash _ => ?_, rfl⟩
  · rw [h.receipts, h.used, h.logSize]
    exact Filed.nil
  · rw [h.receipts] at hr
    cases hr
  · rw [h.logs]
    rfl

end ProtocolLoop

section Start

variable {ext : Externals}

theorem logging_openState {tries : Tries} {root : Hash} {s : StateDB}
    (h : Chain.openState tries root = .ok s) : s.logging = (zeroHash, 0, AssocMap.empty, 0) := by
  unfold Chain.openState at h
  split at h
  · cases h
    rfl
  · rcases bind_eq_ok.1 h with ⟨trie, -, h⟩
    cases h
    rfl

theorem Booked.logging {s s' : StateDB} (h : Booked ext s s') : s'.logging = s.logging := by
  refine h.induction (fun t => t.logging = s.logging) (fun se pk hse => ?_) rfl
  unfold updateStakeValidator
  dsimp only
  split
  · simp only [logging_setStakeBalance, logging_addBalance, logging_getOrNewStateObject, hse]
  · simp only [logging_setPendingStakeBalance, logging_setStakeBalance, logging_addBalance,
      logging_getOrNewStateObject, hse]

theorem protocolKept_newExec {b : Block} {getHash : UInt64 → Hash} {parentSlotNumber : UInt64}
    {s : StateDB} {ctx : StateContext} {validators : SlotValidatorsMetaData} {isGenesis : Bool}
    {env : ExecEnv} {st : ExecState} (hs : s.logging = (zeroHash, 0, AssocMap.empty, 0))
    (h : newExec ext b getHash parentSlotNumber s ctx validators isGenesis = .ok (env, st)) :
    env.blockContext.blockNumber = int64 b.slotNumber ∧ ProtocolKept ext b ctx [] st := by
  rcases bind_eq_ok.1 h with ⟨minter, -, h⟩
  cases h
  exact ⟨rfl, Filed.nil, fun r hr => (nomatch hr), SameFrame.refl ctx, rfl, rfl,
    congrArg (fun x => x.2.2.1) hs, congrArg (fun x => x.2.2.2) hs⟩

theorem positive_transactions {limit : UInt64} {env : ExecEnv} {st st' : ExecState}
    {txis : List (Transaction × Nat)} (hext : ext.Frugal) (hst : st.Balanced limit)
    (hnone : st.txReceipts = []) (h : txis.foldlM (processTx ext env) st = .ok st') :
    ∀ r ∈ st'.txReceipts, 0 < r.cumulativeGasUsed.toNat := by
  have hend : st'.Balanced limit ∧ ∀ r ∈ st'.txReceipts, 0 < r.cumulativeGasUsed.toNat := by
    refine foldlM_invariant
      (fun st => st.Balanced limit ∧ ∀ r ∈ st.txReceipts, 0 < r.cumulativeGasUsed.toNat) txis
      (fun st txi st' _ hst h => ?_) ⟨hst, fun r hr => ?_⟩ h
    · rcases charged_processTx hext h with ⟨gas, r, hcharged⟩
      have hnext := hcharged.balanced hst.1
      refine ⟨hnext, fun r' hr' => ?_⟩
      rw [hcharged.receipts, List.mem_append, List.mem_singleton] at hr'
      rcases hr' with hr' | rfl
      · exact hst.2 r' hr'
      · -- What the transaction used left the pool and is in the sum.
        have hbefore := hst.1.total
        have hafter := hnext.total
        have hpool := hcharged.pool
        have hpos := hcharged.pos
        rw [hcharged.cumulative]
        omega
    · rw [hnone] at hr
      cases hr
  exact hend.2

end Start

section Reading

theorem commit_stores {ctx ctx' : StateContext} {b : Block} {protocolReceipts receipts : List Receipt}
    {trieRoot : Hash} {isFinalizedState : Bool} {db db' : Store}
    (h : commit ctx b protocolReceipts receipts trieRoot isFinalizedState db = .ok (ctx', db')) :
    db'.blocks.get b.hash = some b ∧
      db'.blockReceipts.get (b.hash, b.slotNumber, true) = some protocolReceipts ∧
      db'.blockReceipts.get (b.hash, b.slotNumber, false) = some receipts := by
  rcases bind_eq_ok.1 h with ⟨⟨parent, parentTotal, lastTotal⟩, -, h⟩
  rcases bind_eq_ok.1 h with ⟨hashes, -, h⟩
  have hput (bm : BlockMetaData) :
      let db₁ := putBlockRecords ctx b bm parent hashes protocolReceipts receipts db
      db₁.blocks.get b.hash = some b ∧
        db₁.blockReceipts.get (b.hash, b.slotNumber, true) = some protocolReceipts ∧
        db₁.blockReceipts.get (b.hash, b.slotNumber, false) = some receipts := by
    refine ⟨AssocMap.get_put_self _ _ _, ?_, AssocMap.get_put_self _ _ _⟩
    refine (AssocMap.get_put_ne _ _ ?_).trans (AssocMap.get_put_self _ _ _)
    intro heq
    exact Bool.noConfusion (congrArg (fun k : Hash × UInt64 × Bool => k.2.2) heq)
  -- What is written after the records of the block is about the main chain only.
  cases isFinalizedState with
  | false =>
    simp only [Bool.false_eq_true, if_false] at h
    split at h
    · cases h
      exact hput _
    · cases h
      exact hput _
  | true =>
    simp only [if_true] at h
    split at h
    · cases h
      exact hput _
    · cases h
      exact hput _

variable {ext : Externals} {db : Store} {b : Block} {rs : List Receipt} {used : UInt64}
variable {logSize : Nat}

theorem getReceiptsByHash_of_filed (hblock : db.blocks.get b.hash = some b)
    (hstored : db.blockReceipts.get (b.hash, b.slotNumber, false) = some rs)
    (h : Filed ext.toCrypto b.hash (Transaction.describe ext) b.transactions rs used logSize) :
    getReceiptsByHash ext db b.hash false = .ok (some (rs.map (Receipt.asRead b.slotNumber))) := by
  have hdecoded := Rlp.toListOf?_map_of (decodeReceipt_encodeRLP ext.toCrypto) rs
  unfold getReceiptsByHash Store.getBlockReceipts
  simp only [hblock, hstored, Option.map_some, Option.bind_some, hdecoded]
  exact h.deriveFields b.slotNumber

theorem getReceiptsByHash_of_protocolFiled (hblock : db.blocks.get b.hash = some b)
    (hstored : db.blockReceipts.get (b.hash, b.slotNumber, true) = some rs)
    (h : Filed ext.toCrypto b.hash ProtocolTransaction.describe b.protocolTransactions rs used
      logSize) :
    getReceiptsByHash ext db b.hash true = .ok (some (rs.map (Receipt.asRead b.slotNumber))) := by
  have hdecoded := Rlp.toListOf?_map_of (decodeReceipt_encodeRLP ext.toCrypto) rs
  unfold getReceiptsByHash Store.getBlockReceipts
  simp only [hblock, hstored, Option.map_some, Option.bind_some, hdecoded]
  exact h.deriveFields b.slotNumber

theorem getLogsByHash_of_filed (hblock : db.blocks.get b.hash = some b)
    (hstored : db.blockReceipts.get (b.hash, b.slotNumber, false) = some rs)
    (h : Filed ext.toCrypto b.hash (Transaction.describe ext) b.transactions rs used logSize) :
    getLogsByHash db b.hash
      = some (some (rs.map (fun r => (r.asRead b.slotNumber).logs))) := by
  have hdecoded := Rlp.toListOf?_map_of decodeReceiptLogs_encodeRLP rs
  unfold getLogsByHash Store.getBlockReceipts readLogsFromReceiptsRLPData
  simp only [hblock, hstored, Option.map_some, Option.bind_eq_bind, Option.bind_some, hdecoded]
  exact congrArg some (h.deriveLogs b.slotNumber)

end Reading

section Results

variable {vm : Machine} {c : Chain} {b parentBlock : Block} {p : Processed}

/-- The receipts of a block that was processed, and how they came about. -/
structure Receipted (ext : Externals) (b : Block) (p : Processed) (used : UInt64)
    (logSize : Nat) : Prop where
  filed : Filed ext.toCrypto b.hash (Transaction.describe ext) b.transactions p.txReceipts used
    logSize
  protocolFiled : Filed ext.toCrypto b.hash ProtocolTransaction.describe b.protocolTransactions
    p.protocolTxReceipts 0 0
  stamped : ∀ r ∈ p.txReceipts, r.Stamped b
  protocolStamped : ∀ r ∈ p.protocolTxReceipts, r.Stamped b ∧ r.type ≠ .stake
  proposed : p.protocolTxReceipts ≠ []
  read : getReceiptsByHash ext p.db b.hash false
    = .ok (some (p.txReceipts.map (Receipt.asRead b.slotNumber)))
  protocolRead : getReceiptsByHash ext p.db b.hash true
    = .ok (some (p.protocolTxReceipts.map (Receipt.asRead b.slotNumber)))
  logsRead : getLogsByHash p.db b.hash
    = some (some (p.txReceipts.map (fun r => (r.asRead b.slotNumber).logs)))

theorem receipted_of_processBlock (hfrugal : vm.Frugal) (hvm : vm.NumbersLogs)
    (hdistinct : (transferHashes b.transactions).Nodup)
    (h : c.processBlock vm.toExternals b parentBlock = .ok p) :
    (∃ used logSize, Receipted vm.toExternals b p used logSize) ∧
      ∀ r ∈ p.txReceipts, 0 < r.cumulativeGasUsed.toNat := by
  rcases bind_eq_ok.1 h with ⟨pm, -, h⟩
  rcases bind_eq_ok.1 h with ⟨s, hs, h⟩
  rcases bind_eq_ok.1 h with ⟨⟨s₁, e⟩, hcalc, h⟩
  rcases bind_eq_ok.1 h with ⟨validators, -, h⟩
  rcases bind_eq_ok.1 h with ⟨partialHash, hpart, h⟩
  rcases bind_eq_ok.1 h with ⟨signingHash, hsigning, h⟩
  rcases bind_eq_ok.1 h with ⟨ctx, hctx, h⟩
  rcases process_of_ok h with ⟨env, st₀, st, hnew, henv, -, -, hloops, hseal⟩
  have hhashes : ctx.partialBlockSigningHash = partialHash ∧ ctx.blockSigningHash = signingHash := by
    rcases bind_eq_ok.1 hctx with ⟨m, -, hctx⟩
    rcases bind_eq_ok.1 hctx with ⟨flags, -, hctx⟩
    cases hctx
    exact ⟨rfl, rfl⟩
  -- The loops, from a state without logs.
  have hquiet := (booked_of_calculateEpochMetaData hcalc).logging.trans (logging_openState hs)
  rcases protocolKept_newExec hquiet hnew with ⟨hnumber, hstart⟩
  rcases processTransactions_of_ok hloops with ⟨first, rest, mid, hfirst, hprotocol, huser⟩
  rw [henv] at hfirst hprotocol huser
  rw [← hhashes.1] at hpart
  rw [← hhashes.2] at hsigning
  have hmid := protocolKept_transactions henv hpart hsigning hstart hprotocol
  have hend := txKept_transactions hvm henv hnumber hdistinct hmid.kept huser
  have hbalanced : mid.Balanced b.header.gasLimit :=
    foldlM_invariant (ExecState.Balanced b.header.gasLimit) _
      (fun st txi st' _ hst h => balanced_processProtocolTx hst h) (balanced_newExec hnew).2
      hprotocol
  have hpositive := positive_transactions hfrugal hbalanced hmid.receipts huser
  -- What was committed.
  rcases bind_eq_ok.1 hseal with ⟨⟨ctx', db'⟩, hcommit, hseal⟩
  cases hseal
  rcases commit_stores hcommit with ⟨hblock, hprotocolStored, hstored⟩
  have hprotocolFiled := hmid.filed
  rw [← hend.protocolReceipts] at hprotocolFiled
  have hread := getReceiptsByHash_of_filed hblock hstored hend.filed
  have hprotocolRead := getReceiptsByHash_of_protocolFiled hblock hprotocolStored hprotocolFiled
  have hlogsRead := getLogsByHash_of_filed hblock hstored hend.filed
  refine ⟨⟨_, _, hend.filed, hprotocolFiled, hend.stamped, fun r hr => ?_, fun hnone => ?_, hread,
    hprotocolRead, hlogsRead⟩, hpositive⟩
  · exact hmid.stamped r (hend.protocolReceipts ▸ hr)
  · have hlength := hprotocolFiled.length
    rw [hfirst, show st.protocolTxReceipts = [] from hnone] at hlength
    cases hlength

theorem Filed.transaction_at {α : Type} {c : Crypto} {hash : Hash}
    {describe : α → Go TxDescription} {txs : List α} {rs : List Receipt} {used : UInt64}
    {logSize i : Nat} {r : Receipt} (h : Filed c hash describe txs rs used logSize)
    (hi : rs[i]? = some r) : ∃ tx d, txs[i]? = some tx ∧ describe tx = .ok d ∧ r.type = d.type := by
  have htypes := h.types
  clear h
  induction htypes generalizing i with
  | nil => cases hi
  | cons hhead _ ih =>
    cases i with
    | zero =>
      cases hi
      rcases hhead with ⟨d, hd, htype⟩
      exact ⟨_, d, rfl, hd, htype⟩
    | succ i => exact ih hi

theorem describe_stake_iff {ext : Externals} {tx : Transaction} {d : TxDescription}
    (h : tx.describe ext = .ok d) : d.type = .stake ↔ ∃ t, tx = .stake t := by
  cases tx with
  | stake t =>
    cases h
    exact ⟨fun _ => ⟨t, rfl⟩, fun _ => rfl⟩
  | transfer t =>
    cases h
    exact ⟨fun htype => (by cases htype), fun ⟨_, ht⟩ => (nomatch ht)⟩
  | unknown base => cases h

theorem Receipted.stake_iff {ext : Externals} {used : UInt64} {logSize i : Nat} {r : Receipt}
    (h : Receipted ext b p used logSize)
    (hpositive : ∀ r ∈ p.txReceipts, 0 < r.cumulativeGasUsed.toNat)
    (hi : p.txReceipts[i]? = some r) (hstake : r.type = .stake) :
    r.cumulativeGasUsed = Config.stakeTxGas ↔ i = 0 := by
  have hgas := h.filed.gas i r hi
  rw [Receipt.charge, if_pos hstake] at hgas
  cases i with
  | zero =>
    rw [usedBefore, UInt64.zero_add] at hgas
    exact ⟨fun _ => rfl, fun _ => hgas⟩
  | succ i =>
    refine ⟨fun hsum => ?_, fun hzero => (by cases hzero)⟩
    have hlt : i < p.txReceipts.length :=
      Nat.lt_of_succ_lt (List.getElem?_eq_some_iff.1 hi).1
    have hbefore : usedBefore p.txReceipts (i + 1)
        = (p.txReceipts.get ⟨i, hlt⟩).cumulativeGasUsed := by
      rw [usedBefore, List.getElem?_eq_getElem hlt]
      rfl
    rw [hsum, hbefore] at hgas
    have hzero : (p.txReceipts.get ⟨i, hlt⟩).cumulativeGasUsed = 0 := by
      have hcancel := congrArg (· - Config.stakeTxGas) hgas
      simp only [UInt64.sub_self, UInt64.add_sub_cancel] at hcancel
      exact hcancel.symm
    have hpos := hpositive _ (List.get_mem p.txReceipts ⟨i, hlt⟩)
    rw [hzero] at hpos
    exact absurd hpos (by decide)

/-- The receipts of a block that was processed, made against read. `GetReceiptsByHash` gives
    the receipts the block was processed with, for its user and for its protocol transactions,
    and `GetLogsByHash` the logs of the former, exactly when the slot is below `2 ^ 63` and no
    stake comes after another user transaction. -/
theorem receipts_survive (vm : Machine) (hfrugal : vm.Frugal) (hvm : vm.NumbersLogs) (c : Chain)
    (b parentBlock : Block) (p : Processed)
    (hok : c.processBlock vm.toExternals b parentBlock = .ok p)
    (hdistinct : (transferHashes b.transactions).Nodup) :
    (getReceiptsByHash vm.toExternals p.db b.hash false = .ok (some p.txReceipts) ∧
      getReceiptsByHash vm.toExternals p.db b.hash true = .ok (some p.protocolTxReceipts) ∧
      getLogsByHash p.db b.hash = some (some (p.txReceipts.map Receipt.logs))) ↔
    b.slotNumber.toNat < 2 ^ 63 ∧ ∀ i tx, b.transactions[i + 1]? ≠ some (.stake tx) := by
  rcases receipted_of_processBlock hfrugal hvm hdistinct hok with ⟨⟨used, logSize, h⟩, hpositive⟩
  have hfixed (rs : List Receipt) : rs.map (Receipt.asRead b.slotNumber) = rs ↔
      ∀ r ∈ rs, r.asRead b.slotNumber = r := by
    conv_lhs => rhs; rw [← List.map_id rs]
    exact List.map_inj_left
  rw [h.read, h.protocolRead, h.logsRead]
  simp only [Except.ok.injEq, Option.some.injEq, hfixed]
  constructor
  · rintro ⟨hread, hprotocol, -⟩
    rcases List.exists_mem_of_ne_nil _ h.proposed with ⟨r, hr⟩
    refine ⟨((h.protocolStamped r hr).1.asRead_eq_iff.1 (hprotocol r hr)).1, fun i tx htx => ?_⟩
    -- The stake's receipt was read back as made, so nothing was used before it.
    have hlt : i + 1 < p.txReceipts.length := by
      rw [← h.filed.length]
      exact (List.getElem?_eq_some_iff.1 htx).1
    have hi : p.txReceipts[i + 1]? = some (p.txReceipts.get ⟨i + 1, hlt⟩) :=
      List.getElem?_eq_getElem hlt
    rcases h.filed.transaction_at hi with ⟨tx', d, htx', hd, htype⟩
    rw [htx] at htx'
    cases htx'
    have hmem := List.get_mem p.txReceipts ⟨i + 1, hlt⟩
    have hstake := htype.trans ((describe_stake_iff hd).2 ⟨tx, rfl⟩)
    have hsum := ((h.stamped _ hmem).asRead_eq_iff.1 (hread _ hmem)).2 hstake
    exact Nat.succ_ne_zero i ((h.stake_iff hpositive hi hstake).1 hsum)
  · rintro ⟨hslot, hfirst⟩
    have hread : ∀ r ∈ p.txReceipts, r.asRead b.slotNumber = r := by
      intro r hr
      refine (h.stamped r hr).asRead_eq_iff.2 ⟨hslot, fun hstake => ?_⟩
      rcases List.mem_iff_getElem?.1 hr with ⟨i, hi⟩
      rcases h.filed.transaction_at hi with ⟨tx, d, htx, hd, htype⟩
      rcases (describe_stake_iff hd).1 (htype.symm.trans hstake) with ⟨t, rfl⟩
      refine (h.stake_iff hpositive hi hstake).2 ?_
      cases i with
      | zero => rfl
      | succ i => exact absurd htx (hfirst i t)
    refine ⟨hread, fun r hr => ?_, List.map_congr_left (fun r hr => by rw [hread r hr])⟩
    rcases h.protocolStamped r hr with ⟨hstamped, htype⟩
    exact hstamped.asRead_eq_iff.2 ⟨hslot, fun hstake => absurd hstake htype⟩

end Results

def toyLogger : Machine :=
  { toyMachine with
    interpreterRun := fun ctx _ s contract input =>
      { state := s.addLog
          { unlocatedLog contract.self [] input with blockNumber := bigUint64 ctx.blockNumber }
        gas := contract.gas, ret := [], err := none }
    interprets := fun _ _ s _ _ => .step (.start s) (.log s _) }

theorem toyLogger_numbersLogs : toyLogger.NumbersLogs := by
  intro ctx txCtx s contract input after log hlog
  have hafter : (after.logs.get s.thash).getD [] = (s.logs.get s.thash).getD [] ++
      [{ unlocatedLog contract.self [] input with
          blockNumber := bigUint64 ctx.blockNumber, txHash := s.thash, txIndex := s.txIndex
          index := s.logSize }] := by
    show ((s.logs.put s.thash _).get s.thash).getD [] = _
    rw [AssocMap.get_put_self]
    rfl
  rw [hafter, List.drop_left, List.mem_singleton] at hlog
  rw [hlog]

theorem toyDeploying_logs : ∃ c₀ p,
    genesisChain toyLogger.toExternals toyGenesis toyPreState = .ok c₀ ∧
    c₀.processBlock toyLogger.toExternals toyDeploying toyGenesis = .ok p ∧
    p.txReceipts.map (fun r => r.logs.length) = [1] := by
  have hcheck : (genesisChain toyLogger.toExternals toyGenesis toyPreState >>= fun c₀ =>
      c₀.processBlock toyLogger.toExternals toyDeploying toyGenesis >>= fun p =>
        pure (decide (p.txReceipts.map (fun r => r.logs.length) = [1]))) = .ok true := by
    decide +kernel
  rcases bind_eq_ok.1 hcheck with ⟨c₀, h₀, hcheck⟩
  rcases bind_eq_ok.1 hcheck with ⟨p, hp, hcheck⟩
  rw [pure_eq_ok, decide_eq_true_eq] at hcheck
  exact ⟨c₀, p, h₀, hp, hcheck⟩

theorem toyDeploying_survives : ∃ c₀ p,
    genesisChain toyLogger.toExternals toyGenesis toyPreState = .ok c₀ ∧
    c₀.processBlock toyLogger.toExternals toyDeploying toyGenesis = .ok p ∧
    p.txReceipts.map (fun r => r.logs.length) = [1] ∧
    getReceiptsByHash toyLogger.toExternals p.db toyDeploying.hash false
      = .ok (some p.txReceipts) ∧
    getReceiptsByHash toyLogger.toExternals p.db toyDeploying.hash true
      = .ok (some p.protocolTxReceipts) ∧
    getLogsByHash p.db toyDeploying.hash = some (some (p.txReceipts.map Receipt.logs)) := by
  rcases toyDeploying_logs with ⟨c₀, p, h₀, hp, hlogs⟩
  have hsurvive := receipts_survive toyLogger (fun _ _ _ _ _ => UInt64.le_refl _)
    toyLogger_numbersLogs c₀ toyDeploying toyGenesis p hp (by decide +kernel)
  exact ⟨c₀, p, h₀, hp, hlogs, hsurvive.2 ⟨by decide +kernel, fun i tx htx => (nomatch htx)⟩⟩

/-- The stake after a transfer was made a receipt for the gas of both, and has one for its own
    gas when it is read. -/
theorem toyMixed_misread : ∃ c₀ p rs,
    genesisChain toyLogger.toExternals toyGenesis toyPreState = .ok c₀ ∧
    c₀.processBlock toyLogger.toExternals toyMixed toyGenesis = .ok p ∧
    getReceiptsByHash toyLogger.toExternals p.db toyMixed.hash false = .ok (some rs) ∧
    p.txReceipts.map Receipt.gasUsed = [21000, 22000] ∧
    rs.map Receipt.gasUsed = [21000, 1000] := by
  have hcheck : (genesisChain toyLogger.toExternals toyGenesis toyPreState >>= fun c₀ =>
      c₀.processBlock toyLogger.toExternals toyMixed toyGenesis >>= fun p =>
        getReceiptsByHash toyLogger.toExternals p.db toyMixed.hash false >>= fun rs =>
          pure (decide (p.txReceipts.map Receipt.gasUsed = [21000, 22000] ∧
            rs.map (fun rs => rs.map Receipt.gasUsed) = some [21000, 1000]))) = .ok true := by
    decide +kernel
  rcases bind_eq_ok.1 hcheck with ⟨c₀, h₀, hcheck⟩
  rcases bind_eq_ok.1 hcheck with ⟨p, hp, hcheck⟩
  rcases bind_eq_ok.1 hcheck with ⟨rs, hrs, hcheck⟩
  rw [pure_eq_ok, decide_eq_true_eq] at hcheck
  rcases Option.map_eq_some_iff.1 hcheck.2 with ⟨receipts, rfl, hread⟩
  exact ⟨c₀, p, receipts, h₀, hp, hrs, hcheck.1, hread⟩

end Zond
