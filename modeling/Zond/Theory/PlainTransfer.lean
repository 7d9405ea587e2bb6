import Mathlib.Tactic.Linarith
import Zond.Core.Producer
import Zond.Core.Process
import Zond.Theory.Transition

/-!
# Plain Transfers

The value, the gas price and the base fee of the block are `uint64` fields, and each
reaches the virtual machine as a signed number. A value of `2 ^ 63` or more is negative
there, so the transfer takes from the recipient what it should have given, and validation
does not notice because it adds the value to the gas cost modulo `2 ^ 64`.

## Main definitions

* `PlainTransfer`: What a transfer to an account without code has to do.

## Theorems

* `plainTransfer_iff`: When it does.
-/

namespace Zond

open Outcome Postings

/-- The price of a unit of gas: tip cap and base fee together, capped by the fee
    cap. A transfer has one gas price for both caps. -/
def Transfer.effectiveGasPrice (tx : Transfer) (baseFee : UInt64) : Nat :=
  min (tx.gasPrice.toNat + baseFee.toNat) tx.gasPrice.toNat

/-- What a plain transfer does to balances. A sender that is itself the minter is
    credited the tip on its own gas. -/
structure PlainTransfer (tx : Transfer) (baseFee : UInt64) (sender recipient minter : Address)
    (gasUsed : UInt64) (s s' : StateDB) : Prop where
  credited : s'.getBalance recipient = s.getBalance recipient + tx.value.toNat
  charged : s'.getBalance sender = s.getBalance sender
    - (tx.value.toNat + gasUsed.toNat * tx.effectiveGasPrice baseFee)
    + (if minter = sender then gasUsed.toNat * (tx.gasPrice.toNat - baseFee.toNat) else 0 : Int)
  untouched : ∀ x, x ≠ sender → x ≠ recipient → x ≠ minter → s'.getBalance x = s.getBalance x
  unsigned : ∀ x, x ≠ sender → s.getBalance x ≤ s'.getBalance x

section Effect

variable {ext : Externals} {ctx : BlockContext} {msg : Message} {tx : Transfer}
variable {s s' : StateDB} {gp gp' usedGas usedGas' : UInt64} {blockNumber : Int}
variable {blockHash : Hash} {receipt : Receipt} {recipient : Address}

theorem getCode_subBalance (s : StateDB) (addr : Address) (v : Int) (x : Address) :
    (s.subBalance addr v).getCode x = s.getCode x :=
  StateDB.proj_subBalance Account.code s addr v (fun _ _ => rfl) x

theorem execute_plain {gas : UInt64}
    (hto : msg.toAddr = some recipient) (hcode : s.getCode recipient = [])
    (hpre : recipient ∉ precompiledContracts) (hfunds : msg.value ≤ s.getBalance msg.sender) :
    let r := execute ext ctx msg s gas
    r.state.getBalance = postAll s.getBalance
        [(msg.sender, -msg.value), (recipient, msg.value)] ∧
      r.gas = gas ∧ (s.Settled → r.state.Settled) := by
  let start := s.setNonce msg.sender (s.getNonce msg.sender + 1)
  have hbal : start.getBalance = s.getBalance := StateDB.getBalance_setNonce ..
  have hplain : start.getCode recipient = [] := (getCode_setNonce ..).trans hcode
  have hafford : msg.value ≠ 0 → Vm.CanTransfer start msg.sender msg.value := by
    intro _
    unfold Vm.CanTransfer
    rw [hbal]
    exact hfunds
  have hcall := @call_plain gas ctx ext start msg.sender recipient msg.value
    { origin := msg.sender, gasPrice := msg.gasPrice } msg.data hafford hplain hpre
  rcases hcall with ⟨hpost, hgas, hkeep⟩
  rw [hbal] at hpost
  simp only [execute, hto]
  exact ⟨hpost, hgas, fun hs => hkeep (hs.modify msg.sender _)⟩

theorem applyTransaction_plain (hsettled : s.Settled)
    (hto : msg.toAddr = some recipient) (hcode : s.getCode recipient = [])
    (hpre : recipient ∉ precompiledContracts) (hprice : msg.gasPrice ≤ msg.gasFeeCap)
    (h : applyTransaction ext ctx msg gp s blockNumber blockHash tx usedGas
      = .ok (s', gp', usedGas', receipt)) :
    ∃ back : UInt64, back.toNat + receipt.gasUsed.toNat = msg.gas.toNat ∧
      0 < receipt.gasUsed.toNat ∧ ctx.baseFee ≤ msg.gasFeeCap ∧
      s'.getBalance = postAll s.getBalance
        [(msg.sender, -(msg.gas.toNat * msg.gasPrice)), (msg.sender, -msg.value),
          (recipient, msg.value), (msg.sender, back.toNat * msg.gasPrice),
          (ctx.coinbase,
            receipt.gasUsed.toNat * min msg.gasTipCap (msg.gasFeeCap - ctx.baseFee))] := by
  rcases applyTransaction_of_ok h with ⟨s₁, result, htrans, rfl, hreceipt⟩
  rcases transitionDb_of_ok htrans with ⟨gas, hgas, hcover, hchecked, -, hsettle⟩
  rcases settleGas_of_ok hsettle with ⟨rfl, hused⟩
  let bought := s.subBalance msg.sender (msg.gas.toNat * msg.gasPrice)
  have hbought : bought.getBalance = post s.getBalance
      (msg.sender, -(msg.gas.toNat * msg.gasPrice)) := StateDB.getBalance_subBalance ..
  -- Gas is bought below the cap the funds were checked against, so the value is left.
  have hfunds : msg.value ≤ bought.getBalance msg.sender := by
    have hcap := Int.mul_le_mul_of_nonneg_left hprice (Int.natCast_nonneg msg.gas.toNat)
    have hcheck := hchecked.funds
    rw [hbought, post_apply, if_pos rfl]
    omega
  have hexec := @execute_plain ext ctx msg
    (bought.prepareAccessList msg.sender msg.toAddr precompiledContracts) recipient (msg.gas - gas)
    hto ((getCode_subBalance ..).trans hcode) hpre hfunds
  rcases hexec with ⟨hbal, hleft, hkeep⟩
  change _ = postAll bought.getBalance _ at hbal
  rw [hbought] at hbal
  have hsold : bought.Settled := hsettled.subBalance msg.sender _
  have hkept := hkeep hsold
  -- The intrinsic gas is used, whatever the refund counter says.
  have hintrinsic := intrinsicGas_le hgas
  have hless : msg.gas - gas < msg.gas := by
    have hcover' := UInt64.le_iff_toNat_le.1 hcover
    rw [UInt64.lt_iff_toNat_lt, UInt64.toNat_sub_of_le _ _ hcover]
    omega
  rw [hleft] at hused ⊢
  rw [hreceipt]
  refine ⟨_, hused ▸ toNat_usedGas _ (UInt64.le_of_lt hless), hused ▸ usedGas_pos _ hless,
    hchecked.feeCap, ?_⟩
  · rw [StateDB.getBalance_finalise_of_settled ((hkept.addBalance _ _).addBalance _ _),
      StateDB.getBalance_addBalance, StateDB.getBalance_addBalance, hbal]
    rfl

end Effect

section Message

variable {ext : Externals} {tx : Transfer} {baseFee : UInt64} {msg : Message}

theorem transferTxAsMessage_of_ok (h : transferTxAsMessage ext tx (int64 baseFee) = .ok msg) :
    tx.addrFrom ext.toCrypto = .ok msg.sender ∧ msg.toAddr = tx.toAddr ∧
      msg.value = int64 tx.value ∧ msg.gasPrice = min (int64 tx.gasPrice + int64 baseFee)
        (int64 tx.gasPrice) ∧ msg.gasFeeCap = int64 tx.gasPrice ∧
      msg.gasTipCap = int64 tx.gasPrice := by
  unfold transferTxAsMessage at h
  rcases bind_eq_ok.1 h with ⟨sender, hsender, h⟩
  rw [pure_eq_ok] at h
  subst h
  exact ⟨hsender, rfl, rfl, rfl, rfl, rfl⟩

end Message

theorem plainTransfer_balance {f : Address → Int} {sender recipient minter : Address}
    {gas back used : Nat} {price value tip : Int} (hgas : back + used = gas) (x : Address) :
    postAll f [(sender, -(gas * price)), (sender, -value), (recipient, value),
        (sender, back * price), (minter, used * tip)] x =
      f x - (if sender = x then value + used * price else 0) +
        (if recipient = x then value else 0) + (if minter = x then used * tip else 0) := by
  have hsum : (gas : Int) * price = back * price + used * price := by
    rw [← hgas, Nat.cast_add, add_mul]
  rw [postAll_apply]
  simp only [share_cons, share_nil, hsum]
  split <;> split <;> split <;> omega

/-- An accepted transfer to an account without code moves the balances as it should
    exactly when neither its value nor the base fee is read as negative. -/
theorem plainTransfer_iff (ext : Externals) {ctx : BlockContext} {msg : Message} {tx : Transfer}
    {baseFee : UInt64} {s s₁ s' : StateDB} {gp gp' usedGas usedGas' : UInt64}
    {blockNumber : Int} {blockHash : Hash} {receipt : Receipt} {recipient : Address}
    (hsettled : s.Settled) (haccept : validateTransferTxn ext.toCrypto tx s = .ok s₁)
    (hmsg : transferTxAsMessage ext tx (int64 baseFee) = .ok msg)
    (hctx : ctx.baseFee = int64 baseFee)
    (happly : applyTransaction ext ctx msg gp s₁ blockNumber blockHash tx usedGas
      = .ok (s', gp', usedGas', receipt))
    (hto : tx.toAddr = some recipient) (hcode : s.getCode recipient = [])
    (hpre : recipient ∉ precompiledContracts) (hself : recipient ≠ msg.sender)
    (hminter : recipient ≠ ctx.coinbase) :
    PlainTransfer tx baseFee msg.sender recipient ctx.coinbase receipt.gasUsed s s' ↔
      tx.value.toNat < 2 ^ 63 ∧ baseFee.toNat < 2 ^ 63 := by
  rcases (validateTransferTxn_eq_ok ext.toCrypto).1 haccept with ⟨addrFrom, -, rfl⟩
  rcases transferTxAsMessage_of_ok hmsg with ⟨-, hmto, hvalue, hprice, hfee, htip⟩
  have hcode₁ : (s.getOrNewStateObject addrFrom).getCode recipient = [] := by
    unfold StateDB.getCode
    rw [StateDB.account_getOrNewStateObject]
    exact hcode
  have hcap : msg.gasPrice ≤ msg.gasFeeCap := by
    rw [hprice, hfee]
    exact min_le_right _ _
  rcases applyTransaction_plain (hsettled.getOrNewStateObject addrFrom) (hmto.trans hto) hcode₁
    hpre hcap happly with ⟨back, hgas, hused, hbase, hpost⟩
  rw [StateDB.getBalance_getOrNewStateObject, hvalue, hprice, hfee, htip, hctx] at hpost
  rw [hctx, hfee] at hbase
  have hbalance := fun x => (congrFun hpost x).trans (plainTransfer_balance hgas x)
  have hpos : (0 : Int) < receipt.gasUsed.toNat := Int.natCast_pos.2 hused
  have heffective : (tx.effectiveGasPrice baseFee : Int) = tx.gasPrice.toNat := by
    unfold Transfer.effectiveGasPrice
    rw [Nat.min_eq_right (Nat.le_add_right _ _)]
  constructor
  · intro h
    have hrecipient := h.credited
    rw [hbalance, if_neg (Ne.symm hself), if_pos rfl, if_neg (Ne.symm hminter)] at hrecipient
    refine ⟨(int64_nonneg_iff _).1 (by omega), ?_⟩
    by_contra hlarge
    -- A negative base fee lowers the price below the transfer's own.
    have hneg := int64_of_le (Nat.not_lt.1 hlarge)
    have hlt := baseFee.toNat_lt
    have hle := int64_le_toNat tx.gasPrice
    have hcharged := h.charged
    rw [hbalance, if_pos rfl, if_neg hself, heffective, min_eq_left (by omega),
      min_eq_left (by omega)] at hcharged
    by_cases hm : ctx.coinbase = msg.sender
    · rw [if_pos hm, if_pos hm] at hcharged
      have hcancel : (receipt.gasUsed.toNat : Int) * int64 baseFee
          = receipt.gasUsed.toNat * baseFee.toNat := by
        linarith
      have heq := Int.eq_of_mul_eq_mul_left hpos.ne' hcancel
      omega
    · rw [if_neg hm, if_neg hm] at hcharged
      have hcancel : (receipt.gasUsed.toNat : Int) * (int64 tx.gasPrice + int64 baseFee)
          = receipt.gasUsed.toNat * tx.gasPrice.toNat := by
        linarith
      have heq := Int.eq_of_mul_eq_mul_left hpos.ne' hcancel
      omega
  · rintro ⟨hv, hb⟩
    -- Neither is read as negative, and the gas price is at least the base fee.
    have hvalue' := int64_of_lt hv
    have hbase' := int64_of_lt hb
    have hprice' := int64_of_lt ((int64_nonneg_iff tx.gasPrice).1 (by omega))
    rw [hvalue', hbase', hprice', min_eq_right (by omega), min_eq_right (by omega)] at hbalance
    rw [hbase', hprice'] at hbase
    have htip' : 0 ≤ (receipt.gasUsed.toNat : Int) * (tx.gasPrice.toNat - baseFee.toNat) :=
      Int.mul_nonneg hpos.le (by omega)
    refine ⟨?_, ?_, fun x hs hr hm => ?_, fun x hs => ?_⟩
    · rw [hbalance, if_neg (Ne.symm hself), if_pos rfl, if_neg (Ne.symm hminter)]
      omega
    · rw [hbalance, if_pos rfl, if_neg hself, heffective]
      omega
    · rw [hbalance, if_neg (Ne.symm hs), if_neg (Ne.symm hr), if_neg (Ne.symm hm)]
      omega
    · rw [hbalance, if_neg (Ne.symm hs)]
      split <;> split <;> omega

def toyContext : BlockContext :=
  { getHash := fun _ => zeroHash, coinbase := zeroAddress, gasLimit := Config.blockGasLimit
    blockNumber := 1, time := 0, baseFee := 0, random := zeroHash }

def toyBalances : StateDB :=
  StateDB.new ((AssocMap.empty.put (toyAddress 2) { Account.new with balance := 42000 }).put
    (toyAddress 3) { Account.new with balance := 1000 })

def toyTransfer (value : UInt64) : Transfer :=
  (newTransfer 0 (toyAddress 3).val value 21000 1 [] 0 (toyKey 2).pk).signDilithium
    toyCrypto (toyKey 2)

def runToyTransfer (tx : Transfer) : Go (Message × StateDB × Receipt) := do
  let s ← validateTransferTxn toyExternals.toCrypto tx toyBalances
  let msg ← transferTxAsMessage toyExternals tx (int64 0)
  let (s, _, _, receipt) ← applyTransaction toyExternals toyContext msg 100000 s 1 zeroHash tx 0
  pure (msg, s, receipt)

theorem runToyTransfer_of_ok {tx : Transfer} {msg : Message} {s : StateDB} {receipt : Receipt}
    (h : runToyTransfer tx = .ok (msg, s, receipt)) :
    ∃ s₁ gp usedGas, validateTransferTxn toyExternals.toCrypto tx toyBalances = .ok s₁ ∧
      transferTxAsMessage toyExternals tx (int64 0) = .ok msg ∧
      applyTransaction toyExternals toyContext msg 100000 s₁ 1 zeroHash tx 0
        = .ok (s, gp, usedGas, receipt) := by
  rcases bind_eq_ok.1 h with ⟨s₁, hvalid, h⟩
  rcases bind_eq_ok.1 h with ⟨msg₁, hmsg, h⟩
  rcases bind_eq_ok.1 h with ⟨⟨s₂, gp, usedGas, r⟩, happly, h⟩
  rcases h with ⟨rfl, rfl, rfl⟩
  exact ⟨s₁, gp, usedGas, hvalid, hmsg, happly⟩

theorem toyTransfer_plain : ∃ msg s' receipt,
    runToyTransfer (toyTransfer 20000) = .ok (msg, s', receipt) ∧
      PlainTransfer (toyTransfer 20000) 0 msg.sender (toyAddress 3) toyContext.coinbase
        receipt.gasUsed toyBalances s' := by
  have hok : (runToyTransfer (toyTransfer 20000)).toBool = true := by decide +kernel
  rcases exists_ok_of_toBool hok with ⟨⟨msg, s', receipt⟩, hrun⟩
  rcases runToyTransfer_of_ok hrun with ⟨s₁, gp, usedGas, hvalid, hmsg, happly⟩
  have hsender : msg.sender = toyAddress 2 := by
    have hfrom := (transferTxAsMessage_of_ok hmsg).1
    have htoy : (toyTransfer 20000).addrFrom toyExternals.toCrypto = .ok (toyAddress 2) := by
      decide +kernel
    exact Except.ok.inj (hfrom.symm.trans htoy)
  refine ⟨msg, s', receipt, hrun, ?_⟩
  refine (plainTransfer_iff toyExternals (StateDB.settled_new _) hvalid hmsg rfl happly
    (by decide +kernel) (by decide +kernel) (by decide +kernel) ?_ (by decide +kernel)).2
    ⟨by decide, by decide⟩
  rw [hsender]
  decide +kernel

/-- A transfer of `2 ^ 64 - 1000` is accepted from a sender with 42000 and takes
    the recipient's 1000 instead. -/
theorem theft_by_transfer : ∃ msg s' receipt,
    runToyTransfer (toyTransfer (0 - 1000)) = .ok (msg, s', receipt) ∧
      toyBalances.Settled ∧ (toyTransfer (0 - 1000)).toAddr = some (toyAddress 3) ∧
      toyBalances.getCode (toyAddress 3) = [] ∧ toyAddress 3 ∉ precompiledContracts ∧
      toyAddress 3 ≠ msg.sender ∧ toyAddress 3 ≠ toyContext.coinbase ∧
      toyBalances.getBalance (toyAddress 3) = 1000 ∧ s'.getBalance (toyAddress 3) = 0 ∧
      ¬PlainTransfer (toyTransfer (0 - 1000)) 0 msg.sender (toyAddress 3) toyContext.coinbase
        receipt.gasUsed toyBalances s' := by
  have hbal : (runToyTransfer (toyTransfer (0 - 1000))).map
      (fun r => (r.1.sender, r.2.1.getBalance (toyAddress 3))) = .ok (toyAddress 2, 0) := by
    decide +kernel
  cases hrun : runToyTransfer (toyTransfer (0 - 1000)) with
  | error e =>
    rw [hrun] at hbal
    cases hbal
  | ok r =>
    rcases r with ⟨msg, s', receipt⟩
    rw [hrun] at hbal
    simp only [Except.map, Except.ok.injEq, Prod.mk.injEq] at hbal
    rcases hbal with ⟨hsender, hzero⟩
    have hbefore : toyBalances.getBalance (toyAddress 3) = 1000 := by decide +kernel
    refine ⟨msg, s', receipt, rfl, StateDB.settled_new _, by decide +kernel, by decide +kernel,
      by decide +kernel, ?_, by decide +kernel, hbefore, hzero, fun h => ?_⟩
    · rw [hsender]
      decide +kernel
    · have hcredited := h.credited
      rw [hzero, hbefore] at hcredited
      omega

end Zond
