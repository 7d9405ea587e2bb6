import Zond.Core.Apply
import Zond.Theory.Ledger

/-!
# What a Message Has Passed

## Main definitions

* `MessageChecked`: The checks a message has passed.

## Theorems

* `transitionDb_of_ok`: The state transition taken apart at its successful end: the checks, the
  gas that was charged and the postings around the call or creation.
-/

namespace Zond

open Outcome

variable {gp gp' gas initialGas : UInt64} {ctx : BlockContext} {msg : Message} {s s' : StateDB}
variable {ext : Externals}

theorem getCode_setNonce (s : StateDB) (addr : Address) (n : UInt64) (x : Address) :
    (s.setNonce addr n).getCode x = s.getCode x :=
  StateDB.proj_modify Account.code s addr (fun a => { a with nonce := n }) (fun _ => rfl) x

open Postings

/-- What `preCheck` has checked of a message it lets through. -/
structure MessageChecked (ctx : BlockContext) (msg : Message) (s : StateDB) (gp : UInt64) :
    Prop where
  nonce : msg.nonce = s.getNonce msg.sender
  code : s.getCode msg.sender = []
  feeCap : ctx.baseFee ≤ msg.gasFeeCap
  funds : msg.gas.toNat * msg.gasFeeCap + msg.value ≤ s.getBalance msg.sender
  pool : msg.gas ≤ gp

theorem subGas_eq_ok {amount : UInt64} :
    GasPool.subGas gp amount = .ok gp' ↔ amount ≤ gp ∧ gp' = gp - amount := by
  unfold GasPool.subGas
  by_cases h : gp < amount
  · rw [if_pos h]
    exact ⟨fun hok => (nomatch hok), fun hle => absurd h (UInt64.not_lt.2 hle.1)⟩
  · rw [if_neg h, Except.ok.injEq]
    exact ⟨fun heq => ⟨UInt64.not_lt.1 h, heq.symm⟩, fun hle => hle.2.symm⟩

/-- `preCheck` buys the gas, and the message passed its tests. -/
theorem preCheck_of_ok (h : preCheck ctx msg s gp = .ok (s', gp')) : MessageChecked ctx msg s gp ∧
      s' = s.subBalance msg.sender (msg.gas.toNat * msg.gasPrice) ∧ gp' = gp - msg.gas := by
  unfold preCheck buyGas at h
  simp only [bind_eq_ok, errorIf_eq_ok, exists_const, pure_eq_ok, subGas_eq_ok,
    UInt64.not_lt, Int.not_lt, Prod.mk.injEq, ne_eq, not_not] at h
  rcases h with ⟨hhigh, hlow, -, hcode, -, -, -, hcap, hfunds, -, ⟨hpool, rfl⟩, rfl, rfl⟩
  exact ⟨⟨UInt64.le_antisymm hhigh hlow, hcode, hcap, hfunds, hpool⟩, rfl, rfl⟩

/-- A message that is applied paid for its gas first, then ran, then was settled. -/
theorem transitionDb_of_ok {result : ExecutionResult}
    (h : transitionDb ext ctx msg s gp = .ok (s', gp', result)) :
    let bought := s.subBalance msg.sender (msg.gas.toNat * msg.gasPrice)
    ∃ gas, intrinsicGas msg.data msg.toAddr.isNone = .ok gas ∧ gas ≤ msg.gas ∧
      MessageChecked ctx msg s gp ∧
      (0 < msg.value → msg.value ≤ bought.getBalance msg.sender) ∧
      settleGas ctx msg
        (execute ext ctx msg
          (bought.prepareAccessList msg.sender msg.toAddr precompiledContracts) (msg.gas - gas))
        (gp - msg.gas) = .ok (s', gp', result) := by
  rcases bind_eq_ok.1 h with ⟨⟨s₁, gp₁⟩, hpre, h⟩
  rcases preCheck_of_ok hpre with ⟨hchecked, rfl, rfl⟩
  rcases bind_eq_ok.1 h with ⟨gas, hgas, h⟩
  rcases errorIf_bind_eq_ok.1 h with ⟨hcover, h⟩
  rcases errorIf_bind_eq_ok.1 h with ⟨hvalue, h⟩
  refine ⟨gas, hgas, UInt64.not_lt.1 hcover, hchecked, fun hpos => ?_, h⟩
  exact Decidable.not_not.1 (fun hn => hvalue ⟨hpos, hn⟩)

theorem chargeBytes_le {price count gas' : UInt64} (hprice : 0 < price.toNat)
    (h : chargeBytes gas price count = .ok gas') : gas.toNat ≤ gas'.toNat := by
  unfold chargeBytes at h
  rcases errorIf_bind_eq_ok.1 h with ⟨hfit, h⟩
  rw [pure_eq_ok] at h
  subst h
  have hle := UInt64.le_iff_toNat_le.1 (UInt64.not_lt.1 hfit)
  have hgas := gas.toNat_lt
  have hsub : (0xFFFFFFFFFFFFFFFF - gas : UInt64).toNat = 2 ^ 64 - 1 - gas.toNat := by
    rw [UInt64.toNat_sub_of_le _ _ (UInt64.le_iff_toNat_le.2 (by change _ ≤ 2 ^ 64 - 1; omega))]
    rfl
  rw [UInt64.toNat_div, hsub] at hle
  have hmul : count.toNat * price.toNat ≤ 2 ^ 64 - 1 - gas.toNat :=
    (Nat.le_div_iff_mul_le hprice).1 hle
  rw [UInt64.toNat_add, UInt64.toNat_mul]
  rw [Nat.mod_eq_of_lt (a := count.toNat * price.toNat) (by omega), Nat.mod_eq_of_lt (by omega)]
  omega

/-- Every message pays for a transaction at least. -/
theorem intrinsicGas_le {data : List UInt8} {creation : Bool}
    (h : intrinsicGas data creation = .ok gas) : 21000 ≤ gas.toNat := by
  have hbase : 21000 ≤ (if creation then Config.txGasContractCreation else Config.txGas).toNat := by
    cases creation <;> decide
  unfold intrinsicGas at h
  by_cases hdata : data.length = 0
  · simp only [if_pos hdata, Except.ok.injEq] at h
    rw [← h]
    exact hbase
  · simp only [if_neg hdata] at h
    rcases bind_eq_ok.1 h with ⟨gas₁, h₁, h₂⟩
    have hnonzero := chargeBytes_le (by decide) h₁
    have hzero := chargeBytes_le (by decide) h₂
    omega

theorem toNat_min (x y : UInt64) : (min x y).toNat = min x.toNat y.toNat := by
  rw [show min x y = if x ≤ y then x else y from rfl]
  by_cases h : x ≤ y
  · rw [if_pos h, Nat.min_eq_left (UInt64.le_iff_toNat_le.1 h)]
  · have hlt := UInt64.lt_iff_toNat_lt.1 (UInt64.not_le.1 h)
    rw [if_neg h, Nat.min_eq_right (Nat.le_of_lt hlt)]

/-- At most a fifth of the gas used is refunded. -/
theorem toNat_refundedGas (refund : UInt64) (h : gas ≤ initialGas) :
    (refundedGas initialGas gas refund).toNat =
      gas.toNat + min ((initialGas.toNat - gas.toNat) / 5) refund.toNat := by
  have hle := UInt64.le_iff_toNat_le.1 h
  have hlt := initialGas.toNat_lt
  have hfifth : ((initialGas - gas) / Config.refundQuotient).toNat
      = (initialGas.toNat - gas.toNat) / 5 := by
    rw [UInt64.toNat_div, UInt64.toNat_sub_of_le _ _ h]
    rfl
  unfold refundedGas
  rw [UInt64.toNat_add, toNat_min, hfifth]
  exact Nat.mod_eq_of_lt (by omega)

/-- What comes back and what is charged make up what was bought. -/
theorem toNat_usedGas (refund : UInt64) (h : gas ≤ initialGas) :
    (refundedGas initialGas gas refund).toNat +
      (initialGas - refundedGas initialGas gas refund).toNat = initialGas.toNat := by
  have hle := UInt64.le_iff_toNat_le.1 h
  have hback := toNat_refundedGas refund h
  have hfit : refundedGas initialGas gas refund ≤ initialGas := by
    rw [UInt64.le_iff_toNat_le]
    omega
  rw [UInt64.toNat_sub_of_le _ _ hfit]
  have hfit' := UInt64.le_iff_toNat_le.1 hfit
  omega

/-- A refund never covers all that was used. -/
theorem usedGas_pos (refund : UInt64) (h : gas < initialGas) :
    0 < (initialGas - refundedGas initialGas gas refund).toNat := by
  have hlt := UInt64.lt_iff_toNat_lt.1 h
  have hback := toNat_refundedGas refund (UInt64.le_of_lt h)
  have hsum := toNat_usedGas refund (UInt64.le_of_lt h)
  omega

/-- Settling pays the sender for the gas left and the coinbase for the gas used. -/
theorem settleGas_of_ok {r : FrameResult} {result : ExecutionResult}
    (h : settleGas ctx msg r gp = .ok (s', gp', result)) :
    let back := refundedGas msg.gas r.gas r.state.refund
    s' = (r.state.addBalance msg.sender (back.toNat * msg.gasPrice)).addBalance ctx.coinbase
        (result.usedGas.toNat * min msg.gasTipCap (msg.gasFeeCap - ctx.baseFee)) ∧
      result.usedGas = msg.gas - back := by
  rcases bind_eq_ok.1 h with ⟨gp₁, -, h⟩
  rcases h with ⟨rfl, -, rfl⟩
  exact ⟨rfl, rfl⟩

/-- The receipt has the gas of the transition. -/
theorem applyTransaction_of_ok {tx : Transfer} {usedGas usedGas' : UInt64} {blockNumber : Int}
    {blockHash : Hash} {receipt : Receipt}
    (h : applyTransaction ext ctx msg gp s blockNumber blockHash tx usedGas
      = .ok (s', gp', usedGas', receipt)) :
    ∃ s₁ result, transitionDb ext ctx msg s gp = .ok (s₁, gp', result) ∧ s' = s₁.finalise ∧
      receipt.gasUsed = result.usedGas := by
  rcases bind_eq_ok.1 h with ⟨⟨s₁, gp₁, result⟩, htrans, h⟩
  rcases h with ⟨rfl, rfl, -, rfl⟩
  exact ⟨s₁, result, htrans, rfl, rfl⟩

section Rewards

variable {s : StateDB} {signer : Address} {credits : List Int} {charge : Int}

theorem proj_credits {β : Type} (f : Account → β) (hf : ∀ a b, f { a with balance := b } = f a)
    (x : Address) : f ((credits.foldl (fun s amount => s.addBalance signer amount) s).account x) =
      f (s.account x) := by
  induction credits generalizing s with
  | nil => rfl
  | cons amount rest ih => rw [List.foldl_cons, ih, StateDB.proj_addBalance f _ _ _ hf]

/-- A reward changes only balances and the nonce. -/
theorem proj_payReward {β : Type} (f : Account → β) (hf : ∀ a b, f { a with balance := b } = f a)
    (hn : ∀ a n, f { a with nonce := n } = f a) (x : Address) :
    f ((payReward s signer credits charge).account x) = f (s.account x) := by
  unfold payReward StateDB.setNonce
  rw [StateDB.proj_subBalance f _ _ _ hf, StateDB.proj_modify f _ _ _ (fun a => hn a _),
    proj_credits f hf]

end Rewards

section Plain

variable {s : StateDB} {caller addr : Address} {value : Int}

theorem getBalance_createAccount (s : StateDB) (addr : Address) :
    (s.createAccount addr).getBalance = s.getBalance := by
  funext x
  unfold StateDB.getBalance
  rw [StateDB.account_createAccount]
  by_cases h : addr = x
  · rw [if_pos h, h]
  · rw [if_neg h]

/-- A transfer takes from the one what it gives to the other. -/
theorem getBalance_transfer (s : StateDB) (caller addr : Address) (value : Int) :
    (Vm.transfer s caller addr value).getBalance =
      postAll s.getBalance [(caller, -value), (addr, value)] := by
  unfold Vm.transfer
  rw [StateDB.getBalance_addBalance, StateDB.getBalance_subBalance]
  rfl

theorem getCode_transfer (s : StateDB) (caller addr : Address) (value : Int) (x : Address) :
    (Vm.transfer s caller addr value).getCode x = s.getCode x := by
  unfold Vm.transfer StateDB.getCode
  rw [StateDB.proj_addBalance Account.code _ _ _ (fun _ _ => rfl),
    StateDB.proj_subBalance Account.code _ _ _ (fun _ _ => rfl)]

theorem opened_spec (hcode : s.getCode addr = []) :
    let opened := if s.exist addr then s else s.createAccount addr
    opened.getBalance = s.getBalance ∧ opened.getCode addr = [] ∧
      (s.Settled → opened.Settled) := by
  by_cases h : s.exist addr = true
  · simp only [h, if_true]
    exact ⟨trivial, hcode, id⟩
  · simp only [h, Bool.false_eq_true, if_false]
    refine ⟨getBalance_createAccount s addr, ?_, fun hs => hs.createAccount addr⟩
    unfold StateDB.getCode
    rw [StateDB.account_createAccount, if_pos rfl]
    rfl

/-- A call of an account without code moves the value and uses no gas. -/
theorem call_plain {txCtx : TxContext}
    {input : List UInt8} (hfunds : value ≠ 0 → Vm.CanTransfer s caller value)
    (hcode : s.getCode addr = []) (hpre : addr ∉ precompiledContracts) :
    let r := Vm.call ext ctx txCtx s caller addr input gas value
    r.state.getBalance = postAll s.getBalance [(caller, -value), (addr, value)] ∧
      r.gas = gas ∧ (s.Settled → r.state.Settled) := by
  have hrefuse : ¬(value ≠ 0 ∧ ¬Vm.CanTransfer s caller value) := fun h => h.2 (hfunds h.1)
  unfold Vm.call
  rw [if_neg hrefuse]
  by_cases hskip : s.exist addr = false ∧ addr ∉ precompiledContracts ∧ value = 0
  · -- Nothing is there and nothing is sent.
    rw [if_pos hskip, hskip.2.2]
    refine ⟨?_, rfl, id⟩
    funext x
    simp only [postAll_apply, share_cons, share_nil, neg_zero, ite_self, add_zero]
  · rw [if_neg hskip]
    rcases opened_spec hcode with ⟨hbal, hopen, hsettled⟩
    have hrun : (Vm.transfer (if s.exist addr then s else s.createAccount addr) caller addr
        value).getCode addr = [] := by
      rw [getCode_transfer]
      exact hopen
    simp only [Vm.runCode, if_neg hpre, hrun, Vm.closeFrame]
    refine ⟨?_, trivial, fun hs => ?_⟩
    · rw [getBalance_transfer, hbal]
    · exact ((hsettled hs).subBalance caller value).addBalance addr value

end Plain

end Zond
