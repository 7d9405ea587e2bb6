import Zond.Core.Vm

/-!
# State Transition

The three prices of a message are integers that may be negative, since they come
from `uint64` fields by way of `int64`.

## Main definitions

* `preCheck`: The checks before execution, and buying gas.
* `transitionDb`: One message: the call or the creation, the refund and the tip.
-/

namespace Zond

structure Message where
  sender : Address
  toAddr : Option Address
  nonce : UInt64
  value : Int
  gas : UInt64
  gasPrice : Int
  gasFeeCap : Int
  gasTipCap : Int
  data : List UInt8

structure ExecutionResult where
  usedGas : UInt64
  err : Option VmError
  returnData : List UInt8

namespace GasPool

def subGas (gp amount : UInt64) : Go UInt64 :=
  if gp < amount then .error (.error .gasLimitReached) else .ok (gp - amount)

/-- `GasPool.AddGas`: pushing the pool above `uint64` panics. -/
def addGas (gp amount : UInt64) : Go UInt64 :=
  if (0xFFFFFFFFFFFFFFFF - amount) < gp then .error (.panic .gasPoolOverflow)
  else .ok (gp + amount)

end GasPool

/-- One step of the data charge: `count` bytes at `price` each, refused when the
    sum would pass `uint64`. -/
def chargeBytes (gas price count : UInt64) : Go UInt64 := do
  errorIf ((0xFFFFFFFFFFFFFFFF - gas) / price < count) .gasUintOverflow
  pure (gas + count * price)

def intrinsicGas (data : List UInt8) (isContractCreation : Bool) : Go UInt64 :=
  let gas := if isContractCreation then Config.txGasContractCreation else Config.txGas
  if data.length = 0 then .ok gas
  else do
    let nz := data.countP (fun b => b ≠ 0)
    let gas ← chargeBytes gas Config.txDataNonZeroGas (UInt64.ofNat nz)
    chargeBytes gas Config.txDataZeroGas (UInt64.ofNat data.length - UInt64.ofNat nz)

/-- `StateTransition.buyGas`: the balance must cover the fee cap and the value,
    and the gas is paid at the message's gas price. -/
def buyGas (msg : Message) (s : StateDB) (gp : UInt64) : Go (StateDB × UInt64) := do
  let mgval : Int := msg.gas.toNat * msg.gasPrice
  let balanceCheck : Int := msg.gas.toNat * msg.gasFeeCap + msg.value
  errorIf (s.getBalance msg.sender < balanceCheck)
    (.insufficientFunds msg.sender (s.getBalance msg.sender) balanceCheck)
  let gp ← GasPool.subGas gp msg.gas
  pure (s.subBalance msg.sender mgval, gp)

def preCheck (ctx : BlockContext) (msg : Message) (s : StateDB) (gp : UInt64) :
    Go (StateDB × UInt64) := do
  let stNonce := s.getNonce msg.sender
  errorIf (stNonce < msg.nonce) (.nonceTooHigh msg.sender msg.nonce stNonce)
  errorIf (msg.nonce < stNonce) (.nonceTooLow msg.sender msg.nonce stNonce)
  errorIf (stNonce + 1 < stNonce) (.nonceMax msg.sender stNonce)
  errorIf (s.getCode msg.sender ≠ []) (.senderNoEOA msg.sender)
  errorIf (2 ^ 256 ≤ msg.gasFeeCap.natAbs) (.feeCapVeryHigh msg.sender)
  errorIf (2 ^ 256 ≤ msg.gasTipCap.natAbs) (.tipVeryHigh msg.sender)
  errorIf (msg.gasFeeCap < msg.gasTipCap)
    (.tipAboveFeeCap msg.sender msg.gasTipCap msg.gasFeeCap)
  errorIf (msg.gasFeeCap < ctx.baseFee) (.feeCapTooLow msg.sender msg.gasFeeCap ctx.baseFee)
  buyGas msg s gp

/-- The call or creation a message asks for, with the gas left after the
    intrinsic charge. -/
def execute (ext : Externals) (ctx : BlockContext) (msg : Message) (s : StateDB)
    (gas : UInt64) : FrameResult :=
  let txCtx : TxContext := { origin := msg.sender, gasPrice := msg.gasPrice }
  match msg.toAddr with
  | none => Vm.create ext ctx txCtx s msg.sender msg.data gas msg.value
  | some addr =>
    Vm.call ext ctx txCtx (s.setNonce msg.sender (s.getNonce msg.sender + 1)) msg.sender addr
      msg.data gas msg.value

/-- The gas left after the refund counter is applied, at most a fifth of what was
    used. -/
def refundedGas (initialGas gas refund : UInt64) : UInt64 :=
  gas + min ((initialGas - gas) / Config.refundQuotient) refund

/-- `StateTransition.refundGas` and the tip: the unused gas goes back to the
    sender and to the pool, the tip on the used gas to the proposer. -/
def settleGas (ctx : BlockContext) (msg : Message) (r : FrameResult) (gp : UInt64) :
    Go (StateDB × UInt64 × ExecutionResult) := do
  let gas := refundedGas msg.gas r.gas r.state.refund
  let s := r.state.addBalance msg.sender (gas.toNat * msg.gasPrice)
  let gp ← GasPool.addGas gp gas
  let used := msg.gas - gas
  let effectiveTip := min msg.gasTipCap (msg.gasFeeCap - ctx.baseFee)
  let s := s.addBalance ctx.coinbase (used.toNat * effectiveTip)
  pure (s, gp, { usedGas := used, err := r.err, returnData := r.ret })

def transitionDb (ext : Externals) (ctx : BlockContext) (msg : Message) (s : StateDB)
    (gp : UInt64) : Go (StateDB × UInt64 × ExecutionResult) := do
  let (s, gp) ← preCheck ctx msg s gp
  let gas ← intrinsicGas msg.data msg.toAddr.isNone
  errorIf (msg.gas < gas) (.intrinsicGas msg.gas gas)
  errorIf (0 < msg.value ∧ ¬Vm.CanTransfer s msg.sender msg.value)
    (.insufficientFundsForTransfer msg.sender)
  let s := s.prepareAccessList msg.sender msg.toAddr precompiledContracts
  settleGas ctx msg (execute ext ctx msg s (msg.gas - gas)) gp

end Zond
