import Mathlib.Logic.Equiv.Defs
import Zond.Core.StateDB
import Zond.Core.Transaction

/-!
# Calls and Contract Creation

All fork rules of the chain are active and the outermost frame has depth zero.

## Main definitions

* `Externals`: The bytecode interpreter, the precompiled contracts and the other
  libraries execution leans on.
* `call`, `create`: What `EVM.Call` and `EVM.Create` do to the state around the run of a
  contract's code.
-/

namespace Zond

/-- The errors of `core/vm` that a call can return. Those raised inside a
    contract other than a revert are not told apart. -/
inductive VmError where
  | outOfGas
  | codeStoreOutOfGas
  | insufficientBalance
  | contractAddressCollision
  | executionReverted
  | maxCodeSizeExceeded
  | invalidCode
  | nonceUintOverflow
  | other
deriving DecidableEq, Repr

structure BlockContext where
  getHash : UInt64 → Hash
  coinbase : Address
  gasLimit : UInt64
  blockNumber : Int
  time : UInt64
  baseFee : Int
  random : Hash

structure TxContext where
  origin : Address
  gasPrice : Int

structure Contract where
  caller : Address
  self : Address
  value : Int
  gas : UInt64
  code : List UInt8

/-- What a frame hands back: the state it leaves, the gas not spent, the returned
    data and the error, if any. -/
structure FrameResult where
  state : StateDB
  gas : UInt64
  ret : List UInt8
  err : Option VmError

structure Externals extends Crypto where
  /-- `EVMInterpreter.Run` on a contract and its input. -/
  interpreterRun : BlockContext → TxContext → StateDB → Contract → List UInt8 → FrameResult
  /-- `PrecompiledContract.RequiredGas`. -/
  precompileRequiredGas : Address → List UInt8 → UInt64
  /-- `PrecompiledContract.Run`. -/
  precompileRun : Address → List UInt8 → Except VmError (List UInt8)
  /-- `crypto.CreateAddress`. -/
  createAddress : Address → UInt64 → Address
  /-- The root hash of the state trie with the given accounts. -/
  stateRoot : (Address → Option Account) → Hash
  /-- The permutation `rand.Shuffle` applies to `n` items after `rand.Seed`. -/
  shuffle : Int → (n : Nat) → Equiv.Perm (Fin n)

/-- The keys of `PrecompiledContractsBerlin`. -/
def precompiledContracts : List Address :=
  ([1, 2, 3, 4, 5, 6, 7, 8, 9] : List UInt8).map (fun b => Bytes.alignRight 20 [b])

namespace Vm

def CanTransfer (s : StateDB) (addr : Address) (amount : Int) : Prop :=
  amount ≤ s.getBalance addr

instance (s : StateDB) (addr : Address) (amount : Int) : Decidable (CanTransfer s addr amount) :=
  inferInstanceAs (Decidable (_ ≤ _))

def transfer (s : StateDB) (sender recipient : Address) (amount : Int) : StateDB :=
  (s.subBalance sender amount).addBalance recipient amount

variable (ext : Externals) (ctx : BlockContext) (txCtx : TxContext)

def runPrecompiledContract (s : StateDB) (addr : Address) (input : List UInt8)
    (suppliedGas : UInt64) : FrameResult :=
  let gasCost := ext.precompileRequiredGas addr input
  if suppliedGas < gasCost then { state := s, gas := 0, ret := [], err := some .outOfGas }
  else match ext.precompileRun addr input with
    | .ok output => { state := s, gas := suppliedGas - gasCost, ret := output, err := none }
    | .error e => { state := s, gas := suppliedGas - gasCost, ret := [], err := some e }

/-- The end of a frame: an error reverts to the snapshot and, unless the code
    asked for the revert itself, takes the remaining gas. -/
def closeFrame (snapshot : StateDB) (r : FrameResult) : FrameResult :=
  match r.err with
  | none => r
  | some e =>
    { r with
      state := r.state.revertToSnapshot snapshot
      gas := if e = .executionReverted then r.gas else 0 }

/-- The code at an address, run on a state that already holds the transferred
    value: a precompile, nothing, or the interpreter. -/
def runCode (s : StateDB) (caller addr : Address) (input : List UInt8) (gas : UInt64)
    (value : Int) : FrameResult :=
  if addr ∈ precompiledContracts then runPrecompiledContract ext s addr input gas
  else match s.getCode addr with
    | [] => { state := s, gas := gas, ret := [], err := none }
    | code => ext.interpreterRun ctx txCtx s
        { caller := caller, self := addr, value := value, gas := gas, code := code } input

def call (s : StateDB) (caller addr : Address) (input : List UInt8) (gas : UInt64)
    (value : Int) : FrameResult :=
  if value ≠ 0 ∧ ¬CanTransfer s caller value then
    { state := s, gas := gas, ret := [], err := some .insufficientBalance }
  else if s.exist addr = false ∧ addr ∉ precompiledContracts ∧ value = 0 then
    -- Calling an account that does not exist without value does nothing.
    { state := s, gas := gas, ret := [], err := none }
  else
    let opened := if s.exist addr then s else s.createAccount addr
    let funded := transfer opened caller addr value
    closeFrame s (runCode ext ctx txCtx funded caller addr input gas value)

/-- The checks on the code a creation returned, and storing it. -/
def storeCode (addr : Address) (r : FrameResult) : FrameResult :=
  match r.err with
  | some _ => r
  | none =>
    if r.ret.length > Config.maxCodeSize then { r with err := some .maxCodeSizeExceeded }
    else if r.ret.head? = some 0xEF then { r with err := some .invalidCode }
    else
      let createDataGas := UInt64.ofNat r.ret.length * Config.createDataGas
      if r.gas < createDataGas then { r with err := some .codeStoreOutOfGas }
      else { r with state := r.state.setCode addr r.ret, gas := r.gas - createDataGas }

/-- `EVM.Create`: the new contract's address comes from the caller's nonce. -/
def create (s : StateDB) (caller : Address) (code : List UInt8) (gas : UInt64)
    (value : Int) : FrameResult :=
  let nonce := s.getNonce caller
  let address := ext.createAddress caller nonce
  if ¬CanTransfer s caller value then
    { state := s, gas := gas, ret := [], err := some .insufficientBalance }
  else if nonce + 1 < nonce then
    { state := s, gas := gas, ret := [], err := some .nonceUintOverflow }
  else
    let s := (s.setNonce caller (nonce + 1)).addAddressToAccessList address
    if s.getNonce address ≠ 0 ∨ s.getCode address ≠ [] then
      { state := s, gas := 0, ret := [], err := some .contractAddressCollision }
    else
      let opened := (s.createAccount address).setNonce address 1
      let funded := transfer opened caller address value
      let r := ext.interpreterRun ctx txCtx funded
        { caller := caller, self := address, value := value, gas := gas, code := code } []
      closeFrame s (storeCode address r)

end Vm

end Zond
