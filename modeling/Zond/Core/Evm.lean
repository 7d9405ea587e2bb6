import Zond.Core.Vm

/-!
# Contract Code

What running contract code can do to the state. The program, its stack, its memory
and its gas are left open: code is any sequence of instructions. A frame that ends in
an error is reverted. Frames under `STATICCALL` may not write; they are not told apart
from others here, nor is the depth of the calls, so there are more runs than the
interpreter has.

## Main definitions

* `Evm.Runs`: A run for every sequence of the writes that instructions make.
* `Machine`: Externals whose interpreter makes such runs.
-/

namespace Zond

namespace StateDB

def getState (s : StateDB) (addr : Address) (key : Hash) : Hash :=
  ((s.account addr).storage.get key).getD zeroHash

/-- `StateDB.SetState`: the same value again is not written. -/
def setState (s : StateDB) (addr : Address) (key value : Hash) : StateDB :=
  let s := s.getOrNewStateObject addr
  if s.getState addr key = value then s
  else s.modify addr (fun a => { a with storage := a.storage.put key value })

def suicide (s : StateDB) (addr : Address) : StateDB :=
  match s.getStateObject addr with
  | none => s
  | some obj =>
    { s with
      stateObjects := s.stateObjects.put addr
        { obj with data := { obj.data with balance := 0 }, suicided := true }
      dirties := insertNew addr s.dirties }

/-- `StateDB.AddLog`: hash, transaction and index are filled in. -/
def addLog (s : StateDB) (log : Log) : StateDB :=
  let log := { log with txHash := s.thash, txIndex := s.txIndex, index := s.logSize }
  { s with
    logs := s.logs.put s.thash ((s.logs.get s.thash).getD [] ++ [log])
    logSize := s.logSize + 1 }

def addRefund (s : StateDB) (gas : UInt64) : StateDB := { s with refund := s.refund + gas }

/-- `StateDB.SubRefund`, when there is as much to take. -/
def subRefund (s : StateDB) (gas : UInt64) : StateDB := { s with refund := s.refund - gas }

def addSlotToAccessList (s : StateDB) (addr : Address) (slot : Hash) : StateDB :=
  { s with
    accessListAddresses := insertNew addr s.accessListAddresses
    accessListSlots := insertNew (addr, slot) s.accessListSlots }

end StateDB

namespace Evm

open StateDB

/-- The writes of an instruction that opens no frame, run for the account `self`: those of
    `SSTORE`, of the `LOG` family and of `SELFDESTRUCT`, and of the functions that charge gas. -/
inductive Instruction (self : Address) : StateDB → StateDB → Prop where
  | sstore (s : StateDB) (key value : Hash) : Instruction self s (s.setState self key value)
  | log (s : StateDB) (log : Log) : Instruction self s (s.addLog log)
  | addRefund (s : StateDB) (gas : UInt64) : Instruction self s (s.addRefund gas)
  | subRefund (s : StateDB) (gas : UInt64) : gas ≤ s.refund → Instruction self s (s.subRefund gas)
  | accessAddress (s : StateDB) (addr : Address) :
      Instruction self s (s.addAddressToAccessList addr)
  | accessSlot (s : StateDB) (slot : Hash) : Instruction self s (s.addSlotToAccessList self slot)
  | selfdestruct (s : StateDB) (beneficiary : Address) :
      Instruction self s ((s.addBalance beneficiary (s.getBalance self)).suicide self)

/-- The state `EVM.Call` runs the code at `addr` on: the account is opened, then paid. -/
def funded (s : StateDB) (self addr : Address) (value : Int) : StateDB :=
  Vm.transfer (if s.exist addr then s else s.createAccount addr) self addr value

/-- The state after `create` has raised the nonce of the creator. -/
def raised (s : StateDB) (self address : Address) : StateDB :=
  (s.setNonce self (s.getNonce self + 1)).addAddressToAccessList address

/-- The state `create` runs the code of the new contract on. -/
def founded (s : StateDB) (self address : Address) (value : Int) : StateDB :=
  Vm.transfer (((raised s self address).createAccount address).setNonce address 1) self address
    value

/-- The end of a frame: what it did, or the snapshot. -/
def Closes (snapshot inner s' : StateDB) : Prop :=
  s' = inner ∨ s' = inner.revertToSnapshot snapshot

variable (createAddress : Address → UInt64 → Address)
variable (createAddress2 : Address → Hash → Hash → Address)

/-- The address `CREATE` or `CREATE2` makes a contract at. -/
def Target (s : StateDB) (self address : Address) : Prop :=
  address = createAddress self (s.getNonce self) ∨
    ∃ salt hash, address = createAddress2 self salt hash

/-- What a frame that runs for the account `self` can do to the state, instruction by
    instruction. Values are unsigned. -/
inductive Runs : Address → StateDB → StateDB → Prop where
  | start {self : Address} (s : StateDB) : Runs self s s
  | step {self : Address} {s m s' : StateDB} : Runs self s m → Instruction self m s' →
      Runs self s s'
  /-- `CALL`; an account without code runs nothing. -/
  | call {self addr : Address} {s m inner s' : StateDB} {value : Nat} : Runs self s m →
      (value ≠ 0 → Vm.CanTransfer m self value) →
      ((funded m self addr value).getCode addr = [] → inner = funded m self addr value) →
      Runs addr (funded m self addr value) inner → Closes m inner s' → Runs self s s'
  /-- `CALLCODE` and `DELEGATECALL`: other code, run for the same account. -/
  | callCode {self : Address} {s m inner s' : StateDB} : Runs self s m → Runs self m inner →
      Closes m inner s' → Runs self s s'
  /-- `STATICCALL`, which touches the account called. -/
  | staticCall {self addr : Address} {s m inner s' : StateDB} : Runs self s m →
      ((m.addBalance addr 0).getCode addr = [] → inner = m.addBalance addr 0) →
      Runs addr (m.addBalance addr 0) inner → Closes m inner s' → Runs self s s'
  /-- `CREATE` and `CREATE2` at an address that is taken. -/
  | collide {self address : Address} {s m : StateDB} : Runs self s m →
      Target createAddress createAddress2 m self address →
      ¬m.getNonce self + 1 < m.getNonce self → Runs self s (raised m self address)
  /-- `CREATE` and `CREATE2`: the code that is returned may be stored. -/
  | create {self address : Address} {s m inner stored s' : StateDB} {value : Nat} :
      Runs self s m → Target createAddress createAddress2 m self address →
      Vm.CanTransfer m self value → ¬m.getNonce self + 1 < m.getNonce self →
      (raised m self address).getNonce address = 0 →
      (raised m self address).getCode address = [] →
      Runs address (founded m self address value) inner →
      (stored = inner ∨ ∃ code, stored = inner.setCode address code) →
      Closes (raised m self address) stored s' → Runs self s s'

end Evm

/-- Externals whose interpreter runs contract code. -/
structure Machine extends Externals where
  /-- `crypto.CreateAddress2`. -/
  createAddress2 : Address → Hash → Hash → Address
  interprets : ∀ ctx txCtx s contract input,
    Evm.Runs createAddress createAddress2 contract.self s
      (interpreterRun ctx txCtx s contract input).state

instance : Coe Machine Externals := ⟨Machine.toExternals⟩

end Zond
