import Zond.Core.Evm
import Zond.Theory.Drift

/-!
# Invariants of Frames

A rule for invariants of the virtual machine. What keeps an invariant is said once for
each kind of write the machine makes, together with the accounts that frames may run for;
the rule gives it for contract code, for calls and creations, and for whole messages. An
invariant may ask that what is paid is not negative and is there to be paid.

## Main definitions

* `Machine.Creates`: The addresses contracts can be made at.
* `Machine.Apart`: Contracts are made neither at the address of a key nor at the reserve.
* `Machine.Invariant`: What the writes of the machine keep.

## Theorems

* `Machine.Invariant.runs`: Contract code keeps an invariant.
* `Machine.Invariant.transitionDb`: So does a message.
-/

namespace Zond

open StateDB

/-- An address contracts can be made at. -/
def Machine.Creates (vm : Machine) (address : Address) : Prop :=
  (∃ self nonce, address = vm.createAddress self nonce) ∨
    ∃ self salt hash, address = vm.createAddress2 self salt hash

/-- An address that derives from a public key. -/
def Crypto.KeyAddress (c : Crypto) (x : Address) : Prop :=
  (∃ pk, c.getXMSSAddressFromPK pk = some x) ∨ ∃ pk, c.getDilithiumAddressFromUnSizedPK pk = x

theorem Crypto.keyAddress_of_ne {c : Crypto} {pk : List UInt8} {x : Address}
    (hx : c.getAddressFromUnSizedPK pk = x) (hne : x ≠ zeroAddress) : c.KeyAddress x := by
  unfold Crypto.getAddressFromUnSizedPK Crypto.getXMSSAddressFromUnSizedPK at hx
  split at hx
  · cases hpk : c.getXMSSAddressFromPK (unSizedXMSSPKToSizedPK pk) with
    | none =>
      rw [hpk] at hx
      exact absurd hx.symm hne
    | some y =>
      rw [hpk] at hx
      exact .inl ⟨_, hpk.trans (congrArg some hx)⟩
  · split at hx
    · exact .inr ⟨pk, hx⟩
    · exact absurd hx.symm hne

theorem Crypto.keyAddress_of_addrFrom {c : Crypto} {tx : TxBase} {addr : Address}
    (h : tx.addrFrom c = .ok addr) : c.KeyAddress addr := by
  rcases TxBase.addrFrom_eq_ok.1 h with ⟨haddr, hne⟩
  exact Crypto.keyAddress_of_ne haddr hne

/-- Contracts are made neither at the address of a key nor at the reserve. -/
structure Machine.Apart (vm : Machine) : Prop where
  keys : ∀ x, vm.KeyAddress x → ¬vm.Creates x
  reserve : ¬vm.Creates Config.coinBaseAddress

theorem Machine.Apart.not_creates {vm : Machine} (h : vm.Apart) (pk : List UInt8) :
    ¬vm.Creates (vm.getAddressFromUnSizedPK pk) := by
  by_cases hzero : vm.getAddressFromUnSizedPK pk = zeroAddress
  · rw [hzero]
    exact h.reserve
  · exact h.keys _ (Crypto.keyAddress_of_ne rfl hzero)

/-- What the writes of the machine keep, when frames run for the accounts of `Host` only.
    A strict invariant is asked about payments only that the account has the money for. -/
structure Machine.Invariant (vm : Machine) (Strict : Prop) (Host : Address → Prop)
    (I : StateDB → Prop) : Prop where
  congr : ∀ {s s' : StateDB}, I s → s'.stateObjects = s.stateObjects → s'.trie = s.trie →
    s'.dirties = s.dirties → s'.stateObjectsPending = s.stateObjectsPending → I s'
  addBalance : ∀ {s : StateDB} {v : Int} (addr : Address), (Strict → 0 ≤ v) → I s →
    I (s.addBalance addr v)
  subBalance : ∀ {s : StateDB} {addr : Address} {v : Int},
    (Strict → Host addr ∧ (v ≠ 0 → v ≤ s.getBalance addr)) → I s → I (s.subBalance addr v)
  worth : ∀ {s : StateDB} {addr : Address}, Strict → Host addr → I s → 0 ≤ s.getBalance addr
  raise : ∀ {s : StateDB} {addr : Address}, Host addr → I s →
    I (s.setNonce addr (s.getNonce addr + 1))
  appear : ∀ {s : StateDB} {addr : Address}, s.getStateObject addr = none → I s →
    I (s.createAccount addr)
  found : ∀ {s : StateDB} {addr : Address}, vm.Creates addr → s.getNonce addr = 0 →
    s.getCode addr = [] → I s → Host addr ∧ I ((s.createAccount addr).setNonce addr 1)
  setState : ∀ {s : StateDB} {addr : Address} (key value : Hash), Host addr → I s →
    I (s.setState addr key value)
  setCode : ∀ {s : StateDB} {addr : Address} (code : List UInt8), Host addr → I s →
    I (s.setCode addr code)
  suicide : ∀ {s : StateDB} {addr : Address}, Host addr → I s → I (s.suicide addr)
  revert : ∀ {snapshot : StateDB} (s : StateDB), I snapshot → I (s.revertToSnapshot snapshot)
  host : ∀ {s : StateDB} {addr : Address}, s.getCode addr ≠ [] → I s → Host addr

namespace Machine.Invariant

variable {vm : Machine} {Strict : Prop} {Host : Address → Prop} {I : StateDB → Prop}
variable {s s' : StateDB} {self addr : Address}

theorem transfer (h : vm.Invariant Strict Host I) {value : Int} (hvalue : Strict → 0 ≤ value)
    (hself : Strict → Host self ∧ (value ≠ 0 → value ≤ s.getBalance self)) (hs : I s) :
    I (Vm.transfer s self addr value) :=
  h.addBalance addr hvalue (h.subBalance hself hs)

theorem instruction (h : vm.Invariant Strict Host I) (hself : Host self) (hs : I s)
    (hstep : Evm.Instruction self s s') : I s' := by
  cases hstep with
  | sstore key value => exact h.setState key value hself hs
  | log | addRefund | subRefund | accessAddress | accessSlot => exact h.congr hs rfl rfl rfl rfl
  | selfdestruct beneficiary =>
    exact h.suicide hself (h.addBalance beneficiary (fun hstrict => h.worth hstrict hself hs) hs)

/-- The account called is opened, which leaves all balances as they are. -/
theorem opened (h : vm.Invariant Strict Host I) (addr : Address) (hs : I s) :
    I (if s.exist addr then s else s.createAccount addr) ∧
      (if s.exist addr then s else s.createAccount addr).getBalance = s.getBalance := by
  by_cases hexist : s.exist addr = true
  · rw [if_pos hexist]
    exact ⟨hs, rfl⟩
  · rw [if_neg hexist]
    exact ⟨h.appear (Option.not_isSome_iff_eq_none.1 hexist) hs, getBalance_createAccount s addr⟩

theorem funded (h : vm.Invariant Strict Host I) {value : Nat} (hself : Host self)
    (hvalue : value ≠ 0 → Vm.CanTransfer s self value) (hs : I s) :
    I (Evm.funded s self addr value) := by
  rcases h.opened addr hs with ⟨hopened, hbalance⟩
  refine h.transfer (fun _ => Int.natCast_nonneg value) (fun _ => ⟨hself, fun hne => ?_⟩) hopened
  rw [hbalance]
  exact hvalue (Int.natCast_ne_zero.1 hne)

theorem closes {inner : StateDB} (h : vm.Invariant Strict Host I) (hs : I s) (hinner : I inner)
    (hclose : Evm.Closes s inner s') : I s' := by
  rcases hclose with rfl | rfl
  · exact hinner
  · exact h.revert inner hs

theorem creates_of_target {address : Address}
    (h : Evm.Target vm.createAddress vm.createAddress2 s self address) : vm.Creates address := by
  rcases h with heq | ⟨salt, hash, heq⟩
  · exact .inl ⟨self, _, heq⟩
  · exact .inr ⟨self, salt, hash, heq⟩

theorem runs (h : vm.Invariant Strict Host I)
    (hrun : Evm.Runs vm.createAddress vm.createAddress2 self s s') : Host self → I s → I s' := by
  -- By induction on the run, with the runs of inner frames.
  induction hrun with
  | start s =>
    intro _ hs
    exact hs
  | step _ hstep ih =>
    intro hself hs
    exact h.instruction hself (ih hself hs) hstep
  | @call self addr s m inner s' value _ hvalue hempty _ hclose ih ihInner =>
    intro hself hs
    have hm := ih hself hs
    have hfunded : I (Evm.funded m self addr value) := h.funded hself hvalue hm
    refine h.closes hm ?_ hclose
    -- Without code nothing runs, and with code the account may host a frame.
    by_cases hcode : (Evm.funded m self addr value).getCode addr = []
    · rw [hempty hcode]
      exact hfunded
    · exact ihInner (h.host hcode hfunded) hfunded
  | callCode _ _ hclose ih ihInner =>
    intro hself hs
    have hm := ih hself hs
    exact h.closes hm (ihInner hself hm) hclose
  | @staticCall self addr s m inner s' _ hempty _ hclose ih ihInner =>
    intro hself hs
    have hm := ih hself hs
    have htouched : I (m.addBalance addr 0) := h.addBalance addr (fun _ => le_refl 0) hm
    refine h.closes hm ?_ hclose
    by_cases hcode : (m.addBalance addr 0).getCode addr = []
    · rw [hempty hcode]
      exact htouched
    · exact ihInner (h.host hcode htouched) htouched
  | collide _ _ _ ih =>
    intro hself hs
    exact h.congr (h.raise hself (ih hself hs)) rfl rfl rfl rfl
  | @create self address s m inner stored s' value _ htarget hvalue _ hnonce hcode _ hstored
      hclose ih ihInner =>
    intro hself hs
    have hraised : I (Evm.raised m self address) :=
      h.congr (h.raise hself (ih hself hs)) rfl rfl rfl rfl
    rcases h.found (creates_of_target htarget) hnonce hcode hraised with ⟨hnew, hfound⟩
    have hbalance : (((Evm.raised m self address).createAccount address).setNonce address
        1).getBalance = m.getBalance := by
      rw [getBalance_setNonce, getBalance_createAccount]
      exact getBalance_setNonce m self _
    have hinner := ihInner hnew (h.transfer (fun _ => Int.natCast_nonneg value)
      (fun _ => ⟨hself, fun _ => hbalance ▸ hvalue⟩) hfound)
    refine h.closes hraised ?_ hclose
    rcases hstored with rfl | ⟨code, rfl⟩
    · exact hinner
    · exact h.setCode code hnew hinner

variable {ctx : BlockContext} {txCtx : TxContext}

theorem runCode (h : vm.Invariant Strict Host I) (caller addr : Address) (input : List UInt8)
    (gas : UInt64) (value : Int) (hs : I s) :
    I (Vm.runCode vm.toExternals ctx txCtx s caller addr input gas value).state := by
  unfold Vm.runCode
  split
  · unfold Vm.runPrecompiledContract
    dsimp only
    split
    · exact hs
    · split
      · exact hs
      · exact hs
  · split
    · exact hs
    · rename_i hne
      exact h.runs (vm.interprets ..) (h.host (fun hcode => hne hcode) hs) hs

theorem closeFrame {r : FrameResult} (h : vm.Invariant Strict Host I) (hs : I s) (hr : I r.state) :
    I (Vm.closeFrame s r).state := by
  unfold Vm.closeFrame
  split
  · exact hr
  · exact h.revert r.state hs

/-- The payment that opens the outermost frame comes from an account that need not host one. -/
def Pays (I : StateDB → Prop) (s : StateDB) (caller : Address) (value : Int) : Prop :=
  ∀ {m : StateDB} (addr : Address), m.getBalance caller = s.getBalance caller → I m →
    I (Vm.transfer m caller addr value)

theorem call {caller : Address} {value : Int} (h : vm.Invariant Strict Host I)
    (hpays : Pays I s caller value) (addr : Address) (input : List UInt8) (gas : UInt64)
    (hs : I s) : I (Vm.call vm.toExternals ctx txCtx s caller addr input gas value).state := by
  unfold Vm.call
  split
  · exact hs
  · split
    · exact hs
    · rcases h.opened addr hs with ⟨hopened, hbalance⟩
      exact h.closeFrame hs (h.runCode caller addr input gas value
        (hpays addr (congrFun hbalance caller) hopened))

theorem storeCode {r : FrameResult} (h : vm.Invariant Strict Host I) (haddr : Host addr)
    (hr : I r.state) : I (Vm.storeCode addr r).state := by
  unfold Vm.storeCode
  split
  · exact hr
  · split
    · exact hr
    · split
      · exact hr
      · dsimp only
        split
        · exact hr
        · exact h.setCode r.ret haddr hr

theorem create {caller : Address} {value : Int} (h : vm.Invariant Strict Host I)
    (hfunds : Vm.CanTransfer s caller value) (hpays : Pays I s caller value)
    (hlast : ¬s.getNonce caller + 1 < s.getNonce caller)
    (hs : I (s.setNonce caller (s.getNonce caller + 1))) (code : List UInt8) (gas : UInt64) :
    I (Vm.create vm.toExternals ctx txCtx s caller code gas value).state := by
  have hraised : I (Evm.raised s caller (vm.createAddress caller (s.getNonce caller))) :=
    h.congr hs rfl rfl rfl rfl
  unfold Vm.create
  simp only [hfunds, not_true, if_false, hlast]
  split
  · exact hraised
  · rename_i hfree
    rw [not_or, ne_eq, not_not, ne_eq, not_not] at hfree
    rcases h.found (.inl ⟨caller, s.getNonce caller, rfl⟩) hfree.1 hfree.2 hraised with
      ⟨hnew, hfound⟩
    have hbalance : (((Evm.raised s caller (vm.createAddress caller
        (s.getNonce caller))).createAccount (vm.createAddress caller (s.getNonce caller))).setNonce
          (vm.createAddress caller (s.getNonce caller)) 1).getBalance = s.getBalance := by
      rw [getBalance_setNonce, getBalance_createAccount]
      exact getBalance_setNonce s caller _
    have hfounded : I (Evm.founded s caller (vm.createAddress caller (s.getNonce caller))
        value) := hpays _ (congrFun hbalance caller) hfound
    have hrun := h.runs (vm.interprets ctx txCtx _
      { caller := caller, self := vm.createAddress caller (s.getNonce caller)
        value := value, gas := gas, code := code } []) hnew hfounded
    exact h.closeFrame hraised (h.storeCode hnew hrun)

theorem execute {msg : Message} (h : vm.Invariant Strict Host I)
    (hfunds : Vm.CanTransfer s msg.sender msg.value) (hpays : Pays I s msg.sender msg.value)
    (hlast : ¬s.getNonce msg.sender + 1 < s.getNonce msg.sender)
    (hs : I (s.setNonce msg.sender (s.getNonce msg.sender + 1))) (gas : UInt64) :
    I (execute vm.toExternals ctx msg s gas).state := by
  unfold Zond.execute
  split
  · exact h.create hfunds hpays hlast hs msg.data gas
  · refine h.call (fun addr hbalance hm => hpays addr ?_ hm) _ msg.data gas hs
    rw [hbalance, getBalance_setNonce]

end Machine.Invariant

/-- The state a message runs on: the gas is bought, and the nonce goes up. -/
def Message.entered (msg : Message) (s : StateDB) : StateDB :=
  let bought := (s.subBalance msg.sender (msg.gas.toNat * msg.gasPrice)).prepareAccessList
    msg.sender msg.toAddr precompiledContracts
  bought.setNonce msg.sender (bought.getNonce msg.sender + 1)

section Messages

variable {vm : Machine} {Strict : Prop} {Host : Address → Prop} {I : StateDB → Prop}
variable {s s' : StateDB} {ctx : BlockContext} {msg : Message} {gp gp' : UInt64}
variable {result : ExecutionResult}

theorem Machine.Invariant.transitionDb (h : vm.Invariant Strict Host I)
    (hcap : msg.gasPrice ≤ msg.gasFeeCap)
    (hprices : Strict → 0 ≤ msg.gasPrice ∧ msg.gasPrice ≤ msg.gasTipCap)
    (hpays : Pays I (msg.entered s) msg.sender msg.value)
    (hok : transitionDb vm.toExternals ctx msg s gp = .ok (s', gp', result))
    (hs : I (msg.entered s)) : I s' := by
  have hlast := nonce_of_transitionDb hok
  rcases transitionDb_of_ok hok with ⟨gas, -, -, hchecked, -, hsettle⟩
  have hgas : (msg.gas.toNat : Int) * msg.gasPrice ≤ msg.gas.toNat * msg.gasFeeCap :=
    Int.mul_le_mul_of_nonneg_left hcap (Int.natCast_nonneg _)
  have hfunds := hchecked.funds
  have hnonce : ((s.subBalance msg.sender (msg.gas.toNat * msg.gasPrice)).prepareAccessList
      msg.sender msg.toAddr precompiledContracts).getNonce msg.sender = s.getNonce msg.sender :=
    proj_subBalance Account.nonce s msg.sender _ (fun _ _ => rfl) msg.sender
  -- The balance that was checked covers the value after the gas is bought.
  have hcan : Vm.CanTransfer
      ((s.subBalance msg.sender (msg.gas.toNat * msg.gasPrice)).prepareAccessList msg.sender
        msg.toAddr precompiledContracts) msg.sender msg.value := by
    show msg.value ≤ ((s.subBalance msg.sender _).account msg.sender).balance
    rw [account_subBalance, if_pos rfl]
    show msg.value ≤ s.getBalance msg.sender - _
    omega
  rw [← hnonce] at hlast
  have hrun : I (Zond.execute vm.toExternals ctx msg _ (msg.gas - gas)).state := h.execute hcan
    (fun addr hbalance hm => hpays addr (hbalance.trans
      (congrFun (getBalance_setNonce ..) msg.sender).symm) hm) hlast hs (msg.gas - gas)
  have hbase := hchecked.feeCap
  rcases settleGas_of_ok hsettle with ⟨hsettled, -⟩
  rw [hsettled]
  refine h.addBalance _ (fun hstrict => ?_) (h.addBalance _ (fun hstrict => ?_) hrun)
  · have hprice := hprices hstrict
    exact Int.mul_nonneg (Int.natCast_nonneg _) (le_min (by omega) (by omega))
  · exact Int.mul_nonneg (Int.natCast_nonneg _) (hprices hstrict).1

theorem Machine.Invariant.transitionDb_of_lax (h : vm.Invariant False Host I)
    (hcap : msg.gasPrice ≤ msg.gasFeeCap)
    (hok : Zond.transitionDb vm.toExternals ctx msg s gp = .ok (s', gp', result))
    (hs : I (msg.entered s)) : I s' :=
  h.transitionDb hcap False.elim (fun _ _ hm => h.transfer False.elim False.elim hm) hok hs

end Messages

end Zond
