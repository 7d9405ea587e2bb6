import Zond.Theory.Frames

/-!
# Logs

Only `AddLog` writes logs, under the hash and the index of the transaction in hand and with
a number of its own; a frame that is reverted takes its logs with it.

## Main definitions

* `Logged`: The logs that were added between two states.

## Theorems

* `emitted_call`: All that a message does to the logs is add some.
-/

namespace Zond

open StateDB

namespace StateDB

def logging (s : StateDB) : Hash × Nat × AssocMap Hash (List Log) × Nat :=
  (s.thash, s.txIndex, s.logs, s.logSize)

variable (s : StateDB) (addr : Address)

@[simp] theorem logging_getOrNewStateObject : (s.getOrNewStateObject addr).logging = s.logging := by
  unfold getOrNewStateObject
  split
  · rfl
  · rfl

@[simp] theorem logging_modify (f : Account → Account) : (s.modify addr f).logging = s.logging := by
  have hopened := logging_getOrNewStateObject s addr
  unfold modify
  dsimp only
  split
  · exact hopened
  · exact hopened

@[simp] theorem logging_setNonce (n : UInt64) : (s.setNonce addr n).logging = s.logging :=
  logging_modify s addr _

@[simp] theorem logging_setCode (code : List UInt8) : (s.setCode addr code).logging = s.logging :=
  logging_modify s addr _

@[simp] theorem logging_setPendingStakeBalance (v : Int) :
    (s.setPendingStakeBalance addr v).logging = s.logging :=
  logging_modify s addr _

@[simp] theorem logging_setStakeBalance (v : Int) :
    (s.setStakeBalance addr v).logging = s.logging :=
  logging_modify s addr _

@[simp] theorem logging_addBalance (v : Int) : (s.addBalance addr v).logging = s.logging := by
  have hopened := logging_getOrNewStateObject s addr
  unfold addBalance
  dsimp only
  split
  · split
    · exact hopened
    · exact hopened
  · exact (logging_modify _ addr _).trans hopened

@[simp] theorem logging_subBalance (v : Int) : (s.subBalance addr v).logging = s.logging := by
  have hopened := logging_getOrNewStateObject s addr
  unfold subBalance
  split
  · exact hopened
  · exact (logging_modify _ addr _).trans hopened

@[simp] theorem logging_createAccount : (s.createAccount addr).logging = s.logging := by
  unfold createAccount
  split
  · rfl
  · rfl

@[simp] theorem logging_setState (key value : Hash) :
    (s.setState addr key value).logging = s.logging := by
  have hopened := logging_getOrNewStateObject s addr
  unfold setState
  dsimp only
  split
  · exact hopened
  · exact (logging_modify _ addr _).trans hopened

@[simp] theorem logging_suicide : (s.suicide addr).logging = s.logging := by
  unfold suicide
  split
  · rfl
  · rfl

@[simp] theorem logging_transfer (recipient : Address) (v : Int) :
    (Vm.transfer s addr recipient v).logging = s.logging := by
  unfold Vm.transfer
  rw [logging_addBalance, logging_subBalance]

@[simp] theorem logging_finalise : s.finalise.logging = s.logging := by
  have hfold (l : List Address) : ∀ s : StateDB,
      (l.foldl finaliseAddress s).logging = s.logging := by
    induction l with
    | nil => exact fun _ => rfl
    | cons addr l ih =>
      intro s
      rw [List.foldl_cons, ih]
      unfold finaliseAddress
      split
      · rfl
      · rfl
  exact hfold s.dirties s

end StateDB

/-- The logs that were added between two states: all under the transaction in hand, numbered
    from the counter on. -/
structure Logged (s s' : StateDB) (new : List Log) : Prop where
  thash : s'.thash = s.thash
  txIndex : s'.txIndex = s.txIndex
  logs : ∀ h, (s'.logs.get h).getD [] = (s.logs.get h).getD [] ++ if s.thash = h then new else []
  logSize : s'.logSize = s.logSize + new.length
  placed : ∀ k log, new[k]? = some log →
    log.txHash = s.thash ∧ log.txIndex = s.txIndex ∧ log.index = s.logSize + k

section Logged

variable {s m s' : StateDB} {new new' : List Log}

theorem logged_of_logging (h : s'.logging = s.logging) : Logged s s' [] := by
  have hlogs : s'.logs = s.logs := congrArg (fun x => x.2.2.1) h
  refine ⟨congrArg (fun x => x.1) h, congrArg (fun x => x.2.1) h, fun hash => ?_,
    congrArg (fun x => x.2.2.2) h, fun k log hk => (nomatch hk)⟩
  rw [hlogs, ite_self, List.append_nil]

theorem Logged.trans (h : Logged s m new) (h' : Logged m s' new') : Logged s s' (new ++ new') := by
  refine ⟨h'.thash.trans h.thash, h'.txIndex.trans h.txIndex, fun hash => ?_, ?_,
    fun k log hk => ?_⟩
  · rw [h'.logs, h.logs, h.thash, List.append_assoc]
    by_cases hhash : s.thash = hash
    · rw [if_pos hhash, if_pos hhash, if_pos hhash]
    · rw [if_neg hhash, if_neg hhash, if_neg hhash, List.append_nil]
  · rw [h'.logSize, h.logSize, List.length_append, Nat.add_assoc]
  · -- The second part is numbered from where the first one ends.
    by_cases hlt : k < new.length
    · rw [List.getElem?_append_left hlt] at hk
      exact h.placed k log hk
    · rw [List.getElem?_append_right (Nat.not_lt.1 hlt)] at hk
      rcases h'.placed _ log hk with ⟨htx, hindex, hplace⟩
      have hsize := h.logSize
      exact ⟨htx.trans h.thash, hindex.trans h.txIndex, by omega⟩

theorem logged_addLog (s : StateDB) (log : Log) : ∃ new, Logged s (s.addLog log) new := by
  refine ⟨[{ log with txHash := s.thash, txIndex := s.txIndex, index := s.logSize }], rfl, rfl,
    fun hash => ?_, rfl, fun k log' hk => ?_⟩
  · show ((s.logs.put s.thash _).get hash).getD [] = _
    rw [AssocMap.get_put]
    by_cases hhash : s.thash = hash
    · rw [if_pos hhash, if_pos hhash, hhash]
      rfl
    · rw [if_neg hhash, if_neg hhash, List.append_nil]
  · cases k with
    | zero =>
      cases hk
      exact ⟨rfl, rfl, rfl⟩
    | succ k => cases hk

theorem logged_instruction {self : Address} (h : Evm.Instruction self s s') :
    ∃ new, Logged s s' new := by
  cases h with
  | sstore key value => exact ⟨[], logged_of_logging (logging_setState s self key value)⟩
  | log log => exact logged_addLog s log
  | addRefund | subRefund | accessAddress | accessSlot => exact ⟨[], logged_of_logging rfl⟩
  | selfdestruct beneficiary =>
    refine ⟨[], logged_of_logging ?_⟩
    rw [logging_suicide, logging_addBalance]

theorem logging_funded (s : StateDB) (self addr : Address) (value : Int) :
    (Evm.funded s self addr value).logging = s.logging := by
  unfold Evm.funded
  rw [logging_transfer]
  split
  · rfl
  · exact logging_createAccount s addr

theorem logging_raised (s : StateDB) (self address : Address) :
    (Evm.raised s self address).logging = s.logging :=
  logging_setNonce s self _

theorem logging_founded (s : StateDB) (self address : Address) (value : Int) :
    (Evm.founded s self address value).logging = s.logging := by
  unfold Evm.founded
  rw [logging_transfer, logging_setNonce, logging_createAccount, logging_raised]

theorem logged_closes {inner : StateDB} (hm : ∃ new, Logged s m new)
    (hinner : ∃ new, Logged m inner new) (h : Evm.Closes m inner s') : ∃ new, Logged s s' new := by
  rcases hm with ⟨new, hm⟩
  rcases h with rfl | rfl
  · rcases hinner with ⟨new', hinner⟩
    exact ⟨_, hm.trans hinner⟩
  · exact ⟨_, hm.trans (logged_of_logging rfl)⟩

theorem logged_after (heq : m.logging = s.logging) (h : ∃ new, Logged m s' new) :
    ∃ new, Logged s s' new := by
  rcases h with ⟨new, h⟩
  exact ⟨_, (logged_of_logging heq).trans h⟩

theorem logged_runs {createAddress : Address → UInt64 → Address}
    {createAddress2 : Address → Hash → Hash → Address} {self : Address}
    (h : Evm.Runs createAddress createAddress2 self s s') : ∃ new, Logged s s' new := by
  -- By induction on the run, with the runs of inner frames.
  induction h with
  | start s => exact ⟨[], logged_of_logging rfl⟩
  | step _ hstep ih =>
    rcases ih with ⟨new, hm⟩
    rcases logged_instruction hstep with ⟨new', hs'⟩
    exact ⟨_, hm.trans hs'⟩
  | call _ _ _ _ hclose ih ihInner =>
    exact logged_closes ih (logged_after (logging_funded ..) ihInner) hclose
  | callCode _ _ hclose ih ihInner => exact logged_closes ih ihInner hclose
  | staticCall _ _ _ hclose ih ihInner =>
    exact logged_closes ih (logged_after (logging_addBalance ..) ihInner) hclose
  | collide _ _ _ ih =>
    rcases ih with ⟨new, hm⟩
    exact ⟨_, hm.trans (logged_of_logging (logging_raised ..))⟩
  | @create self address s m inner stored s' value _ _ _ _ _ _ _ hstored hclose ih ihInner =>
    have hraised : ∃ new, Logged s (Evm.raised m self address) new := by
      rcases ih with ⟨new, hm⟩
      exact ⟨_, hm.trans (logged_of_logging (logging_raised ..))⟩
    refine logged_closes hraised ?_ hclose
    have hfounded : (Evm.founded m self address value).logging
        = (Evm.raised m self address).logging := by
      rw [logging_founded, logging_raised]
    have hinner := logged_after hfounded ihInner
    rcases hstored with rfl | ⟨code, rfl⟩
    · exact hinner
    · rcases hinner with ⟨new, hinner⟩
      exact ⟨_, hinner.trans (logged_of_logging (logging_setCode ..))⟩

end Logged

/-- The interpreter writes the number of the block into the logs it adds. -/
def Machine.NumbersLogs (vm : Machine) : Prop :=
  ∀ ctx txCtx s contract input,
    let after := (vm.interpreterRun ctx txCtx s contract input).state
    ∀ log ∈ ((after.logs.get s.thash).getD []).drop ((s.logs.get s.thash).getD []).length,
      log.blockNumber = bigUint64 ctx.blockNumber

/-- Some logs were added, all with the number of the block. -/
def Emitted (ctx : BlockContext) (s s' : StateDB) : Prop :=
  ∃ new, Logged s s' new ∧ ∀ log ∈ new, log.blockNumber = bigUint64 ctx.blockNumber

section Emitted

variable {vm : Machine} {ctx : BlockContext} {txCtx : TxContext} {s m s' : StateDB}

theorem emitted_of_logging (h : s'.logging = s.logging) : Emitted ctx s s' :=
  ⟨[], logged_of_logging h, fun _ hlog => (nomatch hlog)⟩

theorem Emitted.trans (h : Emitted ctx s m) (h' : Emitted ctx m s') : Emitted ctx s s' := by
  rcases h with ⟨new, hm, hnew⟩
  rcases h' with ⟨new', hs', hnew'⟩
  refine ⟨_, hm.trans hs', fun log hlog => ?_⟩
  rcases List.mem_append.1 hlog with hlog | hlog
  · exact hnew log hlog
  · exact hnew' log hlog

theorem emitted_interpreterRun (hvm : vm.NumbersLogs) (contract : Contract) (input : List UInt8) :
    Emitted ctx s (vm.interpreterRun ctx txCtx s contract input).state := by
  rcases logged_runs (vm.interprets ctx txCtx s contract input) with ⟨new, hlogged⟩
  refine ⟨new, hlogged, fun log hlog => hvm ctx txCtx s contract input log ?_⟩
  rw [hlogged.logs, if_pos rfl, List.drop_left]
  exact hlog

theorem emitted_runCode (hvm : vm.NumbersLogs) (caller addr : Address) (input : List UInt8)
    (gas : UInt64) (value : Int) :
    Emitted ctx s (Vm.runCode vm.toExternals ctx txCtx s caller addr input gas value).state := by
  unfold Vm.runCode
  split
  · refine emitted_of_logging ?_
    unfold Vm.runPrecompiledContract
    dsimp only
    split
    · rfl
    · split
      · rfl
      · rfl
  · split
    · exact emitted_of_logging rfl
    · exact emitted_interpreterRun hvm _ input

theorem emitted_closeFrame {r : FrameResult} (h : Emitted ctx s r.state) :
    Emitted ctx s (Vm.closeFrame s r).state := by
  unfold Vm.closeFrame
  split
  · exact h
  · exact emitted_of_logging rfl

theorem emitted_call (hvm : vm.NumbersLogs) (caller addr : Address) (input : List UInt8)
    (gas : UInt64) (value : Int) :
    Emitted ctx s (Vm.call vm.toExternals ctx txCtx s caller addr input gas value).state := by
  unfold Vm.call
  split
  · exact emitted_of_logging rfl
  · split
    · exact emitted_of_logging rfl
    · refine emitted_closeFrame (Emitted.trans (emitted_of_logging ?_)
        (emitted_runCode hvm caller addr input gas value))
      exact logging_funded s caller addr value

theorem logging_storeCode (addr : Address) (r : FrameResult) :
    (Vm.storeCode addr r).state.logging = r.state.logging := by
  unfold Vm.storeCode
  split
  · rfl
  · split
    · rfl
    · split
      · rfl
      · dsimp only
        split
        · rfl
        · exact logging_setCode r.state addr r.ret

theorem emitted_create (hvm : vm.NumbersLogs) (caller : Address) (code : List UInt8)
    (gas : UInt64) (value : Int) :
    Emitted ctx s (Vm.create vm.toExternals ctx txCtx s caller code gas value).state := by
  have hraised : Emitted ctx s
      (Evm.raised s caller (vm.createAddress caller (s.getNonce caller))) :=
    emitted_of_logging (logging_raised ..)
  unfold Vm.create
  dsimp only
  split
  · exact emitted_of_logging rfl
  · split
    · exact emitted_of_logging rfl
    · split
      · exact hraised
      · refine hraised.trans (emitted_closeFrame (Emitted.trans (Emitted.trans
          (emitted_of_logging ?_) (emitted_interpreterRun hvm _ []))
          (emitted_of_logging (logging_storeCode ..))))
        exact (logging_founded ..).trans (logging_raised ..).symm

theorem emitted_transitionDb {msg : Message} {gp gp' : UInt64} {result : ExecutionResult}
    (hvm : vm.NumbersLogs)
    (h : transitionDb vm.toExternals ctx msg s gp = .ok (s', gp', result)) : Emitted ctx s s' := by
  rcases transitionDb_of_ok h with ⟨gas, -, -, -, -, hsettle⟩
  rcases settleGas_of_ok hsettle with ⟨hstate, -⟩
  rw [hstate]
  have hbought : ((s.subBalance msg.sender (msg.gas.toNat * msg.gasPrice)).prepareAccessList
      msg.sender msg.toAddr precompiledContracts).logging = s.logging :=
    logging_subBalance s msg.sender _
  refine Emitted.trans (Emitted.trans (emitted_of_logging hbought) ?_)
    (emitted_of_logging ((logging_addBalance ..).trans (logging_addBalance ..)))
  unfold execute
  split
  · exact emitted_create hvm msg.sender msg.data _ msg.value
  · exact (emitted_of_logging (logging_setNonce ..)).trans
      (emitted_call hvm msg.sender _ msg.data _ msg.value)

end Emitted

end Zond
