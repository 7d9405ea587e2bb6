import Zond.Core.Types

/-!
# Errors and Panics

What a call can end in other than a result. A returned `error` keeps the values
its message prints; a panic stops the node and is kept apart, because nothing in
the node recovers from one.

## Main definitions

* `Err`, `Panic`: The errors that are returned, and the panics.
* `Go`: A call that may end in either.
-/

namespace Zond

/-- The transaction kind a validation message starts with. -/
inductive TxLabel where
  | transfer
  | stake
  | attest
  | coinbase
deriving DecidableEq, Repr

/-- The record kinds of the store, as a failed lookup names them. -/
inductive RecordKind where
  | mainChainMetaData
  | blockMetaData
  | block
  | epochMetaData
  | stateTrie
deriving DecidableEq, Repr

/-- A returned `error`. The first group are the formats of `errmsg`, with the
    values each prints; the second those of the state transition; the rest are
    raised by block and epoch processing, by the transaction pool and by the peer
    protocol. A failed signature names what the caller put in the two places, which
    for a transfer is the address first. -/
inductive Err where
  | txInsufficientBalance (label : TxLabel) (txHash : Hash) (addr : Address)
      (required : UInt64) (available : Int)
  | txInsufficientGas (label : TxLabel) (txHash : Hash) (addr : Address)
      (provided required : UInt64)
  | txInvalidTxHash (label : TxLabel) (found : Hash) (addr : Address) (expected : Hash)
  | txInvalidNonce (label : TxLabel) (txHash : Hash) (addr : Address) (found expected : UInt64)
  | txInvalidStakeAmount (label : TxLabel) (txHash : Hash) (addr : Address)
      (amount minimum : UInt64)
  | txInvalidAddrFrom (label : TxLabel) (txHash : Hash) (addr : Address)
  | txInvalidAddrTo (label : TxLabel) (txHash : Hash) (addr : Address)
  | txAddrFromCannotBeCoinBaseAddr (label : TxLabel) (txHash : Hash) (addr : Address)
  | txAddrToCannotBeCoinBaseAddr (label : TxLabel) (txHash : Hash) (addr : Address)
  | txDataLengthExceedsLimit (label : TxLabel) (txHash : Hash) (addr : Address)
      (length limit : Nat)
  | txDilithiumSignatureVerificationFailed (label : TxLabel) (txHash addr : List UInt8)
  | txInvalidDilithiumAddrFrom (label : TxLabel) (txHash : Hash) (addr : Address)
  | txInvalidDilithiumPKSize (label : TxLabel) (txHash : Hash) (addr : Address) (size : Nat)
  | txXMSSSignatureVerificationFailed (label : TxLabel) (txHash addr : List UInt8)
  | txInvalidXMSSOTSIndex (label : TxLabel) (txHash : Hash) (addr : Address) (index : Nat)
  | txInvalidAttestor (label : TxLabel) (txHash : Hash) (addr : Address) (slot : UInt64)
  | txInvalidSlotLeader (label : TxLabel) (txHash : Hash) (addr : Address) (slot : UInt64)
      (expected : Address)
  | txInvalidBlockReward (label : TxLabel) (txHash : Hash) (addr : Address)
      (reward expected : UInt64)
  | txInvalidAttestorReward (label : TxLabel) (txHash : Hash) (addr : Address)
      (reward expected : UInt64)
  | txInsufficientStakeBalance (label : TxLabel) (txHash : Hash) (addr : Address)
      (balance : Int)
  | nonceTooHigh (addr : Address) (tx state : UInt64)
  | nonceTooLow (addr : Address) (tx state : UInt64)
  | nonceMax (addr : Address) (state : UInt64)
  | senderNoEOA (addr : Address)
  | feeCapVeryHigh (addr : Address)
  | tipVeryHigh (addr : Address)
  | tipAboveFeeCap (addr : Address) (tip feeCap : Int)
  | feeCapTooLow (addr : Address) (feeCap baseFee : Int)
  | insufficientFunds (addr : Address) (have_ want : Int)
  | gasLimitReached
  | gasUintOverflow
  | intrinsicGas (have_ want : UInt64)
  | insufficientFundsForTransfer (addr : Address)
  | unknownTransactionType
  | notFound (kind : RecordKind) (key : Hash)
  | unexpectedBlockProposer
  | proposerNotAssigned
  | proposerAlreadyProcessed
  | attestorNotAssigned
  | attestorAlreadyAttested
  | invalidStakeBalance (balance : Int) (addr : Address)
  | balanceNotLoaded (addr : Address)
  | emptyEpochPath
  | slotNotInEpoch (slot epoch : UInt64)
  | unexpectedSlotAtIndex (slot : UInt64) (index : Nat)
  | finalizeParentMismatch (expected found : Hash)
  | genesisPreState
  | transactionPoolFull
  | transactionAlreadyInPool
  | otsKeyAlreadyInPool
  | peerProtocolError
  | outgoingQueueFull
  | peerDisconnected
  | maxBytesOut
  | headerNotFound
  | neitherBlockNorHash
  | couldNotApply (label : TxLabel) (index : Nat) (txHash : Hash) (cause : Err)
deriving DecidableEq

inductive Panic where
  | invalidPKSize (size : Nat)
  | nilDereference
  | notImplemented
  | unexpectedKind
  | indexOutOfRange
  | coinbaseNotFirst
  | multipleCoinbase
  | noValidators
  | gasPoolOverflow
  | invalidRevision (id : Nat)
  | refundBelowZero (gas refund : UInt64)
  | accessListSlotWithoutAddress
  | signatureLibrary
deriving DecidableEq, Repr

/-- How a call ends when it returns no result. `diverges` stands for a walk over
    stored links that never reaches its end. -/
inductive Failure where
  | error (e : Err)
  | panic (p : Panic)
  | diverges
deriving DecidableEq

/-- A failure that the code returns as an error, unlike a panic. -/
def Failure.Returned (f : Failure) : Prop := ∃ e, f = .error e

abbrev Go (α : Type) := Except Failure α

/-- `if bad { return err }`. -/
def errorIf (bad : Prop) [Decidable bad] (e : Err) : Go Unit :=
  Outcome.failIf bad (.error e)

@[simp] theorem errorIf_eq_ok {bad : Prop} [Decidable bad] {e : Err} {u : Unit} :
    errorIf bad e = .ok u ↔ ¬bad :=
  Outcome.failIf_eq_ok

theorem errorIf_bind_eq_ok {α : Type} {bad : Prop} [Decidable bad] {e : Err}
    {f : Unit → Go α} {a : α} : (errorIf bad e >>= f) = .ok a ↔ ¬bad ∧ f () = .ok a :=
  Outcome.failIf_bind_eq_ok

theorem failsOnly_errorIf (bad : Prop) [Decidable bad] (e : Err) :
    Outcome.FailsOnly Failure.Returned (errorIf bad e) :=
  Outcome.failsOnly_failIf fun _ => ⟨e, rfl⟩

/-- `fmt.Errorf("could not apply ...: %w", err)`: an error gets the transaction's
    place in the block, a panic passes through. -/
def wrapApply {α : Type} (label : TxLabel) (index : Nat) (txHash : Hash) : Go α → Go α
  | .error (.error e) => .error (.error (.couldNotApply label index txHash e))
  | r => r

@[simp] theorem wrapApply_eq_ok {α : Type} {label : TxLabel} {index : Nat} {txHash : Hash}
    {r : Go α} {a : α} : wrapApply label index txHash r = .ok a ↔ r = .ok a := by
  unfold wrapApply
  split
  · simp only [reduceCtorEq]
  · rfl

end Zond
