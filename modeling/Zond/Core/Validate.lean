import Zond.Core.StateContext

/-!
# Transaction Validation

Looking an account up creates its object when it is missing, so each validator hands
back the state it leaves.

## Main definitions

* `validateTransferTxn`, `validateStakeTxn`, `validateAttestTx`, `validateCoinBaseTx`: The
  four validators, check by check in the order of the source.

## Theorems

* `validateTransferTxn_eq_ok`, `validateStakeTxn_eq_ok`: What is accepted.
-/

namespace Zond

open Outcome

variable (c : Crypto)

def validAddress (addr : Address) : Bool :=
  c.isValidXMSSAddress addr || c.isValidDilithiumAddress addr

/-- `if !Verify(..) { return err }`, where the library may panic. -/
def checkSignature (valid : Option Bool) (e : Err) : Go Unit := do
  let valid ← orFail (.panic .signatureLibrary) valid
  errorIf (valid = false) e

@[simp] theorem checkSignature_eq_ok {valid : Option Bool} {e : Err} {u : Unit} :
    checkSignature valid e = .ok u ↔ valid = some true := by
  unfold checkSignature
  simp only [bind_eq_ok, orFail_eq_ok, errorIf_eq_ok, Bool.not_eq_false]
  constructor
  · rintro ⟨_, hvalid, rfl⟩
    exact hvalid
  · exact fun h => ⟨true, h, rfl⟩

/-- The one-time-signature test of a transfer signed with an XMSS key. -/
def checkOTSIndex (tx : Transfer) (addrFrom : Address) (s : StateDB) : Go Unit :=
  if tx.pk.length = Config.xmssExtendedPKSize then do
    let otsIndex ← tx.otsIndex
    errorIf (isUsedOTSIndex otsIndex (s.account addrFrom).otsBitfield = true)
      (.txInvalidXMSSOTSIndex .transfer (tx.generateTxHash c) addrFrom otsIndex)
  else .ok ()

/-- The recipient tests of a transfer: a valid address or a contract. -/
def checkAddrTo (tx : Transfer) (s : StateDB) : Go Unit :=
  match tx.toAddr with
  | none => .ok ()
  | some addr =>
    errorIf (validAddress c addr = false ∧ s.getCodeSize addr = 0)
      (.txInvalidAddrTo .transfer tx.hash addr)

/-- The signature test of a transfer. The scheme follows the key length; a key of
    neither length passes, but has no sender address. -/
def checkTransferSignature (tx : Transfer) (addrFrom : Address) : Go Unit :=
  let signingHash := tx.getSigningHash c
  if tx.pk.length = Config.dilithiumPKSize then
    checkSignature (c.dilithiumVerify signingHash tx.signature (unSizedDilithiumPKToSizedPK tx.pk))
      (.txDilithiumSignatureVerificationFailed .transfer addrFrom.val tx.hash.val)
  else if tx.pk.length = Config.xmssExtendedPKSize then
    checkSignature (c.xmssVerify signingHash tx.signature (unSizedXMSSPKToSizedPK tx.pk))
      (.txXMSSSignatureVerificationFailed .transfer addrFrom.val tx.hash.val)
  else .ok ()

/-- The checks of `ValidateTransferTxn` before the signature, with the sender they are made
    for. The required balance is a `uint64` sum and product. -/
def checkTransferTxn (tx : Transfer) (s : StateDB) : Go (Address × StateDB) := do
  let addrFrom ← tx.addrFrom c
  let s := s.getOrNewStateObject addrFrom
  errorIf (tx.hash ≠ tx.generateTxHash c)
    (.txInvalidTxHash .transfer tx.hash addrFrom (tx.generateTxHash c))
  errorIf (tx.nonce ≠ s.getNonce addrFrom)
    (.txInvalidNonce .transfer tx.hash addrFrom tx.nonce (s.getNonce addrFrom))
  checkOTSIndex c tx addrFrom s
  let balance := bigUint64 (s.getBalance addrFrom)
  let requiredBalance := tx.value + tx.gas * tx.gasPrice
  errorIf (balance < requiredBalance)
    (.txInsufficientBalance .transfer tx.hash addrFrom requiredBalance balance.toNat)
  errorIf (validAddress c addrFrom = false) (.txInvalidAddrFrom .transfer tx.hash addrFrom)
  checkAddrTo c tx s
  errorIf (addrFrom = Config.coinBaseAddress)
    (.txAddrFromCannotBeCoinBaseAddr .transfer tx.hash addrFrom)
  errorIf (tx.toAddr = some Config.coinBaseAddress)
    (.txAddrToCannotBeCoinBaseAddr .transfer tx.hash Config.coinBaseAddress)
  errorIf (tx.data.length > Config.dataLenLimit)
    (.txDataLengthExceedsLimit .transfer tx.hash addrFrom tx.data.length Config.dataLenLimit)
  pure (addrFrom, s)

def validateTransferTxn (tx : Transfer) (s : StateDB) : Go StateDB := do
  let (addrFrom, s) ← checkTransferTxn c tx s
  checkTransferSignature c tx addrFrom
  pure s

/-- What `ValidateTransferTxn` has checked of a transaction it accepts. -/
structure TransferAccepted (tx : Transfer) (s : StateDB) (addrFrom : Address) : Prop where
  sender : tx.addrFrom c = .ok addrFrom
  hash : tx.hash = tx.generateTxHash c
  nonce : tx.nonce = s.getNonce addrFrom
  ots : checkOTSIndex c tx addrFrom (s.getOrNewStateObject addrFrom) = .ok ()
  balance : tx.value + tx.gas * tx.gasPrice ≤ bigUint64 (s.getBalance addrFrom)
  validAddr : validAddress c addrFrom = true
  addrTo : checkAddrTo c tx (s.getOrNewStateObject addrFrom) = .ok ()
  notCoinBase : addrFrom ≠ Config.coinBaseAddress
  toNotCoinBase : tx.toAddr ≠ some Config.coinBaseAddress
  dataLen : tx.data.length ≤ Config.dataLenLimit
  signature : checkTransferSignature c tx addrFrom = .ok ()

/-- The validator accepts exactly the transfers that pass every check, and leaves
    the sender's object in place. -/
theorem validateTransferTxn_eq_ok {tx : Transfer} {s s' : StateDB} :
    validateTransferTxn c tx s = .ok s' ↔
      ∃ addrFrom, TransferAccepted c tx s addrFrom ∧ s' = s.getOrNewStateObject addrFrom := by
  unfold validateTransferTxn checkTransferTxn StateDB.getNonce StateDB.getBalance
  simp only [bind_eq_ok, errorIf_eq_ok, exists_const, pure_eq_ok,
    StateDB.account_getOrNewStateObject, ne_eq, not_not, UInt64.not_lt, Nat.not_lt, gt_iff_lt,
    Bool.not_eq_false]
  constructor
  · rintro ⟨_, ⟨addr, hsender, hhash, hnonce, ⟨⟩, hots, hbal, hvalid, ⟨⟩, hto, hfrom, hcoin, hdata,
      rfl⟩, ⟨⟩, hsig, hs⟩
    exact ⟨addr, ⟨hsender, hhash, hnonce, hots, hbal, hvalid, hto, hfrom, hcoin, hdata, hsig⟩,
      hs.symm⟩
  · rintro ⟨addr, h, hs⟩
    exact ⟨_, ⟨addr, h.sender, h.hash, h.nonce, (), h.ots, h.balance, h.validAddr, (), h.addrTo,
      h.notCoinBase, h.toNotCoinBase, h.dataLen, rfl⟩, (), h.signature, hs.symm⟩

/-- The checks of `ValidateStakeTxn` before the signature. The required balance is
    converted through `int64` before it is compared. -/
def checkStakeTxn (tx : Stake) (s : StateDB) : Go (Address × StateDB) := do
  let addrFrom ← tx.addrFrom c
  let s := s.getOrNewStateObject addrFrom
  errorIf (tx.hash ≠ tx.generateTxHash c)
    (.txInvalidTxHash .stake tx.hash addrFrom (tx.generateTxHash c))
  errorIf (tx.nonce ≠ s.getNonce addrFrom)
    (.txInvalidNonce .stake (tx.generateTxHash c) addrFrom tx.nonce (s.getNonce addrFrom))
  errorIf (tx.amount ≠ 0 ∧ tx.amount < Config.stakeAmount)
    (.txInvalidStakeAmount .stake tx.hash addrFrom tx.amount Config.stakeAmount)
  errorIf (tx.pk.length ≠ Config.dilithiumPKSize)
    (.txInvalidDilithiumPKSize .stake tx.hash addrFrom tx.pk.length)
  let balance := s.getBalance addrFrom
  let requiredBalance := tx.gas * tx.gasPrice + tx.amount
  errorIf (balance < int64 requiredBalance)
    (.txInsufficientBalance .stake (tx.generateTxHash c) addrFrom requiredBalance balance)
  errorIf (tx.gas < Config.stakeTxGas)
    (.txInsufficientGas .stake (tx.generateTxHash c) addrFrom tx.gas Config.stakeTxGas)
  errorIf (c.isValidDilithiumAddress addrFrom = false)
    (.txInvalidDilithiumAddrFrom .stake tx.hash addrFrom)
  pure (addrFrom, s)

def validateStakeTxn (tx : Stake) (s : StateDB) : Go StateDB := do
  let (addrFrom, s) ← checkStakeTxn c tx s
  checkSignature (c.dilithiumVerify (tx.getSigningHash c) tx.signature
      (unSizedDilithiumPKToSizedPK tx.pk))
    (.txDilithiumSignatureVerificationFailed .stake tx.hash.val addrFrom.val)
  pure s

/-- What `ValidateStakeTxn` has checked of a transaction it accepts. -/
structure StakeAccepted (tx : Stake) (s : StateDB) (addrFrom : Address) : Prop where
  sender : tx.addrFrom c = .ok addrFrom
  hash : tx.hash = tx.generateTxHash c
  nonce : tx.nonce = s.getNonce addrFrom
  amount : tx.amount = 0 ∨ Config.stakeAmount ≤ tx.amount
  pkSize : tx.pk.length = Config.dilithiumPKSize
  balance : int64 (tx.gas * tx.gasPrice + tx.amount) ≤ s.getBalance addrFrom
  gas : Config.stakeTxGas ≤ tx.gas
  validAddr : c.isValidDilithiumAddress addrFrom = true
  signature : c.dilithiumVerify (tx.getSigningHash c) tx.signature
    (unSizedDilithiumPKToSizedPK tx.pk) = some true

/-- The validator accepts exactly the transactions that pass every check, and
    leaves the signer's object in place. -/
theorem validateStakeTxn_eq_ok {tx : Stake} {s s' : StateDB} : validateStakeTxn c tx s = .ok s' ↔
      ∃ addrFrom, StakeAccepted c tx s addrFrom ∧ s' = s.getOrNewStateObject addrFrom := by
  unfold validateStakeTxn checkStakeTxn StateDB.getNonce StateDB.getBalance
  simp only [bind_eq_ok, errorIf_eq_ok, checkSignature_eq_ok, exists_const, pure_eq_ok,
    StateDB.account_getOrNewStateObject, ne_eq, not_not, not_and_or, UInt64.not_lt, Int.not_lt,
    Bool.not_eq_false]
  constructor
  · rintro ⟨_, ⟨addr, hsender, hhash, hnonce, hamount, hpk, hbal, hgas, hvalid, rfl⟩, hsig, hs⟩
    exact ⟨addr, ⟨hsender, hhash, hnonce, hamount, hpk, hbal, hgas, hvalid, hsig⟩, hs.symm⟩
  · rintro ⟨addr, h, hs⟩
    exact ⟨_, ⟨addr, h.sender, h.hash, h.nonce, h.amount, h.pkSize, h.balance, h.gas, h.validAddr,
      rfl⟩, h.signature, hs.symm⟩

def validateTransaction (s : StateDB) : Transaction → Go StateDB
  | .stake tx => validateStakeTxn c tx s
  | .transfer tx => validateTransferTxn c tx s
  | .unknown _ => .error (.error .unknownTransactionType)

/-- The stake a signer of a protocol transaction must hold. In the first block of
    an epoch a pending stake counts as well. -/
def checkStake (label : TxLabel) (txHash : Hash) (signer : Address) (s : StateDB)
    (slotNumber parentSlotNumber : UInt64) : Go Unit :=
  errorIf (bigUint64 (s.getStakeBalance signer) < Config.stakeAmount ∧
      (epochOf parentSlotNumber = epochOf slotNumber ∨
        bigUint64 (s.getPendingStakeBalance signer) < Config.stakeAmount))
    (.txInsufficientStakeBalance label txHash signer (s.getStakeBalance signer))

def validateAttestTx (tx : Attest) (s : StateDB) (validators : SlotValidatorsMetaData)
    (partialBlockSigningHash : Hash) (slotNumber parentSlotNumber : UInt64) : Go StateDB := do
  let signedMessage := tx.getSigningHash c partialBlockSigningHash
  let txHash := tx.txHash c signedMessage
  let signerAddr := c.getDilithiumAddressFromUnSizedPK tx.pk
  let s := s.getOrNewStateObject signerAddr
  errorIf (tx.hash ≠ txHash) (.txInvalidTxHash .attest tx.hash signerAddr txHash)
  errorIf (tx.nonce ≠ s.getNonce signerAddr)
    (.txInvalidNonce .attest tx.hash signerAddr tx.nonce (s.getNonce signerAddr))
  errorIf (tx.pk.length ≠ Config.dilithiumPKSize)
    (.txInvalidDilithiumPKSize .attest tx.hash signerAddr tx.pk.length)
  checkSignature (c.dilithiumVerify signedMessage tx.signature (unSizedDilithiumPKToSizedPK tx.pk))
    (.txDilithiumSignatureVerificationFailed .attest tx.hash.val signerAddr.val)
  errorIf (¬validators.IsAttestor tx.pk)
    (.txInvalidAttestor .attest txHash signerAddr slotNumber)
  checkStake .attest tx.hash signerAddr s slotNumber parentSlotNumber
  pure s

/-- The tests genesis skips: the proposer's signature. -/
def checkCoinBaseSignature (tx : CoinBase) (signedMessage : Hash) (signerAddr : Address)
    (isGenesis : Bool) : Go Unit :=
  if isGenesis then .ok ()
  else checkSignature (c.dilithiumVerify signedMessage tx.signature
      (unSizedDilithiumPKToSizedPK tx.pk))
    (.txDilithiumSignatureVerificationFailed .coinbase tx.hash.val signerAddr.val)

/-- `ValidateCoinBaseTx`. The fee reward is not looked at. -/
def validateCoinBaseTx (tx : CoinBase) (s : StateDB) (validators : SlotValidatorsMetaData)
    (blockSigningHash : Hash) (slotNumber parentSlotNumber : UInt64) (isGenesis : Bool) :
    Go StateDB := do
  let signedMessage := tx.getSigningHash c blockSigningHash
  let txHash := tx.txHash c signedMessage
  let signerAddr := c.getDilithiumAddressFromUnSizedPK tx.pk
  let s := s.getOrNewStateObject signerAddr
  errorIf (tx.hash ≠ txHash) (.txInvalidTxHash .coinbase tx.hash signerAddr txHash)
  errorIf (tx.nonce ≠ s.getNonce signerAddr)
    (.txInvalidNonce .coinbase tx.hash signerAddr tx.nonce (s.getNonce signerAddr))
  errorIf (tx.pk.length ≠ Config.dilithiumPKSize)
    (.txInvalidDilithiumPKSize .coinbase tx.hash signerAddr tx.pk.length)
  checkCoinBaseSignature c tx signedMessage signerAddr isGenesis
  errorIf (¬validators.IsSlotLeader tx.pk)
    (.txInvalidSlotLeader .coinbase txHash signerAddr slotNumber
      (c.getAddressFromUnSizedPK validators.slotLeaderPK))
  errorIf (tx.blockProposerReward ≠ Config.blockReward)
    (.txInvalidBlockReward .coinbase txHash signerAddr tx.blockProposerReward Config.blockReward)
  errorIf (tx.attestorReward ≠ Config.attestorReward)
    (.txInvalidAttestorReward .coinbase txHash signerAddr tx.attestorReward
      Config.attestorReward)
  if isGenesis then pure s
  else do
    checkStake .coinbase tx.hash signerAddr s slotNumber parentSlotNumber
    pure s

end Zond
