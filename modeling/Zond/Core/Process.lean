import Zond.Core.Apply

/-!
# Processing a Block

Running all transactions of a block against a state, in order. `Process` and
`ProcessGenesis` share both loops; genesis differs in what follows them.

## Main definitions

* `processProtocolTx`: One round of the first loop, the coinbase first.
* `processTx`: One round of the loop over user transactions.
* `processTransactions`: Both loops.
-/

namespace Zond

/-- What the loops of `Process` carry from one transaction to the next. -/
structure ExecState where
  statedb : StateDB
  ctx : StateContext
  gp : UInt64
  usedGas : UInt64
  protocolTxReceipts : List Receipt
  txReceipts : List Receipt

/-- What the loops of `Process` read: the block, the slot of its parent, the
    validators of its slot and the context contract code runs in. -/
structure ExecEnv where
  block : Block
  parentSlotNumber : UInt64
  validators : SlotValidatorsMetaData
  blockContext : BlockContext
  minter : Address
  isGenesis : Bool

variable (ext : Externals)

def newEVMBlockContext (header : Header) (getHash : UInt64 → Hash) (author : Address) :
    BlockContext :=
  { getHash := getHash, coinbase := author, gasLimit := header.gasLimit
    blockNumber := header.number, time := bigUint64 (int64 header.timestampSeconds)
    baseFee := header.bigBaseFee, random := ext.sha256 header.parentHash.val }

/-- `b.ProtocolTransactions()[0].GetCoinBase().AttestorReward`, read only once the
    first protocol transaction is known to be a coinbase. -/
def Block.attestorReward (b : Block) : UInt64 :=
  match b.protocolTransactions with
  | .coinBase tx :: _ => tx.attestorReward
  | _ => 0

def processCoinBase (env : ExecEnv) (st : ExecState) (i : Nat) (tx : CoinBase) : Go ExecState := do
  let b := env.block
  Outcome.failIf (i ≠ 0) (.panic .multipleCoinbase)
  let blockSigningHash ← b.blockSigningHash ext.toCrypto
  let s ← validateCoinBaseTx ext.toCrypto tx st.statedb env.validators blockSigningHash
    b.slotNumber env.parentSlotNumber env.isGenesis
  let txHash := tx.txHash ext.toCrypto (tx.getSigningHash ext.toCrypto blockSigningHash)
  let (s, ctx, receipt) ← wrapApply .coinbase 0 txHash
    (applyCoinBaseTransaction ext.toCrypto (s.prepare txHash i) st.ctx (int64 b.slotNumber)
      b.hash tx)
  pure { st with
    statedb := s, ctx := ctx, protocolTxReceipts := st.protocolTxReceipts ++ [receipt] }

def processAttest (env : ExecEnv) (st : ExecState) (i : Nat) (tx : Attest) : Go ExecState := do
  let b := env.block
  let partialHash ← b.partialBlockSigningHash ext.toCrypto
  let s ← validateAttestTx ext.toCrypto tx st.statedb env.validators partialHash
    b.slotNumber env.parentSlotNumber
  let txHash := tx.txHash ext.toCrypto (tx.getSigningHash ext.toCrypto partialHash)
  let (s, ctx, receipt) ← wrapApply .attest 0 txHash
    (applyAttestTransaction ext.toCrypto (s.prepare txHash i) st.ctx (int64 b.slotNumber)
      b.hash tx b.attestorReward)
  pure { st with
    statedb := s, ctx := ctx, protocolTxReceipts := st.protocolTxReceipts ++ [receipt] }

def processProtocolTx (env : ExecEnv) (st : ExecState) (txi : ProtocolTransaction × Nat) :
    Go ExecState :=
  match txi.1 with
  | .coinBase tx => processCoinBase ext env st txi.2 tx
  | .attest tx => processAttest ext env st txi.2 tx
  | .unknown _ => .error (.panic .nilDereference)

def processStake (env : ExecEnv) (st : ExecState) (i : Nat) (tx : Stake) : Go ExecState := do
  let b := env.block
  let s ← validateStakeTxn ext.toCrypto tx (st.statedb.prepare tx.hash i)
  let (s, result) := applyStakeTransaction ext.toCrypto st.gp s (int64 b.slotNumber) b.hash tx
    st.usedGas env.minter
  let (gp, usedGas, receipt) ← wrapApply .stake i tx.hash result
  pure { st with
    statedb := s, gp := gp, usedGas := usedGas, txReceipts := st.txReceipts ++ [receipt] }

def processTransfer (env : ExecEnv) (st : ExecState) (i : Nat) (tx : Transfer) : Go ExecState := do
  let b := env.block
  let s ← validateTransferTxn ext.toCrypto tx (st.statedb.prepare tx.hash i)
  let msg ← transferTxAsMessage ext tx b.header.bigBaseFee
  let (s, gp, usedGas, receipt) ← wrapApply .transfer i tx.hash
    (applyTransaction ext env.blockContext msg st.gp s (int64 b.slotNumber) b.hash tx st.usedGas)
  pure { st with
    statedb := s, gp := gp, usedGas := usedGas, txReceipts := st.txReceipts ++ [receipt] }

def markOTSIndex (tx : TxBase) (st : ExecState) : Go ExecState := do
  let addrFrom ← tx.addrFrom ext.toCrypto
  if st.statedb.getCodeSize addrFrom = 0 ∧ ext.isValidXMSSAddress addrFrom = true then do
    let otsIndex ← tx.otsIndex
    let s ← st.statedb.setOTSBitfield addrFrom otsIndex
    pure { st with statedb := s }
  else pure st

def processTx (env : ExecEnv) (st : ExecState) (txi : Transaction × Nat) : Go ExecState :=
  match txi.1 with
  | .stake tx => do
      let st ← processStake ext env st txi.2 tx
      markOTSIndex ext tx.toTxBase st
  | .transfer tx => do
      let st ← processTransfer ext env st txi.2 tx
      markOTSIndex ext tx.toTxBase st
  | .unknown _ => .error (.panic .nilDereference)

/-- The two loops, after the test that the first protocol transaction is a
    coinbase. -/
def processTransactions (env : ExecEnv) (st : ExecState) : Go ExecState := do
  let first ← env.block.firstProtocolTx
  match first with
  | .coinBase _ => do
      let st ← env.block.protocolTransactions.zipIdx.foldlM (processProtocolTx ext env) st
      env.block.transactions.zipIdx.foldlM (processTx ext env) st
  | _ => .error (.panic .coinbaseNotFirst)

def newExec (b : Block) (getHash : UInt64 → Hash) (parentSlotNumber : UInt64) (s : StateDB)
    (ctx : StateContext) (validators : SlotValidatorsMetaData) (isGenesis : Bool) :
    Go (ExecEnv × ExecState) := do
  let minter ← b.minter ext.toCrypto
  pure ({ block := b, parentSlotNumber := parentSlotNumber, validators := validators
          blockContext := newEVMBlockContext ext b.header getHash minter, minter := minter
          isGenesis := isGenesis },
        { statedb := s, ctx := ctx, gp := b.header.gasLimit, usedGas := 0
          protocolTxReceipts := [], txReceipts := [] })

/-- One protocol transaction of `ProcessEpochMetaData`. -/
def countStake (b : Block) (s : StateDB) (e : EpochMetaData) (tx : ProtocolTransaction) :
    Go EpochMetaData := do
  let address := ext.getDilithiumAddressFromUnSizedPK tx.pk
  errorIf (bigUint64 (s.getStakeBalance address) < Config.stakeAmount ∧ b.slotNumber ≠ 0)
    (.balanceNotLoaded address)
  pure (e.addTotalStakeAmountFound Config.stakeAmount)

/-- `ProcessEpochMetaData`: every protocol transaction counts one stake. -/
def processEpochMetaData (b : Block) (s : StateDB) (e : EpochMetaData) : Go EpochMetaData :=
  b.protocolTransactions.foldlM (countStake ext b s) e

/-- One key of `UpdateStakeValidators`: without pending stake the validator leaves
    and gets its stake back, otherwise the pending stake becomes the stake. -/
def updateStakeValidator (se : StateDB × EpochMetaData) (pk : PublicKey) :
    StateDB × EpochMetaData :=
  let account := ext.getAddressFromUnSizedPK pk
  let s := se.1.getOrNewStateObject account
  if bigUint64 (s.getPendingStakeBalance account) = 0 then
    let s := s.addBalance account (s.getStakeBalance account)
    (s.setStakeBalance account 0, se.2.removeValidators pk)
  else
    let s := s.addBalance account (s.getStakeBalance account)
    let s := s.setStakeBalance account (s.getPendingStakeBalance account)
    (s.setPendingStakeBalance account 0, se.2.addValidators pk)

def updateStakeValidators (s : StateDB) (pending : List PublicKey) (e : EpochMetaData) :
    StateDB × EpochMetaData :=
  pending.foldl (updateStakeValidator ext) (s, e)

end Zond
