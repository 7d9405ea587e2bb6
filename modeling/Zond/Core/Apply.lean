import Zond.Core.StateTransition
import Zond.Core.Validate

/-!
# Applying Transactions

What an accepted transaction does to the state. Each function first finalises
what the transaction before it left in the journal.

## Main definitions

* `payReward`: What both kinds of protocol transaction do.
* `moveStake`: The balances of a stake.
* `applyTransaction`: A transfer, by way of the virtual machine.
-/

namespace Zond

/-- The receipt of a transaction that emits no logs. -/
def plainReceipt (type : TxType) (cumulativeGasUsed gasUsed : UInt64) (txHash blockHash : Hash)
    (blockNumber : Int) (txIndex : Nat) : Receipt :=
  { type := type, status := true, cumulativeGasUsed := cumulativeGasUsed, bloom := Bloom.empty,
    logs := [], txHash := txHash, contractAddress := zeroAddress, gasUsed := gasUsed,
    blockHash := blockHash, blockNumber := blockNumber, transactionIndex := txIndex }

section Protocol

variable (c : Crypto)

/-- The state changes both protocol transactions make: the signer gets `credits`
    and its nonce goes up by one, the reserve is charged `charge`. -/
def payReward (s : StateDB) (signer : Address) (credits : List Int) (charge : Int) : StateDB :=
  let s := credits.foldl (fun s amount => s.addBalance signer amount) s
  let s := s.setNonce signer (s.getNonce signer + 1)
  s.subBalance Config.coinBaseAddress charge

/-- `applyCoinBaseTransaction`: the block reward comes out of the reserve, the fee
    reward out of nowhere. -/
def applyCoinBaseTransaction (s : StateDB) (ctx : StateContext) (blockNumber : Int)
    (blockHash : Hash) (tx : CoinBase) : Go (StateDB × StateContext × Receipt) := do
  let address := c.getDilithiumAddressFromUnSizedPK tx.pk
  let s := s.finalise.getOrNewStateObject address
  let ctx ← ctx.processBlockProposerFlag c tx.pk (s.getStakeBalance address)
  let blockReward := int64 tx.blockProposerReward
  let s := payReward s address [blockReward, int64 tx.feeReward] blockReward
  let txHash := tx.txHash c (tx.getSigningHash c ctx.blockSigningHash)
  pure (s, ctx, plainReceipt .coinBase 0 0 txHash blockHash blockNumber s.txIndex)

def applyAttestTransaction (s : StateDB) (ctx : StateContext) (blockNumber : Int)
    (blockHash : Hash) (tx : Attest) (attestorReward : UInt64) :
    Go (StateDB × StateContext × Receipt) := do
  let address := c.getDilithiumAddressFromUnSizedPK tx.pk
  let s := s.finalise.getOrNewStateObject address
  let ctx ← ctx.processAttestorsFlag c tx.pk (s.getStakeBalance address)
  let reward := int64 attestorReward
  let s := payReward s address [reward] reward
  let txHash := tx.txHash c (tx.getSigningHash c ctx.partialBlockSigningHash)
  pure (s, ctx, plainReceipt .attest 0 0 txHash blockHash blockNumber s.txIndex)

/-- The state changes of `applyStakeTransaction` after `Finalise`: the fee for all
    gas, the old pending stake back, the new amount out, the unused gas back and
    the fixed fee to the proposer. Each product wraps on its own. -/
def moveStake (s : StateDB) (address minter : Address) (tx : Stake) : StateDB :=
  let s := s.getOrNewStateObject address
  let s := s.setNonce address (s.getNonce address + 1)
  let s := s.subBalance address (int64 (tx.gas * tx.gasPrice))
  let s := s.addBalance address (s.getPendingStakeBalance address)
  let s := s.subBalance address (int64 tx.amount)
  let s := s.setPendingStakeBalance address (int64 tx.amount)
  let s := s.addBalance address
    (int64Mul (int64 (tx.gas - Config.stakeTxGas)) (int64 tx.gasPrice))
  s.addBalance minter (int64 (Config.stakeTxGas * tx.gasPrice))

/-- `applyStakeTransaction`: the state it leaves, and its result. The gas pool is
    charged last, so the state has changed even when the pool refuses. -/
def applyStakeTransaction (gp : UInt64) (s : StateDB) (blockNumber : Int) (blockHash : Hash)
    (tx : Stake) (usedGas : UInt64) (minter : Address) : StateDB × Go (UInt64 × UInt64 × Receipt) :=
  let usedGas := usedGas + Config.stakeTxGas
  let s := moveStake s.finalise (c.getDilithiumAddressFromUnSizedPK tx.pk) minter tx
  (s, do
    let gp ← GasPool.subGas gp Config.stakeTxGas
    pure (gp, usedGas,
      plainReceipt .stake usedGas usedGas tx.hash blockHash blockNumber s.txIndex))

end Protocol

section Transfers

variable (ext : Externals)

/-- `TransferTxAsMessage`: every amount goes through `int64`, and the gas price
    becomes the effective one under the block's base fee. -/
def transferTxAsMessage (tx : Transfer) (baseFee : Int) : Go Message := do
  let sender ← tx.addrFrom ext.toCrypto
  let gasPrice := int64 tx.gasPrice
  pure { sender := sender, toAddr := tx.toAddr, nonce := tx.nonce, value := int64 tx.value
         gas := tx.gas, gasPrice := min (gasPrice + baseFee) gasPrice, gasFeeCap := gasPrice
         gasTipCap := gasPrice, data := tx.data }

def applyTransaction (ctx : BlockContext) (msg : Message) (gp : UInt64) (s : StateDB)
    (blockNumber : Int) (blockHash : Hash) (tx : Transfer) (usedGas : UInt64) :
    Go (StateDB × UInt64 × UInt64 × Receipt) := do
  let (s, gp, result) ← transitionDb ext ctx msg s gp
  let s := s.finalise
  let usedGas := usedGas + result.usedGas
  let logs := s.getLogs tx.hash blockHash
  pure (s, gp, usedGas,
    { type := .transfer
      status := result.err.isNone
      cumulativeGasUsed := usedGas
      bloom := createBloom ext.toCrypto [logs]
      logs := logs
      txHash := tx.hash
      contractAddress := match msg.toAddr with
        | none => ext.createAddress msg.sender tx.nonce
        | some _ => zeroAddress
      gasUsed := result.usedGas
      blockHash := blockHash
      blockNumber := blockNumber
      transactionIndex := s.txIndex })

end Transfers

end Zond
