import Zond.Core.Types

/-!
# Configuration

The development configuration of the node, the reward table and the protocol
parameters that block processing reads, under their source names.

## Main definitions

* `epochOf`: The epoch of a slot.
-/

namespace Zond

namespace Config

def chainID : UInt64 := 0

def blocksPerEpoch : UInt64 := 100

def blockGasLimit : UInt64 := 100000000

def blockTime : UInt64 := 60

def shorPerQuanta : UInt64 := 1000000000

def stakeAmount : UInt64 := 10000 * shorPerQuanta

/-- `GenesisConfig.GenesisPrevHeaderHash`: the text "Outside Context Problem"
    copied to the start of a hash. -/
def genesisPrevHeaderHash : Hash :=
  Bytes.alignLeft 32 [0x4f, 0x75, 0x74, 0x73, 0x69, 0x64, 0x65, 0x20, 0x43, 0x6f, 0x6e, 0x74,
    0x65, 0x78, 0x74, 0x20, 0x50, 0x72, 0x6f, 0x62, 0x6c, 0x65, 0x6d]

def maxCoinSupply : UInt64 := 105000000000000000

def suppliedCoins : UInt64 := 65000000000000000

def coinBaseAddress : Address := zeroAddress

def foundationDilithiumAddress : Address :=
  Bytes.alignLeft 20 [0x20, 0xb8, 0x64, 0x43, 0x84, 0x90, 0x21, 0x24, 0x49, 0x43, 0xca, 0xc2,
    0x33, 0xc1, 0xed, 0x6f, 0x76, 0x37, 0x0f, 0xd7]

def genesisTimestamp : UInt64 := 1663120306

def blockReward : UInt64 := 5 * shorPerQuanta

def attestorReward : UInt64 := 2 * shorPerQuanta

def dilithiumPKSize : Nat := 1472

def xmssExtendedPKSize : Nat := 67

def stakeTxGas : UInt64 := 1000

def dataLenLimit : Nat := 24 * 1024

def transactionPoolSize : Nat := 25000

/-- The most transactions a minted block takes from the pool. -/
def maxMintedTransactions : Nat := 100

def txGas : UInt64 := 21000

def txGasContractCreation : UInt64 := 53000

def txDataZeroGas : UInt64 := 4

def txDataNonZeroGas : UInt64 := 16

def refundQuotient : UInt64 := 5

def createDataGas : UInt64 := 200

def maxCodeSize : Nat := 24576

end Config

def epochOf (slot : UInt64) : UInt64 := slot / Config.blocksPerEpoch

@[simp] theorem toNat_epochOf (slot : UInt64) : (epochOf slot).toNat = slot.toNat / 100 := by
  unfold epochOf
  rw [UInt64.toNat_div]
  rfl

theorem epochOf_mono {s t : UInt64} (h : s.toNat ≤ t.toNat) :
    (epochOf s).toNat ≤ (epochOf t).toNat := by
  exact Nat.div_le_div_right h

theorem toNat_stakeAmount : Config.stakeAmount.toNat = 10 ^ 13 := by decide

end Zond
