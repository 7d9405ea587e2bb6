import Zond.Core.Block
import Zond.Core.StateDB

/-!
# Receipts

## Main definitions

* `Receipt`: What processing a transaction leaves behind for clients.
* `createBloom`: The bloom filter over the logs of a list of receipts.
-/

namespace Zond

inductive TxType where
  | coinBase
  | attest
  | transfer
  | stake
deriving DecidableEq, Repr

/-- `types.Receipt`. `status` is true for `ReceiptStatusSuccessful`; a receipt of
    anything but a contract creation has the zero contract address. -/
structure Receipt where
  type : TxType
  status : Bool
  cumulativeGasUsed : UInt64
  bloom : Bloom
  logs : List Log
  txHash : Hash
  contractAddress : Address
  gasUsed : UInt64
  blockHash : Hash
  blockNumber : Int
  transactionIndex : Nat
deriving DecidableEq

namespace Bloom

def empty : Bloom := Bytes.zeros 256

/-- The byte index and the bit that `bloomValues` reads from two hash bytes. -/
def bloomValue (hi lo : UInt8) : Nat × UInt8 :=
  (256 - (hi.toNat * 256 + lo.toNat) % 2048 / 8 - 1, 1 <<< (lo % 8))

def setBit (b : Bloom) (iv : Nat × UInt8) : Bloom :=
  ⟨b.val.modify iv.1 (fun x => x ||| iv.2), (List.length_modify ..).trans b.property⟩

/-- `Bloom.add`: three bits from the first six bytes of the Keccak hash. -/
def add (c : Crypto) (b : Bloom) (d : List UInt8) : Bloom :=
  match (c.keccak256 d).val with
  | b0 :: b1 :: b2 :: b3 :: b4 :: b5 :: _ =>
    ((b.setBit (bloomValue b0 b1)).setBit (bloomValue b2 b3)).setBit (bloomValue b4 b5)
  | _ => b

end Bloom

def addLogToBloom (c : Crypto) (b : Bloom) (l : Log) : Bloom :=
  l.topics.foldl (fun b t => Bloom.add c b t.val) (Bloom.add c b l.address.val)

/-- `types.CreateBloom`, over the logs of the receipts in order. -/
def createBloom (c : Crypto) (logs : List (List Log)) : Bloom :=
  logs.foldl (fun b ls => ls.foldl (addLogToBloom c) b) Bloom.empty

end Zond
