import Zond.Core.ReceiptStore

/-!
# Log Queries

`filters.Filter` over the store of a node. A query for one block looks at the bloom
filter in the block's header first, and reads the logs only when that lets it.

## Main definitions

* `Filter.logs`: The answer to a query.
* `bloomFilter`, `filterLogs`: The two tests.
-/

namespace Zond

namespace Bloom

/-- `v == v & b[i]`. -/
def testBit (b : Bloom) (iv : Nat × UInt8) : Bool := iv.2 == iv.2 &&& b.val.getD iv.1 0

/-- `Bloom.Test`, which `BloomLookup` calls. -/
def test (c : Crypto) (b : Bloom) (topic : List UInt8) : Bool :=
  match (c.keccak256 topic).val with
  | b0 :: b1 :: b2 :: b3 :: b4 :: b5 :: _ =>
    b.testBit (bloomValue b0 b1) && b.testBit (bloomValue b2 b3) && b.testBit (bloomValue b4 b5)
  -- A hash has 32 bytes.
  | _ => true

end Bloom

/-- `big.Int.Int64`: the low 64 bits with the sign of the number. -/
def bigInt64 (x : Int) : Int := int64 (if x < 0 then 0 - bigUint64 x else bigUint64 x)

/-- A filter. `first` and `last` are `begin` and `end`. -/
structure Filter where
  addresses : List Address
  topics : List (List Hash)
  block : Hash
  first : Int
  last : Int

/-- How a query ends without logs: an error of the store, the error of a range, and the
    nil block that `PendingBlockAndReceipts` hands to `pendingLogs`. -/
inductive QueryFailure where
  | notFound
  | invalidBlockRange
  | panic (f : Failure)
  | nilPendingBlock

/-- The tests of the loop of `filterLogs`. -/
def Log.selected (fromBlock toBlock : Option Int) (addresses : List Address)
    (topics : List (List Hash)) (log : Log) : Bool :=
  (∀ n ∈ fromBlock, 0 ≤ bigInt64 n → bigUint64 n ≤ log.blockNumber) ∧
  (∀ n ∈ toBlock, 0 ≤ bigInt64 n → log.blockNumber ≤ bigUint64 n) ∧
  (addresses ≠ [] → log.address ∈ addresses) ∧
  topics.length ≤ log.topics.length ∧
  ∀ x ∈ topics.zip log.topics, x.1 ≠ [] → x.2 ∈ x.1

def filterLogs (logs : List Log) (fromBlock toBlock : Option Int) (addresses : List Address)
    (topics : List (List Hash)) : List Log :=
  logs.filter (Log.selected fromBlock toBlock addresses topics)

def bloomFilter (c : Crypto) (bloom : Bloom) (addresses : List Address)
    (topics : List (List Hash)) : Bool :=
  (addresses.isEmpty || addresses.any (fun a => bloom.test c a.val)) &&
    topics.all (fun sub => sub.isEmpty || sub.any (fun t => bloom.test c t.val))

namespace Filter

variable (ext : Externals) (db : Store) (f : Filter)

/-- `Filter.checkMatches`. Logs without a transaction hash are looked up in the receipts. -/
def checkMatches (header : Header) : Except QueryFailure (List Log) :=
  match getLogsByHash db header.hash with
  | none => .error .notFound
  | some logsList =>
    match filterLogs (logsList.getD []).flatten none none f.addresses f.topics with
    | [] => .ok []
    | log :: logs =>
      if log.txHash = zeroHash then
        match getReceiptsByHash ext db header.hash false with
        | .error e => .error (.panic e)
        | .ok receipts =>
          .ok (filterLogs ((receipts.getD []).flatMap Receipt.logs) none none f.addresses f.topics)
      else .ok (log :: logs)

def blockLogs (header : Header) : Except QueryFailure (List Log) :=
  if bloomFilter ext.toCrypto header.txBloom f.addresses f.topics then
    f.checkMatches ext db header
  else .ok []

/-- `Filter.Logs`. Of the ranges only that of the pending block, which is -2, is looked at. -/
def logs : Except QueryFailure (List Log) :=
  if f.block ≠ zeroHash then
    match db.blocks.get f.block with
    | none => .error .notFound
    | some b => f.blockLogs ext db b.header
  else if f.first = -2 then
    if f.last ≠ -2 then .error .invalidBlockRange else .error .nilPendingBlock
  else .ok []

end Filter

end Zond
