import Zond.Core.Transaction

/-!
# Blocks

The hashable bytes follow the source call by call. `binary.Write` is handed
`Header.BaseFee()` and `Header.GasUsed()`, which are `*big.Int`, a type it does
not encode: those two calls return an error nobody reads and write nothing. The
slot number goes through `int64` and `big.Int.Uint64` on its way.

## Main definitions

* `Block`: The header and the two lists of transactions.
* `Block.blockSigningHash`, `Block.computeBlockHash`: What is signed, and the block's hash.
* `Block.getPendingValidatorsUpdate`: The validator updates a block asks for.
-/

namespace Zond

abbrev Bloom := List.Vector UInt8 256

/-- A block header. The last three fields are filled in when the block is
    processed; `hash` and `parentHash` are read through `BytesToHash`. -/
structure Header where
  hash : Hash
  slotNumber : UInt64
  timestampSeconds : UInt64
  parentHash : Hash
  baseFee : UInt64
  gasLimit : UInt64
  gasUsed : UInt64
  root : Hash
  protocolTxBloom : Bloom
  txBloom : Bloom
deriving DecidableEq

namespace Header

def number (h : Header) : Int := int64 h.slotNumber

def bigBaseFee (h : Header) : Int := int64 h.baseFee

end Header

structure Block where
  header : Header
  protocolTransactions : List ProtocolTransaction
  transactions : List Transaction
deriving DecidableEq

namespace Block

def hash (b : Block) : Hash := b.header.hash

def parentHash (b : Block) : Hash := b.header.parentHash

def slotNumber (b : Block) : UInt64 := b.header.slotNumber

def epoch (b : Block) : UInt64 := epochOf b.slotNumber

/-- `b.ProtocolTransactions()[0]`, indexed unguarded. -/
def firstProtocolTx (b : Block) : Go ProtocolTransaction :=
  match b.protocolTransactions with
  | [] => .error (.panic .indexOutOfRange)
  | tx :: _ => .ok tx

/-- The transactions of the block in the order they are processed. -/
def allTransactions (b : Block) : List AnyTransaction :=
  b.protocolTransactions.map .inr ++ b.transactions.map .inl

def minter (c : Crypto) (b : Block) : Go Address := do
  let tx ← b.firstProtocolTx
  pure (c.getDilithiumAddressFromUnSizedPK tx.pk)

/-- The header fields that reach the hashable bytes: base fee and gas used are
    not among them. -/
def headerBytes (b : Block) : List UInt8 :=
  uint64Bytes b.header.timestampSeconds ++ (uint64Bytes (bigUint64 b.header.number) ++
    (uint64Bytes b.header.gasLimit ++ b.parentHash.val))

def partialBlockHashableBytes (c : Crypto) (b : Block) : Go (List UInt8) := do
  let txHashes ← b.transactions.mapM Transaction.hash
  let coinBaseTx ← b.firstProtocolTx
  let unsignedHash ← coinBaseTx.getUnsignedHash c
  pure (b.headerBytes ++ (txHashes.flatMap (fun h => h.val) ++ unsignedHash.val))

def partialBlockSigningHash (c : Crypto) (b : Block) : Go Hash := do
  let bytes ← b.partialBlockHashableBytes c
  pure (c.sha256 bytes)

/-- `Block.BlockSigningHash`: the same bytes followed by the attestations' hashes. -/
def blockSigningHash (c : Crypto) (b : Block) : Go Hash := do
  let bytes ← b.partialBlockHashableBytes c
  let attestHashes ← b.protocolTransactions.tail.mapM (fun tx => tx.txHash c (c.sha256 bytes))
  pure (c.sha256 (bytes ++ attestHashes.flatMap (fun h => h.val)))

def computeBlockHash (c : Crypto) (b : Block) : Go Hash := do
  let blockSigningHash ← b.blockSigningHash c
  let coinBaseTx ← b.firstProtocolTx
  let txHash ← coinBaseTx.txHash c blockSigningHash
  pure (c.sha256 (blockSigningHash.val ++ txHash.val))

theorem firstProtocolTx_of_cons {b : Block} {tx : ProtocolTransaction}
    {rest : List ProtocolTransaction} (h : b.protocolTransactions = tx :: rest) :
    b.firstProtocolTx = .ok tx := by
  unfold firstProtocolTx
  rw [h]

theorem partialBlockHashableBytes_of_coinBase {c : Crypto} {b : Block} {tx : CoinBase}
    {rest : List ProtocolTransaction} (h : b.protocolTransactions = .coinBase tx :: rest) :
    b.partialBlockHashableBytes c = b.transactions.mapM Transaction.hash >>= fun txHashes =>
      pure (b.headerBytes ++
        (txHashes.flatMap (fun h => h.val) ++ (tx.getUnsignedHash c).val)) := by
  unfold partialBlockHashableBytes
  rw [firstProtocolTx_of_cons h]
  rfl

/-- One transaction's contribution to `GetPendingValidatorsUpdate`: a stake adds
    its key unless the block has already named it. -/
def addPendingValidator (keys : List (List UInt8)) : Transaction → List (List UInt8)
  | .stake tx => if tx.pk ∈ keys then keys else keys ++ [tx.pk]
  | _ => keys

/-- `Block.GetPendingValidatorsUpdate`: the keys of the block's stake
    transactions, each once, in order of first appearance. -/
def getPendingValidatorsUpdate (b : Block) : List (List UInt8) :=
  b.transactions.foldl addPendingValidator []

/-- `Block.UpdateBloom` and `Block.UpdateRoots`. -/
def updateRoots (b : Block) (trieRoot : Hash) (protocolTxBloom txBloom : Bloom) : Block :=
  { b with header := { b.header with
      root := trieRoot, protocolTxBloom := protocolTxBloom, txBloom := txBloom } }

@[simp] theorem updateRoots_slotNumber (b : Block) (r : Hash) (p t : Bloom) :
    (b.updateRoots r p t).slotNumber = b.slotNumber := rfl

theorem mem_addPendingValidator (keys : List (List UInt8)) (t : Transaction) (pk : List UInt8) :
    pk ∈ addPendingValidator keys t ↔ pk ∈ keys ∨ ∃ tx : Stake, t = .stake tx ∧ tx.pk = pk := by
  cases t with
  | stake tx =>
    simp only [addPendingValidator, Transaction.stake.injEq, exists_eq_left']
    by_cases hmem : tx.pk ∈ keys
    · rw [if_pos hmem]
      exact ⟨.inl, fun h => h.elim id (fun hpk => hpk ▸ hmem)⟩
    · rw [if_neg hmem, List.mem_append, List.mem_singleton, eq_comm (a := pk)]
  | transfer | unknown =>
      simp only [addPendingValidator, reduceCtorEq, false_and, exists_false, or_false]

theorem mem_foldl_addPendingValidator (txs : List Transaction) (keys : List (List UInt8))
    (pk : List UInt8) : pk ∈ txs.foldl addPendingValidator keys ↔
      pk ∈ keys ∨ ∃ tx : Stake, .stake tx ∈ txs ∧ tx.pk = pk := by
  induction txs generalizing keys with
  | nil => simp only [List.foldl_nil, List.not_mem_nil, false_and, exists_false, or_false]
  | cons t rest ih =>
    rw [List.foldl_cons, ih, mem_addPendingValidator, or_assoc]
    simp only [List.mem_cons, or_and_right, exists_or, eq_comm (a := t)]

theorem mem_getPendingValidatorsUpdate (b : Block) (pk : List UInt8) :
    pk ∈ b.getPendingValidatorsUpdate ↔
      ∃ tx : Stake, .stake tx ∈ b.transactions ∧ tx.pk = pk := by
  unfold getPendingValidatorsUpdate
  rw [mem_foldl_addPendingValidator]
  simp only [List.not_mem_nil, false_or]

theorem getPendingValidatorsUpdate_nodup (b : Block) : b.getPendingValidatorsUpdate.Nodup := by
  unfold getPendingValidatorsUpdate
  generalize hkeys : ([] : List (List UInt8)) = keys
  have hnodup : keys.Nodup := hkeys ▸ List.nodup_nil
  clear hkeys
  induction b.transactions generalizing keys with
  | nil => exact hnodup
  | cons t rest ih =>
    rw [List.foldl_cons]
    apply ih
    cases t with
    | stake tx =>
      simp only [addPendingValidator]
      by_cases hmem : tx.pk ∈ keys
      · rwa [if_pos hmem]
      · rw [if_neg hmem]
        exact List.nodup_append.2 ⟨hnodup, List.nodup_singleton _, fun a ha b hb hab =>
          hmem (List.mem_singleton.1 hb ▸ hab ▸ ha)⟩
    | transfer | unknown => exact hnodup

end Block

end Zond
