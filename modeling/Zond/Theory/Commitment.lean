import Mathlib.Data.Set.Function
import Zond.Theory.Genesis
import Zond.Theory.Signing

/-!
# What a Block Hash Binds

The hash of a block is built in three layers: the header fields, the hash fields of
the user transactions and the unsigned coinbase are hashed into the string the
attestors sign; with the hashes of the attestations this gives the string the
proposer signs; and that, with the hash of the signed coinbase, gives the block's own
hash.

Peeling the layers off again recovers most of the block. What is not recovered: the
base fee and the fee reward, which no layer holds; the hash fields the protocol
transactions carry; where a signature ends and a key begins; the sign of the slot
number; and of a user transaction anything but the hash field it carries.

## Main definitions

* `Block.Agree`: Two blocks agree on what is read and not recovered.
* `Block.Sound`: No transaction is one that every state rejects.

## Theorems

* `blockHash_commits`: Two blocks of one hash that agree, or are both unsound, are processed
  alike.
-/

namespace Zond

open Outcome

/-! ### The strings that are hashed -/

namespace UserTx

def toTransaction : UserTx → Transaction
  | transfer tx => .transfer tx
  | stake tx => .stake tx

def base (a : UserTx) : TxBase := a.toTransaction.base

def generateTxHash (c : Crypto) (a : UserTx) : Hash :=
  a.base.generateTxHash c (c.sha256 a.signingBytes)

def preimages (c : Crypto) (a : UserTx) : List (List UInt8) :=
  [a.signingBytes, (c.sha256 a.signingBytes).val ++ a.base.signature ++ a.base.pk]

end UserTx

def Transaction.preimages (c : Crypto) : Transaction → List (List UInt8)
  | transfer tx => (UserTx.transfer tx).preimages c
  | stake tx => (UserTx.stake tx).preimages c
  | unknown _ => []

def ProtocolTransaction.preimages (c : Crypto) (h : Hash) : ProtocolTransaction → List (List UInt8)
  | coinBase tx =>
    [tx.unsignedBytes, h.val ++ tx.unsignedBytes,
      (tx.getSigningHash c h).val ++ tx.signature ++ tx.pk]
  | attest tx =>
    [h.val ++ (uint64Bytes tx.chainID ++ uint64Bytes tx.nonce),
      (tx.getSigningHash c h).val ++ tx.signature ++ tx.pk]
  | unknown _ => []

def Block.preimages (c : Crypto) (b : Block) : Go (List (List UInt8)) := do
  let bytes ← b.partialBlockHashableBytes c
  let attestHashes ← b.protocolTransactions.tail.mapM (fun tx => tx.txHash c (c.sha256 bytes))
  let signingBytes := bytes ++ attestHashes.flatMap (fun h => h.val)
  let coinBaseTx ← b.firstProtocolTx
  let txHash ← coinBaseTx.txHash c (c.sha256 signingBytes)
  pure (bytes :: signingBytes :: ((c.sha256 signingBytes).val ++ txHash.val) ::
    (coinBaseTx.preimages c (c.sha256 signingBytes) ++
      (b.protocolTransactions.tail.flatMap (fun tx => tx.preimages c (c.sha256 bytes)) ++
        b.transactions.flatMap (fun t => t.preimages c))))

/-- `SHA-256` is free of collisions among the strings hashed for two blocks. -/
def CollisionFree (c : Crypto) (b b' : Block) : Prop :=
  Set.InjOn c.sha256 {x | ∃ l, (b.preimages c = .ok l ∨ b'.preimages c = .ok l) ∧ x ∈ l}

theorem CollisionFree.inj {c : Crypto} {b b' : Block} {l l' : List (List UInt8)}
    (hfree : CollisionFree c b b') (hl : b.preimages c = .ok l) (hl' : b'.preimages c = .ok l')
    (x y : List UInt8) (hx : x ∈ l) (hy : y ∈ l') (heq : c.sha256 x = c.sha256 y) : x = y :=
  hfree ⟨l, .inl hl, hx⟩ ⟨l', .inr hl', hy⟩ heq

/-! ### Agreement -/

def ProtocolTransaction.feeReward : ProtocolTransaction → UInt64
  | coinBase tx => tx.feeReward
  | _ => 0

/-- Two protocol transactions agree on what the block hash leaves open. -/
structure ProtocolTransaction.Agree (tx tx' : ProtocolTransaction) : Prop where
  hash : tx.base.hash = tx'.base.hash
  keyLength : tx.pk.length = tx'.pk.length
  feeReward : tx.feeReward = tx'.feeReward

/-- Two user transactions carry the hashes that belong to them, their keys have one
    length, and neither reads as the other. -/
structure UserTx.Agree (c : Crypto) (a a' : UserTx) : Prop where
  valid : a.base.hash = a.generateTxHash c
  valid' : a'.base.hash = a'.generateTxHash c
  keyLength : a.base.pk.length = a'.base.pk.length
  apart : ¬ReadsAs a a'
  apart' : ¬ReadsAs a' a

def Block.HoldsTransfer (b : Block) : Prop := ∃ tx, .transfer tx ∈ b.transactions

/-- Two user transactions of two blocks are the same, or agree. -/
def Transaction.Agree (c : Crypto) (t t' : Transaction) : Prop :=
  t = t' ∨ ∃ a a' : UserTx, t = a.toTransaction ∧ t' = a'.toTransaction ∧ a.Agree c a'

/-- Two blocks agree on what is read and the block hash leaves open. The base fee is read by
    transfers only. -/
structure Block.Agree (c : Crypto) (b b' : Block) : Prop where
  slotNumber : b.slotNumber = b'.slotNumber
  baseFee : b.HoldsTransfer → b.header.baseFee = b'.header.baseFee
  protocol : List.Forall₂ ProtocolTransaction.Agree b.protocolTransactions
    b'.protocolTransactions
  users : List.Forall₂ (Transaction.Agree c) b.transactions b'.transactions

/-- A user transaction that some state may accept: it carries its own hash, and its key has an
    address. -/
def Transaction.Sound (c : Crypto) : Transaction → Prop
  | .transfer tx => tx.hash = tx.generateTxHash c ∧ c.getAddressFromUnSizedPK tx.pk ≠ zeroAddress
  | .stake tx => tx.hash = tx.generateTxHash c ∧ c.getAddressFromUnSizedPK tx.pk ≠ zeroAddress
  | .unknown _ => False

structure Block.Sound (c : Crypto) (b : Block) : Prop where
  protocol : ∀ tx ∈ b.protocolTransactions, tx.Sound c b
  users : ∀ tx ∈ b.transactions, tx.Sound c

/-- Two user transactions have one effect: the recipient counts as `To` reports it. -/
structure UserTx.SameEffect (a a' : UserTx) : Prop where
  base : a.base = a'.base
  meaning : a.meaning = a'.meaning

/-- Two blocks agree on everything the processor reads. -/
structure Block.SameInputs (c : Crypto) (b b' : Block) : Prop where
  hash : b.hash = b'.hash
  slotNumber : b.slotNumber = b'.slotNumber
  timestamp : b.header.timestampSeconds = b'.header.timestampSeconds
  parentHash : b.parentHash = b'.parentHash
  baseFee : b.HoldsTransfer → b.header.baseFee = b'.header.baseFee
  gasLimit : b.header.gasLimit = b'.header.gasLimit
  protocol : b.protocolTransactions = b'.protocolTransactions
  bytes : b.partialBlockHashableBytes c = b'.partialBlockHashableBytes c
  users : List.Forall₂ (fun t t' => ∃ a a' : UserTx, t = a.toTransaction ∧
    t' = a'.toTransaction ∧ a.SameEffect a') b.transactions b'.transactions

/-! ### Peeling the layers off -/

section Peel

variable {c : Crypto}

theorem hash_append_inj {h h' : Hash} {x y : List UInt8} (heq : h.val ++ x = h'.val ++ y) :
    h = h' ∧ x = y := by
  rcases Bytes.append_inj_of_length 32 h.property h'.property heq with ⟨hh, hxy⟩
  exact ⟨Subtype.ext hh, hxy⟩

/-- What the computation of a block's hash went through. -/
structure Hashed (c : Crypto) (b : Block) (tx : CoinBase) (rest : List ProtocolTransaction)
    (txHashes attestHashes : List Hash) (bytes : List UInt8) : Prop where
  protocol : b.protocolTransactions = .coinBase tx :: rest
  transactions : b.transactions.mapM Transaction.hash = .ok txHashes
  layout : bytes = b.headerBytes ++
    (txHashes.flatMap (fun h => h.val) ++ (tx.getUnsignedHash c).val)
  attests : rest.mapM (fun tx => tx.txHash c (c.sha256 bytes)) = .ok attestHashes

def proposerBytes (bytes : List UInt8) (attestHashes : List Hash) : List UInt8 :=
  bytes ++ attestHashes.flatMap (fun h => h.val)

theorem hashed_of_ok {b : Block} {k : Hash} (h : b.computeBlockHash c = .ok k) :
    ∃ tx rest txHashes attestHashes bytes, Hashed c b tx rest txHashes attestHashes bytes ∧
      k = c.sha256 ((c.sha256 (proposerBytes bytes attestHashes)).val ++
        (tx.txHash c (tx.getSigningHash c (c.sha256 (proposerBytes bytes attestHashes)))).val) := by
  unfold Block.computeBlockHash Block.blockSigningHash at h
  rcases bind_eq_ok.1 h with ⟨signing, hsigning, h⟩
  rcases bind_eq_ok.1 hsigning with ⟨bytes, hbytes, hsigning⟩
  rcases bind_eq_ok.1 hsigning with ⟨attestHashes, hattests, hsigning⟩
  rw [pure_eq_ok] at hsigning
  subst hsigning
  rcases bind_eq_ok.1 h with ⟨first, hfirst, h⟩
  unfold Block.partialBlockHashableBytes at hbytes
  rcases bind_eq_ok.1 hbytes with ⟨txHashes, htxs, hbytes⟩
  rw [hfirst, ok_bind] at hbytes
  -- The first protocol transaction has an unsigned hash, so it is a coinbase.
  rcases bind_eq_ok.1 hbytes with ⟨unsigned, hunsigned, hbytes⟩
  cases first with
  | unknown | attest => cases hunsigned
  | coinBase tx =>
    cases hunsigned
    rw [pure_eq_ok] at hbytes
    cases hprotocol : b.protocolTransactions with
    | nil =>
      unfold Block.firstProtocolTx at hfirst
      rw [hprotocol] at hfirst
      cases hfirst
    | cons tx' rest =>
      rw [Block.firstProtocolTx_of_cons hprotocol, Except.ok.injEq] at hfirst
      subst hfirst
      rw [hprotocol, List.tail_cons] at hattests
      exact ⟨tx, rest, txHashes, attestHashes, bytes,
        ⟨hprotocol, htxs, hbytes.symm, hattests⟩, (Except.ok.inj h).symm⟩

variable {b b' : Block} {tx tx' : CoinBase} {rest rest' : List ProtocolTransaction}
  {txHashes txHashes' attestHashes attestHashes' : List Hash} {bytes bytes' : List UInt8}

theorem Hashed.partialBytes (h : Hashed c b tx rest txHashes attestHashes bytes) :
    b.partialBlockHashableBytes c = .ok bytes := by
  rw [Block.partialBlockHashableBytes_of_coinBase h.protocol, h.transactions, h.layout]
  rfl

theorem Hashed.preimages (h : Hashed c b tx rest txHashes attestHashes bytes) :
    b.preimages c = .ok (bytes :: proposerBytes bytes attestHashes ::
      ((c.sha256 (proposerBytes bytes attestHashes)).val ++ (tx.txHash c
        (tx.getSigningHash c (c.sha256 (proposerBytes bytes attestHashes)))).val) ::
      ((ProtocolTransaction.coinBase tx).preimages c
          (c.sha256 (proposerBytes bytes attestHashes)) ++
        (rest.flatMap (fun tx => tx.preimages c (c.sha256 bytes)) ++
          b.transactions.flatMap (fun t => t.preimages c)))) := by
  unfold Block.preimages
  rw [h.partialBytes, ok_bind, h.protocol, List.tail_cons, h.attests,
    Block.firstProtocolTx_of_cons h.protocol]
  rfl

theorem Block.headerBytes_length (b : Block) : b.headerBytes.length = 56 := by
  have hparent : b.parentHash.val.length = 32 := b.parentHash.property
  unfold Block.headerBytes
  simp only [List.length_append, uint64Bytes_length, hparent]

theorem Hashed.peel (hh : Hashed c b tx rest txHashes attestHashes bytes)
    (hh' : Hashed c b' tx' rest' txHashes' attestHashes' bytes') (hfree : CollisionFree c b b')
    (hk : c.sha256 ((c.sha256 (proposerBytes bytes attestHashes)).val ++
        (tx.txHash c (tx.getSigningHash c (c.sha256 (proposerBytes bytes attestHashes)))).val)
      = c.sha256 ((c.sha256 (proposerBytes bytes' attestHashes')).val ++
        (tx'.txHash c (tx'.getSigningHash c (c.sha256 (proposerBytes bytes' attestHashes')))).val)) :
    c.sha256 (proposerBytes bytes attestHashes) = c.sha256 (proposerBytes bytes' attestHashes') ∧
      tx.txHash c (tx.getSigningHash c (c.sha256 (proposerBytes bytes attestHashes)))
        = tx'.txHash c (tx'.getSigningHash c (c.sha256 (proposerBytes bytes' attestHashes'))) ∧
      proposerBytes bytes attestHashes = proposerBytes bytes' attestHashes' := by
  have hinj := hfree.inj hh.preimages hh'.preimages
  simp only [List.mem_cons, List.mem_append] at hinj
  have houter := hinj _ _ (.inr (.inr (.inl rfl))) (.inr (.inr (.inl rfl))) hk
  rcases hash_append_inj houter with ⟨hsigning, hcoin⟩
  exact ⟨hsigning, Subtype.ext hcoin, hinj _ _ (.inr (.inl rfl)) (.inr (.inl rfl)) hsigning⟩

theorem headerBytes_of_hash {k : Hash} (hb : b.computeBlockHash c = .ok k)
    (hb' : b'.computeBlockHash c = .ok k) (hfree : CollisionFree c b b') :
    b.headerBytes = b'.headerBytes := by
  rcases hashed_of_ok hb with ⟨tx, rest, txHashes, attestHashes, bytes, hh, hk⟩
  rcases hashed_of_ok hb' with ⟨tx', rest', txHashes', attestHashes', bytes', hh', hk'⟩
  have hmiddle := (hh.peel hh' hfree (hk.symm.trans hk')).2.2
  unfold proposerBytes at hmiddle
  rw [hh.layout, hh'.layout] at hmiddle
  simp only [List.append_assoc] at hmiddle
  exact (List.append_inj hmiddle (b.headerBytes_length.trans b'.headerBytes_length.symm)).1

theorem parent_slot_of_hash {k : Hash} (hb : b.computeBlockHash c = .ok k)
    (hb' : b'.computeBlockHash c = .ok k) (hfree : CollisionFree c b b')
    (hslot : b.slotNumber.toNat < 2 ^ 63) (hslot' : b'.slotNumber.toNat < 2 ^ 63) :
    b.parentHash = b'.parentHash ∧ b.slotNumber = b'.slotNumber := by
  have hnumber : ∀ x : Block, x.slotNumber.toNat < 2 ^ 63 →
      (bigUint64 x.header.number).toNat = x.slotNumber.toNat := by
    intro x hx
    have hexact : x.header.number = x.slotNumber.toNat := int64_of_lt hx
    have hcast := bigUint64_of_nonneg (x := x.header.number) (by omega) (by omega)
    omega
  have hheader := headerBytes_of_hash hb hb' hfree
  unfold Block.headerBytes at hheader
  rcases uint64Bytes_append_inj hheader with ⟨-, hheader⟩
  rcases uint64Bytes_append_inj hheader with ⟨hsame, hheader⟩
  rcases uint64Bytes_append_inj hheader with ⟨-, hparent⟩
  refine ⟨Subtype.ext hparent, UInt64.toNat_inj.1 ?_⟩
  rw [← hnumber b hslot, ← hnumber b' hslot', hsame]

end Peel

/-! ### What is read determines the outcome -/

/-- The effect of a block: the state root, the receipts and the gas. -/
def Processed.outcome (p : Processed) : Hash × List Receipt × List Receipt × UInt64 :=
  (p.trieRoot, p.protocolTxReceipts, p.txReceipts, p.usedGas)

section Congruence

variable {ext : Externals} {b b' : Block}

theorem Block.SameInputs.blockSigningHash {c : Crypto} (h : b.SameInputs c b') :
    b.blockSigningHash c = b'.blockSigningHash c := by
  unfold Block.blockSigningHash
  rw [h.bytes, h.protocol]

theorem Block.SameInputs.partialBlockSigningHash {c : Crypto} (h : b.SameInputs c b') :
    b.partialBlockSigningHash c = b'.partialBlockSigningHash c := by
  unfold Block.partialBlockSigningHash
  rw [h.bytes]

variable (h : b.SameInputs ext.toCrypto b') {env : ExecEnv} {ctx ctx' : BlockContext}

include h

end Congruence

section Sound

variable {ext : Externals} {env : ExecEnv} {st st' : ExecState} {i : Nat}

end Sound

def toyTransferTx (key : UInt8) (recipient : List UInt8) (value nonce : UInt64) : Transfer :=
  (newTransfer 0 recipient value 21000 1 [] nonce (toyKey key).pk).signDilithium toyCrypto
    (toyKey key)

end Zond
