import Zond.Core.Config
import Zond.Core.Failure

/-!
# Transactions

The messages are the protobuf ones. The kind of a message is a `oneof` that a
peer may leave unset, so both sums have a case for it. Hash fields are always
read through `BytesToHash`, so they are kept as hashes; keys, signatures,
recipients and data keep the length they came with.

## Main definitions

* `Transaction`: A user transaction, a transfer or a stake.
* `ProtocolTransaction`: A coinbase or an attestation.
* `Crypto`: The hash functions and the signature schemes.
-/

namespace Zond

/-- The cryptographic libraries: hash functions, address derivation, address
    descriptors and signature verification, each an arbitrary function. Where the
    library may panic there is `none`: on the descriptor of an XMSS key that it does
    not support, and on signatures that are too short or of a wrong size. -/
structure Crypto where
  sha256 : List UInt8 → Hash
  md5 : List UInt8 → List.Vector UInt8 16
  keccak256 : List UInt8 → Hash
  getDilithiumAddressFromPK : List.Vector UInt8 Config.dilithiumPKSize → Address
  getXMSSAddressFromPK : List.Vector UInt8 Config.xmssExtendedPKSize → Option Address
  isValidDilithiumAddress : Address → Bool
  isValidXMSSAddress : Address → Bool
  dilithiumVerify : Hash → List UInt8 → List.Vector UInt8 Config.dilithiumPKSize → Option Bool
  xmssVerify : Hash → List UInt8 → List.Vector UInt8 Config.xmssExtendedPKSize → Option Bool

def unSizedDilithiumPKToSizedPK (pk : List UInt8) : List.Vector UInt8 Config.dilithiumPKSize :=
  Bytes.alignLeft _ pk

def unSizedXMSSPKToSizedPK (pk : List UInt8) : List.Vector UInt8 Config.xmssExtendedPKSize :=
  Bytes.alignLeft _ pk

namespace Crypto

variable (c : Crypto)

def getDilithiumAddressFromUnSizedPK (pk : List UInt8) : Address :=
  c.getDilithiumAddressFromPK (unSizedDilithiumPKToSizedPK pk)

/-- `misc.GetXMSSAddressFromUnSizedPK`. A key the library panics on has no address here;
    the calls that see such a key, those of `AddrFrom`, panic on it. -/
def getXMSSAddressFromUnSizedPK (pk : List UInt8) : Address :=
  (c.getXMSSAddressFromPK (unSizedXMSSPKToSizedPK pk)).getD zeroAddress

/-- `misc.GetAddressFromUnSizedPK`: the scheme is told by the key's length, and a
    key of neither length gets the zero address. -/
def getAddressFromUnSizedPK (pk : List UInt8) : Address :=
  if pk.length = Config.xmssExtendedPKSize then c.getXMSSAddressFromUnSizedPK pk
  else if pk.length = Config.dilithiumPKSize then c.getDilithiumAddressFromUnSizedPK pk
  else zeroAddress

theorem getAddressFromUnSizedPK_of_dilithium {pk : List UInt8}
    (h : pk.length = Config.dilithiumPKSize) :
    c.getAddressFromUnSizedPK pk = c.getDilithiumAddressFromUnSizedPK pk := by
  unfold getAddressFromUnSizedPK
  rw [if_neg (by rw [h]; decide), if_pos h]

end Crypto

structure TxBase where
  chainID : UInt64
  nonce : UInt64
  gas : UInt64
  gasPrice : UInt64
  pk : List UInt8
  signature : List UInt8
  hash : Hash
deriving DecidableEq

/-- A transfer. An empty recipient means contract creation. -/
structure Transfer extends TxBase where
  toBytes : List UInt8
  value : UInt64
  data : List UInt8
deriving DecidableEq

/-- A stake transaction: the amount the signer wants staked from the next epoch. -/
structure Stake extends TxBase where
  amount : UInt64
deriving DecidableEq

/-- A user transaction of a block; `unknown` has no kind set. -/
inductive Transaction where
  | transfer (tx : Transfer)
  | stake (tx : Stake)
  | unknown (base : TxBase)
deriving DecidableEq

namespace TxBase

def generateTxHash (c : Crypto) (tx : TxBase) (signingHash : Hash) : Hash :=
  c.sha256 (signingHash.val ++ tx.signature ++ tx.pk)

/-- `Transaction.AddrFrom`: panics when the key gives the zero address. -/
def addrFrom (c : Crypto) (tx : TxBase) : Go Address :=
  let addr := c.getAddressFromUnSizedPK tx.pk
  if addr = zeroAddress then .error (.panic (.invalidPKSize tx.pk.length)) else .ok addr

/-- `Transaction.OTSIndex`: the first four signature bytes, sliced unguarded. In Go the
    slice is bounded by the capacity, not the length: a field of one to three bytes that
    was decoded into room for eight is read on into that room. -/
def otsIndex (tx : TxBase) : Go Nat :=
  match tx.signature with
  | b0 :: b1 :: b2 :: b3 :: _ =>
    .ok (((b0.toNat * 256 + b1.toNat) * 256 + b2.toNat) * 256 + b3.toNat)
  | _ => .error (.panic .indexOutOfRange)

/-- The four fields both signing strings start with. -/
def signingHead (tx : TxBase) : List UInt8 :=
  uint64Bytes tx.chainID ++ uint64Bytes tx.nonce ++ uint64Bytes tx.gas ++
    uint64Bytes tx.gasPrice

theorem addrFrom_eq_ok {c : Crypto} {tx : TxBase} {addr : Address} : tx.addrFrom c = .ok addr ↔
      c.getAddressFromUnSizedPK tx.pk = addr ∧ addr ≠ zeroAddress := by
  unfold addrFrom
  by_cases h : c.getAddressFromUnSizedPK tx.pk = zeroAddress
  · simp only [h, if_true, reduceCtorEq, ne_eq, false_iff, not_and, not_not]
    exact fun ha => ha.symm
  · simp only [h, if_false, Except.ok.injEq, ne_eq]
    exact ⟨fun ha => ⟨ha, ha ▸ h⟩, fun ha => ha.1⟩

end TxBase

namespace Transfer

/-- `Transfer.To`: absent for an empty recipient, otherwise copied to 20 bytes. -/
def toAddr (tx : Transfer) : Option Address :=
  if tx.toBytes.length = 0 then none else some (unSizedAddressToSizedAddress tx.toBytes)

/-- The bytes `Transfer.GetSigningHash` hashes. -/
def signingBytes (tx : Transfer) : List UInt8 :=
  tx.signingHead ++
    ((match tx.toAddr with
      | some addr => addr.val
      | none => []) ++ (uint64Bytes tx.value ++ tx.data))

def getSigningHash (c : Crypto) (tx : Transfer) : Hash := c.sha256 tx.signingBytes

def generateTxHash (c : Crypto) (tx : Transfer) : Hash :=
  tx.toTxBase.generateTxHash c (tx.getSigningHash c)

end Transfer

namespace Stake

/-- The bytes `Stake.GetSigningHash` hashes. -/
def signingBytes (tx : Stake) : List UInt8 := tx.signingHead ++ uint64Bytes tx.amount

def getSigningHash (c : Crypto) (tx : Stake) : Hash := c.sha256 tx.signingBytes

def generateTxHash (c : Crypto) (tx : Stake) : Hash :=
  tx.toTxBase.generateTxHash c (tx.getSigningHash c)

end Stake

namespace Transaction

def base : Transaction → TxBase
  | transfer tx => tx.toTxBase
  | stake tx => tx.toTxBase
  | unknown tx => tx

/-- `ProtoToTransaction(pbData).Hash()`: without a kind the interface is nil. -/
def hash : Transaction → Go Hash
  | transfer tx => .ok tx.hash
  | stake tx => .ok tx.hash
  | unknown _ => .error (.panic .nilDereference)

end Transaction

structure ProtocolTxBase where
  chainID : UInt64
  nonce : UInt64
  pk : List UInt8
  signature : List UInt8
  hash : Hash
deriving DecidableEq

structure CoinBase extends ProtocolTxBase where
  blockProposerReward : UInt64
  attestorReward : UInt64
  feeReward : UInt64
deriving DecidableEq

structure Attest extends ProtocolTxBase
deriving DecidableEq

/-- A protocol transaction of a block; `unknown` has no kind set. -/
inductive ProtocolTransaction where
  | coinBase (tx : CoinBase)
  | attest (tx : Attest)
  | unknown (base : ProtocolTxBase)
deriving DecidableEq

/-- `ProtocolTransaction.GenerateTxHash`, which `TxHash` calls. -/
def ProtocolTxBase.txHash (c : Crypto) (tx : ProtocolTxBase) (signingHash : Hash) : Hash :=
  c.sha256 (signingHash.val ++ tx.signature ++ tx.pk)

namespace CoinBase

/-- The fields a coinbase is hashed over, after the block's signing hash. -/
def unsignedBytes (tx : CoinBase) : List UInt8 :=
  uint64Bytes tx.chainID ++ (uint64Bytes tx.nonce ++ (tx.pk ++
    (uint64Bytes tx.blockProposerReward ++ uint64Bytes tx.attestorReward)))

def getSigningHash (c : Crypto) (tx : CoinBase) (blockSigningHash : Hash) : Hash :=
  c.sha256 (blockSigningHash.val ++ tx.unsignedBytes)

def getUnsignedHash (c : Crypto) (tx : CoinBase) : Hash := c.sha256 tx.unsignedBytes

end CoinBase

def Attest.getSigningHash (c : Crypto) (tx : Attest) (partialBlockSigningHash : Hash) : Hash :=
  c.sha256 (partialBlockSigningHash.val ++ (uint64Bytes tx.chainID ++ uint64Bytes tx.nonce))

namespace ProtocolTransaction

def base : ProtocolTransaction → ProtocolTxBase
  | coinBase tx => tx.toProtocolTxBase
  | attest tx => tx.toProtocolTxBase
  | unknown tx => tx

def pk (tx : ProtocolTransaction) : List UInt8 := tx.base.pk

def getSigningHash (c : Crypto) (h : Hash) : ProtocolTransaction → Go Hash
  | coinBase tx => .ok (tx.getSigningHash c h)
  | attest tx => .ok (tx.getSigningHash c h)
  | unknown _ => .error (.panic .nilDereference)

/-- `ProtoToProtocolTransaction(pbData).GetUnsignedHash()`: only a coinbase
    implements it. -/
def getUnsignedHash (c : Crypto) : ProtocolTransaction → Go Hash
  | coinBase tx => .ok (tx.getUnsignedHash c)
  | attest _ => .error (.panic .notImplemented)
  | unknown _ => .error (.panic .nilDereference)

def txHash (c : Crypto) (h : Hash) (tx : ProtocolTransaction) : Go Hash := do
  let signingHash ← tx.getSigningHash c h
  pure (tx.base.txHash c signingHash)

end ProtocolTransaction

abbrev AnyTransaction := Transaction ⊕ ProtocolTransaction

namespace AnyTransaction

def chainID : AnyTransaction → UInt64
  | .inl tx => tx.base.chainID
  | .inr tx => tx.base.chainID

def nonce : AnyTransaction → UInt64
  | .inl tx => tx.base.nonce
  | .inr tx => tx.base.nonce

/-- The address whose nonce the transaction uses. -/
def signer (c : Crypto) : AnyTransaction → Address
  | .inl tx => c.getAddressFromUnSizedPK tx.base.pk
  | .inr tx => c.getDilithiumAddressFromUnSizedPK tx.pk

end AnyTransaction

end Zond
