import Zond.Core.Block
import Zond.Core.Vm

/-!
# Producing Blocks

The coinbase's fee reward is the proposer's own sum of the gas its transactions
offer, before any refund.

## Main definitions

* `newBlock`, `Block.signByProposer`: The proposer's side.
* `Block.attest`, `Block.addAttestTx`: An attestation, made and put into the block.
* `toyCrypto`: Small stand-ins for the libraries.

## Theorems

* `signByProposer_of_ok`, `addAttestTx_of_ok`: The block that comes out.
-/

namespace Zond

open Outcome

variable {b b' : Block} {tx : CoinBase} {rest : List ProtocolTransaction}

structure Dilithium where
  pk : List UInt8
  sign : Hash → List UInt8

def newStake (chainID amount gas gasPrice nonce : UInt64) (pk : List UInt8) : Stake :=
  { chainID := chainID, nonce := nonce, gas := gas, gasPrice := gasPrice, pk := pk
    signature := [], hash := zeroHash, amount := amount }

def newTransfer (chainID : UInt64) (recipient : List UInt8) (value gas gasPrice : UInt64)
    (data : List UInt8) (nonce : UInt64) (pk : List UInt8) : Transfer :=
  { chainID := chainID, nonce := nonce, gas := gas, gasPrice := gasPrice, pk := pk
    signature := [], hash := zeroHash, toBytes := recipient, value := value, data := data }

def newCoinBase (chainID : UInt64) (pk : List UInt8)
    (blockProposerReward attestorReward feeReward nonce : UInt64) : CoinBase :=
  { chainID := chainID, nonce := nonce, pk := pk, signature := [], hash := zeroHash
    blockProposerReward := blockProposerReward, attestorReward := attestorReward
    feeReward := feeReward }

def newAttest (chainID nonce : UInt64) : Attest :=
  { chainID := chainID, nonce := nonce, pk := [], signature := [], hash := zeroHash }

/-- The fee reward `NewBlock` puts in the coinbase. -/
def feeRewardOf (txs : List Transaction) : UInt64 :=
  txs.foldl (fun sum tx => sum + tx.base.gas * tx.base.gasPrice) 0

def newBlock (chainID timestamp : UInt64) (proposerDilithiumPK : List UInt8)
    (slotNumber : UInt64) (parentHeaderHash : Hash) (txs : List Transaction)
    (protocolTxs : List ProtocolTransaction) (signerNonce : UInt64) : Block :=
  let coinBase := newCoinBase chainID proposerDilithiumPK Config.blockReward
    Config.attestorReward (feeRewardOf txs) signerNonce
  { header :=
      { hash := zeroHash, slotNumber := slotNumber, timestampSeconds := timestamp
        parentHash := parentHeaderHash, baseFee := 0, gasLimit := Config.blockGasLimit
        gasUsed := 0, root := zeroHash, protocolTxBloom := Bytes.zeros 256
        txBloom := Bytes.zeros 256 }
    protocolTransactions := .coinBase coinBase :: protocolTxs
    transactions := txs }

section Signing

variable (c : Crypto) (d : Dilithium)

def Stake.signDilithium (tx : Stake) : Stake :=
  let signed := { tx with signature := d.sign (tx.getSigningHash c) }
  { signed with hash := signed.toTxBase.generateTxHash c (tx.getSigningHash c) }

def Transfer.signDilithium (tx : Transfer) : Transfer :=
  let signed := { tx with signature := d.sign (tx.getSigningHash c) }
  { signed with hash := signed.toTxBase.generateTxHash c (tx.getSigningHash c) }

/-- `ProtocolTransaction.Sign`. The key pair's own key replaces the one named. -/
def ProtocolTxBase.sign (tx : ProtocolTxBase) (message : Hash) : ProtocolTxBase :=
  let signed := { tx with signature := d.sign message, pk := d.pk }
  { signed with hash := signed.txHash c message }

def CoinBase.sign (tx : CoinBase) (message : Hash) : CoinBase :=
  { tx with toProtocolTxBase := tx.toProtocolTxBase.sign c d message }

def ProtocolTransaction.sign (message : Hash) : ProtocolTransaction → ProtocolTransaction
  | coinBase tx => .coinBase (tx.sign c d message)
  | attest tx => .attest { tx with toProtocolTxBase := tx.toProtocolTxBase.sign c d message }
  | unknown tx => .unknown (tx.sign c d message)

def Block.attest (chainID attestorNonce : UInt64) (b : Block) : Go Attest := do
  let attestTx := newAttest chainID attestorNonce
  let partialBlockSigningHash ← b.partialBlockSigningHash c
  let signingHash := attestTx.getSigningHash c partialBlockSigningHash
  pure { attestTx with toProtocolTxBase := attestTx.toProtocolTxBase.sign c d signingHash }

/-- The loop of `Block.AddAttestTx`, which stops at the first equal hash. -/
def listsTxHash (partialBlockSigningHash txHash : Hash) : List ProtocolTransaction → Go Bool
  | [] => .ok false
  | tx :: rest => do
      let h ← tx.txHash c partialBlockSigningHash
      if h = txHash then pure true else listsTxHash partialBlockSigningHash txHash rest

/-- `Block.AddAttestTx`: an attestation the block already has is not added again. -/
def Block.addAttestTx (b : Block) (attestTx : Attest) : Go Block := do
  let partialBlockSigningHash ← b.partialBlockSigningHash c
  let attestTxHash := attestTx.txHash c (attestTx.getSigningHash c partialBlockSigningHash)
  let listed ← listsTxHash c partialBlockSigningHash attestTxHash b.protocolTransactions.tail
  pure (if listed then b
    else { b with protocolTransactions := b.protocolTransactions ++ [.attest attestTx] })

def Block.signByProposer (b : Block) : Go Block := do
  let blockSigningHash ← b.blockSigningHash c
  let coinBaseTx ← b.firstProtocolTx
  let message ← coinBaseTx.getSigningHash c blockSigningHash
  let signed := { b with
    protocolTransactions := coinBaseTx.sign c d message :: b.protocolTransactions.tail }
  let blockHash ← signed.computeBlockHash c
  pure { signed with header := { signed.header with hash := blockHash } }

variable {c d}

theorem computeBlockHash_signByProposer (h : b.signByProposer c d = .ok b') :
    b'.computeBlockHash c = .ok b'.hash := by
  obtain ⟨signingHash, -, h⟩ := bind_eq_ok.1 h
  obtain ⟨coinBaseTx, -, h⟩ := bind_eq_ok.1 h
  obtain ⟨message, -, h⟩ := bind_eq_ok.1 h
  obtain ⟨blockHash, hhash, h⟩ := bind_eq_ok.1 h
  cases h
  exact hhash

theorem unsignedBytes_sign (hpk : tx.pk = d.pk) (message : Hash) :
    (tx.sign c d message).unsignedBytes = tx.unsignedBytes := by
  unfold CoinBase.unsignedBytes CoinBase.sign ProtocolTxBase.sign
  simp only [hpk]

theorem partialBlockHashableBytes_sign (hfirst : b.protocolTransactions = .coinBase tx :: rest)
    (hpk : tx.pk = d.pk) (message : Hash) :
    ({ b with protocolTransactions := .coinBase (tx.sign c d message) :: rest }
      : Block).partialBlockHashableBytes c = b.partialBlockHashableBytes c := by
  have hunsigned : (tx.sign c d message).getUnsignedHash c = tx.getUnsignedHash c :=
    congrArg c.sha256 (unsignedBytes_sign hpk message)
  rw [Block.partialBlockHashableBytes_of_coinBase rfl,
    Block.partialBlockHashableBytes_of_coinBase hfirst, hunsigned]
  rfl

theorem blockSigningHash_sign
    (hfirst : b.protocolTransactions = .coinBase tx :: rest) (hpk : tx.pk = d.pk) (message : Hash) :
    ({ b with protocolTransactions := .coinBase (tx.sign c d message) :: rest }
      : Block).blockSigningHash c = b.blockSigningHash c := by
  unfold Block.blockSigningHash
  rw [partialBlockHashableBytes_sign hfirst hpk, hfirst]
  rfl

theorem coinBase_of_partialBlockSigningHash {h : Hash} (hh : b.partialBlockSigningHash c = .ok h) :
    ∃ tx rest, b.protocolTransactions = .coinBase tx :: rest := by
  unfold Block.partialBlockSigningHash Block.partialBlockHashableBytes at hh
  rcases bind_eq_ok.1 hh with ⟨bytes, hbytes, -⟩
  rcases bind_eq_ok.1 hbytes with ⟨hashes, -, hbytes⟩
  rcases bind_eq_ok.1 hbytes with ⟨first, hfirst, hbytes⟩
  rcases bind_eq_ok.1 hbytes with ⟨unsigned, hunsigned, -⟩
  cases hpts : b.protocolTransactions with
  | nil =>
    unfold Block.firstProtocolTx at hfirst
    rw [hpts] at hfirst
    cases hfirst
  | cons tx rest =>
    rw [Block.firstProtocolTx_of_cons hpts, Except.ok.injEq] at hfirst
    subst hfirst
    cases tx with
    | coinBase tx => exact ⟨tx, rest, rfl⟩
    | attest | unknown => cases hunsigned

theorem signByProposer_of_ok (h : b.signByProposer c d = .ok b') :
    ∃ tx rest message hash, b.protocolTransactions = .coinBase tx :: rest ∧
      b' = { b with
        protocolTransactions := .coinBase (tx.sign c d message) :: rest
        header := { b.header with hash := hash } } := by
  unfold Block.signByProposer at h
  rcases bind_eq_ok.1 h with ⟨signingHash, hsigning, h⟩
  rcases bind_eq_ok.1 h with ⟨first, hfirst, h⟩
  rcases bind_eq_ok.1 h with ⟨message, hmessage, h⟩
  rcases bind_eq_ok.1 h with ⟨blockHash, -, h⟩
  unfold Block.blockSigningHash at hsigning
  rcases bind_eq_ok.1 hsigning with ⟨bytes, hbytes, -⟩
  have hpartial : b.partialBlockSigningHash c = .ok (c.sha256 bytes) := by
    unfold Block.partialBlockSigningHash
    rw [hbytes]
    rfl
  rcases coinBase_of_partialBlockSigningHash hpartial with ⟨tx, rest, hpts⟩
  rw [Block.firstProtocolTx_of_cons hpts] at hfirst
  cases hfirst
  cases h
  refine ⟨tx, rest, message, blockHash, hpts, ?_⟩
  rw [hpts]
  rfl

theorem partialBlockSigningHash_signByProposer {tx : ProtocolTransaction}
    (hfirst : b.protocolTransactions = tx :: rest)
    (hpk : tx.pk = d.pk) (h : b.signByProposer c d = .ok b') :
    b'.partialBlockSigningHash c = b.partialBlockSigningHash c := by
  rcases signByProposer_of_ok h with ⟨coinBase, rest', message, hash, hpts, rfl⟩
  rw [hfirst] at hpts
  cases hpts
  -- The hash of the header is not among the bytes.
  have hbytes := partialBlockHashableBytes_sign (c := c) (d := d) hfirst hpk message
  unfold Block.partialBlockSigningHash
  rw [← hbytes]
  rfl

theorem addAttestTx_of_ok {tx : Attest} (h : b.addAttestTx c tx = .ok b') :
    (∃ first rest, b.protocolTransactions = .coinBase first :: rest) ∧ (b' = b ∨
      b' = { b with protocolTransactions := b.protocolTransactions ++ [.attest tx] }) := by
  unfold Block.addAttestTx at h
  rcases bind_eq_ok.1 h with ⟨hash, hhash, h⟩
  rcases bind_eq_ok.1 h with ⟨listed, -, h⟩
  refine ⟨coinBase_of_partialBlockSigningHash hhash, ?_⟩
  rw [pure_eq_ok] at h
  cases listed with
  | true => exact .inl h.symm
  | false => exact .inr h.symm

theorem partialBlockSigningHash_addAttestTx {tx : Attest} (h : b.addAttestTx c tx = .ok b') :
    b'.partialBlockSigningHash c = b.partialBlockSigningHash c := by
  rcases addAttestTx_of_ok h with ⟨⟨first, rest, hpts⟩, rfl | rfl⟩
  · rfl
  · have hpts' : b.protocolTransactions ++ [.attest tx] =
        .coinBase first :: (rest ++ [.attest tx]) := by
      rw [hpts]
      rfl
    unfold Block.partialBlockSigningHash
    rw [Block.partialBlockHashableBytes_of_coinBase hpts,
      Block.partialBlockHashableBytes_of_coinBase hpts']
    rfl

/-- Signed with the key it names, the coinbase of a block carries its own hash. -/
theorem coinBase_hash_signByProposer (hfirst : b.protocolTransactions = .coinBase tx :: rest)
    (hpk : tx.pk = d.pk) (h : b.signByProposer c d = .ok b') :
    ∃ (tx' : CoinBase) (signingHash : Hash), b'.protocolTransactions = .coinBase tx' :: rest ∧
      b'.blockSigningHash c = .ok signingHash ∧
      tx'.hash = tx'.txHash c (tx'.getSigningHash c signingHash) := by
  unfold Block.signByProposer at h
  obtain ⟨signingHash, hsigning, h⟩ := bind_eq_ok.1 h
  rw [Block.firstProtocolTx_of_cons hfirst, hfirst, ok_bind] at h
  obtain ⟨message, hmessage, h⟩ := bind_eq_ok.1 h
  obtain ⟨blockHash, -, h⟩ := bind_eq_ok.1 h
  cases hmessage
  cases h
  have hsame : (tx.sign c d (tx.getSigningHash c signingHash)).getSigningHash c signingHash
      = tx.getSigningHash c signingHash := by
    unfold CoinBase.getSigningHash
    rw [unsignedBytes_sign hpk]
  refine ⟨tx.sign c d (tx.getSigningHash c signingHash), signingHash, rfl, ?_, ?_⟩
  · exact (blockSigningHash_sign hfirst hpk _).trans hsigning
  · rw [hsame]
    rfl

end Signing

def toyDigest (n : Nat) : Hash :=
  ⟨(List.range 32).map (fun i => UInt8.ofNat (n / 256 ^ i)), rfl⟩

/-- Small stand-ins for the libraries. The hash looks at bytes 8 to 55, which hold
    the fields in which the inputs it is used on differ; the address of a key is
    told by its first byte, and key 1 is the foundation's. -/
def toyCrypto : Crypto :=
  { sha256 := fun l => toyDigest
      (((l.drop 8).take 48).foldl (fun n b => (n * 257 + b.toNat + 1) % 2 ^ 256) 7)
    md5 := fun _ => Bytes.zeros 16
    keccak256 := fun _ => zeroHash
    getDilithiumAddressFromPK := fun pk =>
      if pk.val.headD 0 = 1 then Config.foundationDilithiumAddress
      else Bytes.alignLeft 20 [0x20, pk.val.headD 0]
    getXMSSAddressFromPK := fun _ => none
    isValidDilithiumAddress := fun addr => addr.val.headD 0 == 0x20
    isValidXMSSAddress := fun _ => false
    dilithiumVerify := fun _ _ _ => some true
    xmssVerify := fun _ _ _ => none }

def toyKey (n : UInt8) : Dilithium :=
  { pk := n :: List.replicate 1471 0, sign := fun _ => [] }

def toyAddress (n : UInt8) : Address := Bytes.alignLeft 20 [0x20, n]

def toyContract : Address := Bytes.alignLeft 20 [0x30]

def toyAccount : Option Account → Nat
  | none => 0
  | some a => ((a.nonce.toNat * 2 ^ 64 + a.balance.toNat) * 2 ^ 64 + a.stakeBalance.toNat) * 2 ^ 64
      + a.pendingStakeBalance.toNat + 1

/-- Stand-ins for the rest of what execution leans on: contracts do nothing, the
    trie root covers the reserve and the first two keys, nothing is shuffled. -/
def toyExternals : Externals :=
  { toyCrypto with
    interpreterRun := fun _ _ s contract _ =>
      { state := s, gas := contract.gas, ret := [], err := none }
    precompileRequiredGas := fun _ _ => 0
    precompileRun := fun _ _ => .ok []
    createAddress := fun _ _ => toyContract
    stateRoot := fun accounts => toyDigest
      ([zeroAddress, Config.foundationDilithiumAddress, toyAddress 2].foldl
        (fun n addr => n * 1000003 + toyAccount (accounts addr)) 5)
    shuffle := fun _ _ => Equiv.refl _ }

end Zond
