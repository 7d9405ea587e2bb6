import Zond.Core.Server
import Zond.Theory.Allotment
import Zond.Theory.FlowControl
import Zond.Theory.Genesis
import Zond.Theory.Step
import Zond.Theory.Totality

/-!
# Messages from a Hostile Peer

Which messages stop the node that gets them. `handle` reads the payload that the function
name calls for without looking whether it is there, and blocks and transactions are hashed
before they are checked. What it hands to the server is read there in the same way.

Adding a block and validating a transaction are taken to return. What is said here is which
messages reach them, and that every other one that lacks nothing is handled.

## Main definitions

* `Peer.Vetted`: Validation returns on what the message carries.
* `Peer.Carries`: The message carries what its function name calls for.
* `Peer.Passable`: What it makes the server read is there.

## Theorems

* `peer_message_returns_iff`: `handle` returns exactly on messages that carry their payload,
  and the server goes on exactly with those that are passable.
* `peer_message_crashes`: Four messages that stop the node.
-/

namespace Zond

open Outcome

def Transaction.Known : Transaction → Prop
  | unknown _ => False
  | _ => True

def ProtocolTransaction.Known : ProtocolTransaction → Prop
  | unknown _ => False
  | _ => True

theorem Transaction.returns_hash_iff {tx : Transaction} : Returns tx.hash ↔ tx.Known := by
  cases tx with
  | transfer | stake => exact ⟨fun _ => trivial, fun _ => returns_ok _⟩
  | unknown base => exact ⟨fun h => not_returns_error _ h, fun h => h.elim⟩

theorem ProtocolTransaction.returns_txHash_iff {c : Crypto} {h : Hash} {tx : ProtocolTransaction} :
    Returns (tx.txHash c h) ↔ tx.Known := by
  cases tx with
  | coinBase | attest => exact ⟨fun _ => trivial, fun _ => ⟨_, rfl⟩⟩
  | unknown base => exact ⟨fun h => not_returns_error _ h, fun h => h.elim⟩

namespace Block

variable {c : Crypto} {b : Block}

/-- What attestors sign can be computed: every user transaction has a kind, and a coinbase
    comes first. -/
def PartlyHashable (b : Block) : Prop :=
  (∀ tx ∈ b.transactions, tx.Known) ∧ ∃ tx rest, b.protocolTransactions = .coinBase tx :: rest

/-- The hash of the block can be computed: the other protocol transactions have a kind as
    well. -/
def Hashable (b : Block) : Prop :=
  b.PartlyHashable ∧ ∀ tx ∈ b.protocolTransactions.tail, tx.Known

theorem returns_partialBlockHashableBytes_iff :
    Returns (b.partialBlockHashableBytes c) ↔ b.PartlyHashable := by
  have hkinds : Returns (b.transactions.mapM Transaction.hash) ↔
      ∀ tx ∈ b.transactions, tx.Known := by
    rw [returns_mapM_iff]
    exact forall₂_congr fun tx _ => Transaction.returns_hash_iff
  unfold partialBlockHashableBytes PartlyHashable
  rw [returns_bind_iff, ← hkinds]
  constructor
  · rintro ⟨hashes, hhashes, h⟩
    refine ⟨⟨hashes, hhashes⟩, ?_⟩
    rcases returns_bind_iff.1 h with ⟨first, hfirst, h⟩
    rcases returns_bind_iff.1 h with ⟨hash, hhash, -⟩
    unfold firstProtocolTx at hfirst
    split at hfirst
    · cases hfirst
    · rename_i rest hlist
      cases hfirst
      cases first with
      | coinBase tx => exact ⟨tx, rest, hlist⟩
      | attest | unknown => cases hhash
  · rintro ⟨⟨hashes, hhashes⟩, tx, rest, hlist⟩
    refine ⟨hashes, hhashes, ?_⟩
    rw [firstProtocolTx_of_cons hlist]
    exact ⟨_, rfl⟩

theorem returns_partialBlockSigningHash_iff :
    Returns (b.partialBlockSigningHash c) ↔ b.PartlyHashable := by
  unfold partialBlockSigningHash
  rw [returns_bind_iff, ← returns_partialBlockHashableBytes_iff (c := c)]
  exact ⟨fun ⟨bytes, hbytes, _⟩ => ⟨bytes, hbytes⟩,
    fun ⟨bytes, hbytes⟩ => ⟨bytes, hbytes, returns_pure _⟩⟩

theorem returns_blockSigningHash_iff : Returns (b.blockSigningHash c) ↔ b.Hashable := by
  unfold blockSigningHash Hashable
  rw [returns_bind_iff, ← returns_partialBlockHashableBytes_iff (c := c)]
  have hrest : ∀ bytes : List UInt8, Returns (b.protocolTransactions.tail.mapM (fun tx =>
      tx.txHash c (c.sha256 bytes))) ↔ ∀ tx ∈ b.protocolTransactions.tail, tx.Known := by
    intro bytes
    rw [returns_mapM_iff]
    exact forall₂_congr fun tx _ => ProtocolTransaction.returns_txHash_iff
  constructor
  · rintro ⟨bytes, hbytes, h⟩
    rcases returns_bind_iff.1 h with ⟨hashes, hhashes, -⟩
    exact ⟨⟨bytes, hbytes⟩, (hrest bytes).1 ⟨hashes, hhashes⟩⟩
  · rintro ⟨⟨bytes, hbytes⟩, hknown⟩
    rcases (hrest bytes).2 hknown with ⟨hashes, hhashes⟩
    exact ⟨bytes, hbytes, returns_bind_iff.2 ⟨hashes, hhashes, returns_pure _⟩⟩

theorem returns_computeBlockHash_iff : Returns (b.computeBlockHash c) ↔ b.Hashable := by
  unfold computeBlockHash
  rw [returns_bind_iff, ← returns_blockSigningHash_iff (c := c)]
  constructor
  · rintro ⟨hash, hhash, -⟩
    exact ⟨hash, hhash⟩
  · rintro ⟨hash, hhash⟩
    rcases (returns_blockSigningHash_iff.1 ⟨hash, hhash⟩).1.2 with ⟨tx, rest, hlist⟩
    refine ⟨hash, hhash, ?_⟩
    rw [firstProtocolTx_of_cons hlist]
    exact ⟨_, rfl⟩

end Block

namespace Chain

theorem returns_rejectOnError_iff {α : Type} {x : Go α} :
    Returns (rejectOnError x) ↔ FailsOnly Failure.Returned x := by
  rcases x with (e | f | _) | a
  · exact ⟨fun _ => failsOnly_error_iff.2 ⟨e, rfl⟩, fun _ => returns_ok _⟩
  · refine ⟨fun h => absurd h (not_returns_error _), fun h => ?_⟩
    rcases failsOnly_error_iff.1 h with ⟨e, he⟩
    cases he
  · refine ⟨fun h => absurd h (not_returns_error _), fun h => ?_⟩
    rcases failsOnly_error_iff.1 h with ⟨e, he⟩
    cases he
  · exact ⟨fun _ => failsOnly_ok a, fun _ => returns_ok _⟩

end Chain

theorem LegacyMessage.deref_eq_ok {α : Type} {o : Option α} {a : α} :
    LegacyMessage.deref o = .ok a ↔ o = some a := orFail_eq_ok

theorem LegacyMessage.returns_deref_bind_iff {α β : Type} {o : Option α} {f : α → Go β} :
    Returns (LegacyMessage.deref o >>= f) ↔ ∃ a, o = some a ∧ Returns (f a) := by
  rw [returns_bind_iff]
  simp only [LegacyMessage.deref_eq_ok]

/-- A handler that needs nothing but its payload. -/
theorem LegacyMessage.returns_deref_bind {α β : Type} {o : Option α} {f : α → Go β}
    (h : ∀ a, Returns (f a)) : Returns (LegacyMessage.deref o >>= f) ↔ ∃ a, o = some a := by
  rw [returns_deref_bind_iff]
  exact exists_congr fun a => and_iff_left (h a)

/-- The record of an epoch has an entry for the slot, and everybody whom the entry names. -/
def EpochMetaData.Covers (e : EpochMetaData) (slotNumber : UInt64) : Prop :=
  ∃ info, e.slotInfo[slotIndex slotNumber]? = some (some info) ∧
    ∀ i ∈ info.slotLeader :: info.attestors, i < e.validators.length

theorem EpochMetaData.returns_validatorAt_iff {e : EpochMetaData} {i : Nat} :
    Returns (e.validatorAt i) ↔ i < e.validators.length := by
  have hsome : (∃ pk, e.validators[i]? = some pk) ↔ i < e.validators.length := by
    rw [← Option.isSome_iff_exists, isSome_getElem?]
  rw [← hsome]
  exact exists_congr fun pk => EpochMetaData.validatorAt_eq_ok

theorem SlotValidatorsMetaData.returns_new_iff {e : EpochMetaData} {slotNumber : UInt64} :
    Returns (SlotValidatorsMetaData.new slotNumber e) ↔ e.Covers slotNumber := by
  unfold SlotValidatorsMetaData.new EpochMetaData.Covers
  rw [returns_bind_iff]
  refine exists_congr fun info => and_congr EpochMetaData.slotInfoAt_eq_ok ?_
  have hattestors : Returns (info.attestors.mapM e.validatorAt) ↔
      ∀ i ∈ info.attestors, i < e.validators.length := by
    rw [returns_mapM_iff]
    exact forall₂_congr fun i _ => EpochMetaData.returns_validatorAt_iff
  rw [List.forall_mem_cons, ← EpochMetaData.returns_validatorAt_iff, ← hattestors, returns_bind_iff]
  constructor
  · rintro ⟨pk, hpk, h⟩
    rcases returns_bind_iff.1 h with ⟨pks, hpks, -⟩
    exact ⟨⟨pk, hpk⟩, pks, hpks⟩
  · rintro ⟨⟨pk, hpk⟩, pks, hpks⟩
    exact ⟨pk, hpk, returns_bind_iff.2 ⟨pks, hpks, returns_pure _⟩⟩

/-- Nothing but a panic keeps the validators of a slot from being read off the record. -/
theorem SlotValidatorsMetaData.failsOnly_new_iff {e : EpochMetaData} {slotNumber : UInt64} :
    FailsOnly Failure.Returned (SlotValidatorsMetaData.new slotNumber e) ↔
      e.Covers slotNumber := by
  rw [← returns_new_iff]
  refine ⟨fun h => ?_, fun ⟨v, hv⟩ => hv ▸ failsOnly_ok v⟩
  have hpanics : FailsOnly (fun f => ¬Failure.Returned f)
      (SlotValidatorsMetaData.new slotNumber e) := by
    have hat : ∀ i, FailsOnly (fun f => ¬Failure.Returned f) (e.validatorAt i) := fun i =>
      failsOnly_orFail (fun ⟨_, he⟩ => nomatch he) _
    have hinfo : FailsOnly (fun f => ¬Failure.Returned f) (e.slotInfoAt slotNumber) := by
      unfold EpochMetaData.slotInfoAt
      split
      · exact failsOnly_error_iff.2 fun ⟨_, he⟩ => nomatch he
      · exact failsOnly_error_iff.2 fun ⟨_, he⟩ => nomatch he
      · exact failsOnly_ok _
    exact hinfo.bind fun info _ => (hat _).bind fun _ _ =>
      (failsOnly_mapM info.attestors hat).bind fun _ _ => failsOnly_pure _
  cases hnew : SlotValidatorsMetaData.new slotNumber e with
  | ok v => exact returns_ok v
  | error f => exact absurd (h f hnew) (hpanics f hnew)

namespace Chain

variable (ext : Externals) (c : Chain) (trieRoot : Hash) (slotNumber : UInt64) (parentHash : Hash)

/-- The validators of a slot can be looked up, or an error says why not: the record of the
    slot's epoch is found or made without a panic, and covers the slot. -/
def ListsValidators : Prop :=
  ∀ s, openState c.tries trieRoot = .ok s →
    FailsOnly Failure.Returned (calculateEpochMetaData ext c.db s slotNumber parentHash) ∧
    ∀ s' e, calculateEpochMetaData ext c.db s slotNumber parentHash = .ok (s', e) →
      e.Covers slotNumber

theorem failsOnly_getSlotValidators_iff : FailsOnly Failure.Returned
        (c.getSlotValidatorsMetaDataBySlotNumber ext trieRoot slotNumber parentHash) ↔
      c.ListsValidators ext trieRoot slotNumber parentHash := by
  unfold getSlotValidatorsMetaDataBySlotNumber ListsValidators
  rw [failsOnly_bind_iff]
  refine ⟨fun h s hs => ?_, fun h => ⟨?_, fun s hs => ?_⟩⟩
  · rcases failsOnly_bind_iff.1 (h.2 s hs) with ⟨hcalc, hnew⟩
    exact ⟨hcalc, fun s' e he => SlotValidatorsMetaData.failsOnly_new_iff.1 (hnew _ he)⟩
  · unfold openState
    split
    · exact failsOnly_ok _
    · exact (failsOnly_orFail ⟨_, rfl⟩ _).bind fun _ _ => failsOnly_pure _
  · exact (h s hs).1.bind fun r hr => SlotValidatorsMetaData.failsOnly_new_iff.2 ((h s hs).2 _ _ hr)

end Chain

namespace Peer

section Conditions

variable (ext : Externals) (time : UInt64) (p : Peer) (node : PeerNode) (m : LegacyMessage)

/-- Adding the block of the message returns once its hash is right, and so do validating
    its transaction, pooling it, and validating its attestation, on any state. -/
structure Vetted : Prop where
  block : ∀ pbBlock b, m.getBlock = some pbBlock → pbBlock.toBlock = .ok b →
    b.computeBlockHash ext.toCrypto = .ok b.hash → Returns (node.chain.addBlock ext time b)
  transaction : ∀ tx, m.getTtData = some tx ∨ m.getStData = some tx →
    FailsOnly Failure.Returned (node.chain.validateTransaction ext tx)
  pool : ∀ tx txHash, m.getTtData = some tx ∨ m.getStData = some tx →
    FailsOnly Failure.Returned (node.txPool.add ext.toCrypto tx txHash
      node.chain.lastBlock.slotNumber time time)
  attestation : ∀ data attestTx, m.getAtData = some data → data.tx = some (.attest attestTx) →
    ∀ s validators parentSlotNumber, FailsOnly Failure.Returned
      (validateAttestTx ext.toCrypto attestTx s validators
        (Bytes.alignLeft 32 data.partialBlockSigningHash) data.slotNumber parentSlotNumber)

/-- What comes as an attestation was asked for, and its parent is known. -/
def AttestAsked (data : ProtocolTransactionData) (tx : ProtocolTransaction)
    (parent : BlockMetaData) : Prop :=
  (∃ txHash, tx.txHash ext.toCrypto (Bytes.alignLeft 32 data.partialBlockSigningHash) = .ok txHash ∧
    node.mr.IsRequested txHash p.id) ∧
  node.chain.db.blockMetaData.get (Bytes.alignLeft 32 data.parentHeaderHash) = some parent

/-- It comes as far as its validation: the validators of its slot are found as well, and the
    state of the head. -/
def AttestReached (data : ProtocolTransactionData) (tx : ProtocolTransaction) : Prop :=
  ∃ parent validators s, AttestAsked ext p node data tx parent ∧
    node.chain.getSlotValidatorsMetaDataBySlotNumber ext parent.trieRoot data.slotNumber
      (Bytes.alignLeft 32 data.parentHeaderHash) = .ok validators ∧
    node.chain.accountDB = .ok s

/-- The message carries what its function name calls for. A list of peers is only read
    once. Blocks have a header and can be hashed. Transactions have a kind. What comes as an
    attestation is for a slot whose validators can be looked up, and it is one, or is given
    up on before anybody looks. -/
def Carries : Prop :=
  match m.funcName with
  | .pl => p.isPLShared = true ∨ ∃ data, m.getPlData = some data
  | .sfm => ∃ data, m.getMrData = some data
  | .ba => ∃ ba pbBlock b, m.getBlockForAttestation = some ba ∧ ba.block = some pbBlock ∧
      pbBlock.toBlock = .ok b ∧ b.PartlyHashable
  | .bk => ∃ pbBlock b, m.getBlock = some pbBlock ∧ pbBlock.toBlock = .ok b ∧ b.Hashable
  | .ebhReq => ∃ data, m.getEpochBlockHashesRequest = some data
  | .fb => ∃ hash, m.getFbData = some hash
  | .pb => ∃ block, m.getPbData = some block
  | .tt => ∃ tx, m.getTtData = some tx ∧ tx.Known
  | .st => ∃ tx, m.getStData = some tx ∧ tx.Known
  | .attest => ∃ data tx, m.getAtData = some data ∧ data.tx = some tx ∧ tx.Known ∧
      (∀ parent, AttestAsked ext p node data tx parent → node.chain.ListsValidators ext
        parent.trieRoot data.slotNumber (Bytes.alignLeft 32 data.parentHeaderHash)) ∧
      ((∃ attestTx, tx = .attest attestTx) ∨ ¬AttestReached ext p node data tx)
  | .chainState => ∃ data, m.getChainStateData = some data
  | .p2pAck => ∃ bytesProcessed, m.getP2PAckData = some bytesProcessed
  | _ => True

end Conditions

section Branches

variable {ext : Externals} {time : UInt64} {marshalSize : LegacyMessage → Nat} {p : Peer}
  {node : PeerNode} {m : LegacyMessage}

theorem returns_handlePeerList_iff :
    Returns (p.handlePeerList node m) ↔ p.isPLShared = true ∨ ∃ data, m.getPlData = some data := by
  unfold handlePeerList
  split
  · rename_i hshared
    exact ⟨fun _ => .inl hshared, fun _ => returns_ok _⟩
  · rename_i hshared
    rw [LegacyMessage.returns_deref_bind_iff]
    constructor
    · rintro ⟨data, hdata, -⟩
      exact .inr ⟨data, hdata⟩
    · rintro (h | ⟨data, hdata⟩)
      · exact absurd h hshared
      · exact ⟨data, hdata, returns_pure _⟩

theorem returns_handleBlockForAttestation_iff : Returns (p.handleBlockForAttestation ext node m) ↔
      ∃ ba pbBlock b, m.getBlockForAttestation = some ba ∧ ba.block = some pbBlock ∧
        pbBlock.toBlock = .ok b ∧ b.PartlyHashable := by
  unfold handleBlockForAttestation
  rw [LegacyMessage.returns_deref_bind_iff]
  constructor
  · rintro ⟨ba, hba, h⟩
    rcases LegacyMessage.returns_deref_bind_iff.1 h with ⟨pbBlock, hblock, h⟩
    rcases returns_bind_iff.1 h with ⟨b, hb, h⟩
    rcases returns_bind_iff.1 h with ⟨hash, hhash, -⟩
    exact ⟨ba, pbBlock, b, hba, hblock, hb, Block.returns_partialBlockSigningHash_iff.1 ⟨hash, hhash⟩⟩
  · rintro ⟨ba, pbBlock, b, hba, hblock, hb, hhashable⟩
    rcases Block.returns_partialBlockSigningHash_iff.2 hhashable with ⟨hash, hhash⟩
    refine ⟨ba, hba, LegacyMessage.returns_deref_bind_iff.2 ⟨pbBlock, hblock, ?_⟩⟩
    refine returns_bind_iff.2 ⟨b, hb, returns_bind_iff.2 ⟨hash, hhash, ?_⟩⟩
    split <;> exact returns_pure _

theorem returns_handleBlock_iff (hvetted : Vetted ext time node m) :
    Returns (p.handleBlock ext time node m) ↔
      ∃ pbBlock b, m.getBlock = some pbBlock ∧ pbBlock.toBlock = .ok b ∧ b.Hashable := by
  unfold handleBlock
  rw [LegacyMessage.returns_deref_bind_iff]
  constructor
  · rintro ⟨pbBlock, hblock, h⟩
    rcases returns_bind_iff.1 h with ⟨b, hb, h⟩
    rcases returns_bind_iff.1 h with ⟨hash, hhash, -⟩
    exact ⟨pbBlock, b, hblock, hb, Block.returns_computeBlockHash_iff.1 ⟨hash, hhash⟩⟩
  · rintro ⟨pbBlock, b, hblock, hb, hhashable⟩
    rcases Block.returns_computeBlockHash_iff.2 hhashable with ⟨hash, hhash⟩
    refine ⟨pbBlock, hblock, returns_bind_iff.2 ⟨b, hb, returns_bind_iff.2 ⟨hash, hhash, ?_⟩⟩⟩
    split
    · exact returns_pure _
    · rename_i hsame
      rw [not_not] at hsame
      split
      · rcases hvetted.block pbBlock b hblock hb (hsame ▸ hhash) with ⟨⟨added, chain⟩, hadd⟩
        refine returns_bind_iff.2 ⟨_, hadd, ?_⟩
        dsimp only
        split <;> exact returns_pure _
      · exact returns_pure _

theorem returns_handleTransaction_iff (hvetted : Vetted ext time node m)
    {txData : Option Transaction} (hdata : ∀ tx, txData = some tx →
      m.getTtData = some tx ∨ m.getStData = some tx) :
    Returns (p.handleTransaction ext time node m txData) ↔ ∃ tx, txData = some tx ∧ tx.Known := by
  unfold handleTransaction
  rw [LegacyMessage.returns_deref_bind_iff]
  refine exists_congr fun tx => and_congr_right fun htx => ?_
  rw [returns_bind_iff, ← Transaction.returns_hash_iff]
  refine ⟨fun ⟨txHash, hhash, _⟩ => ⟨txHash, hhash⟩, fun ⟨txHash, hhash⟩ => ⟨txHash, hhash, ?_⟩⟩
  split
  · rcases Chain.returns_rejectOnError_iff.2 (hvetted.transaction tx (hdata tx htx)) with
      ⟨valid, hvalid⟩
    refine returns_bind_iff.2 ⟨valid, hvalid, ?_⟩
    split
    · exact returns_pure _
    · rcases Chain.returns_rejectOnError_iff.2 (hvetted.pool tx txHash (hdata tx htx)) with
        ⟨pool, hpool⟩
      refine returns_bind_iff.2 ⟨pool, hpool, ?_⟩
      split <;> exact returns_pure _
  · exact returns_pure _

theorem failsOnly_accountDB (c : Chain) : FailsOnly Failure.Returned c.accountDB := by
  unfold Chain.accountDB Store.getBlockMetaData Chain.openState
  refine (failsOnly_orFail ⟨_, rfl⟩ _).bind fun bm _ => ?_
  split
  · exact failsOnly_ok _
  · exact (failsOnly_orFail ⟨_, rfl⟩ _).bind fun _ _ => failsOnly_pure _

theorem failsOnly_validateAttestPBData_iff {c : Chain} {tx : ProtocolTransaction}
    {validators : SlotValidatorsMetaData} {partialHash : Hash} {slot parentSlot : UInt64}
    (hvalid : ∀ attestTx, tx = .attest attestTx → ∀ s, FailsOnly Failure.Returned
      (validateAttestTx ext.toCrypto attestTx s validators partialHash slot parentSlot)) :
    FailsOnly Failure.Returned
        (validateAttestPBData ext c tx validators partialHash slot parentSlot) ↔
      (∃ attestTx, tx = .attest attestTx) ∨ ∀ s, c.accountDB ≠ .ok s := by
  unfold validateAttestPBData
  rw [failsOnly_bind_iff]
  constructor
  · rintro ⟨-, h⟩
    by_contra hnone
    rw [not_or, not_forall] at hnone
    rcases hnone with ⟨hkind, s, hs⟩
    have hpanic := h s (not_not.1 hs)
    cases tx with
    | attest attestTx => exact hkind ⟨attestTx, rfl⟩
    | coinBase _ =>
      rcases hpanic _ rfl with ⟨e, he⟩
      cases he
    | unknown _ =>
      rcases hpanic _ rfl with ⟨e, he⟩
      cases he
  · rintro (⟨attestTx, rfl⟩ | hnone)
    · refine ⟨failsOnly_accountDB c, fun s _ => ?_⟩
      exact (hvalid attestTx rfl s).bind fun _ _ => failsOnly_pure _
    · exact ⟨failsOnly_accountDB c, fun s hs => absurd hs (hnone s)⟩

theorem returns_handleAttestTransaction_iff (hvetted : Vetted ext time node m) :
    Returns (p.handleAttestTransaction ext node m) ↔
      ∃ data tx, m.getAtData = some data ∧ data.tx = some tx ∧ tx.Known ∧
        (∀ parent, AttestAsked ext p node data tx parent → node.chain.ListsValidators ext
          parent.trieRoot data.slotNumber (Bytes.alignLeft 32 data.parentHeaderHash)) ∧
        ((∃ attestTx, tx = .attest attestTx) ∨ ¬AttestReached ext p node data tx) := by
  have hvalid : ∀ data tx, m.getAtData = some data → data.tx = some tx → ∀ attestTx,
      tx = .attest attestTx → ∀ s validators parentSlot, FailsOnly Failure.Returned
        (validateAttestTx ext.toCrypto attestTx s validators
          (Bytes.alignLeft 32 data.partialBlockSigningHash) data.slotNumber parentSlot) :=
    fun data tx hdata htx attestTx heq => hvetted.attestation data attestTx hdata (heq ▸ htx)
  unfold handleAttestTransaction
  rw [LegacyMessage.returns_deref_bind_iff]
  constructor
  · rintro ⟨data, hdata, h⟩
    rcases LegacyMessage.returns_deref_bind_iff.1 h with ⟨tx, htx, h⟩
    rcases returns_bind_iff.1 h with ⟨txHash, hhash, h⟩
    -- What was asked for is followed to the lookup of the validators.
    have hasked : ∀ parent, AttestAsked ext p node data tx parent → ∃ found,
        Chain.rejectOnError (node.chain.getSlotValidatorsMetaDataBySlotNumber ext parent.trieRoot
          data.slotNumber (Bytes.alignLeft 32 data.parentHeaderHash)) = .ok found ∧
        ∀ validators, found = some validators → Returns (Chain.rejectOnError
          (validateAttestPBData ext node.chain tx validators
            (Bytes.alignLeft 32 data.partialBlockSigningHash) data.slotNumber
            parent.slotNumber)) := by
      rintro parent ⟨⟨txHash', hhash', hrequested⟩, hparent⟩
      cases hhash.symm.trans hhash'
      rw [if_pos hrequested] at h
      dsimp only at h
      rw [hparent] at h
      rcases returns_bind_iff.1 h with ⟨found, hfound, h⟩
      refine ⟨found, hfound, ?_⟩
      rintro validators rfl
      rcases returns_bind_iff.1 h with ⟨valid, hvalidated, -⟩
      exact ⟨valid, hvalidated⟩
    refine ⟨data, tx, hdata, htx, ProtocolTransaction.returns_txHash_iff.1 ⟨txHash, hhash⟩,
      fun parent hparent => ?_, ?_⟩
    · rcases hasked parent hparent with ⟨found, hfound, -⟩
      rw [← Chain.failsOnly_getSlotValidators_iff]
      exact Chain.returns_rejectOnError_iff.1 ⟨found, hfound⟩
    · by_contra hbad
      rw [not_or, not_not] at hbad
      rcases hbad with ⟨hkind, parent, validators, s, hparent, hvalidators, hs⟩
      rcases hasked parent hparent with ⟨found, hfound, hreached⟩
      rw [hvalidators] at hfound
      cases hfound
      have hreturned := Chain.returns_rejectOnError_iff.1 (hreached _ rfl)
      rcases (failsOnly_validateAttestPBData_iff fun attestTx heq s =>
        hvalid data tx hdata htx attestTx heq s _ _).1 hreturned with hattest | hnone
      · exact hkind hattest
      · exact hnone s hs
  · rintro ⟨data, tx, hdata, htx, hknown, hlisted, hcase⟩
    rcases ProtocolTransaction.returns_txHash_iff.2 hknown with ⟨txHash, hhash⟩
    refine ⟨data, hdata, LegacyMessage.returns_deref_bind_iff.2 ⟨tx, htx, ?_⟩⟩
    refine returns_bind_iff.2 ⟨txHash, hhash, ?_⟩
    split
    · rename_i hrequested
      dsimp only
      split
      · exact returns_pure _
      · rename_i parent hparent
        have hasked : AttestAsked ext p node data tx parent :=
          ⟨⟨txHash, hhash, hrequested⟩, hparent⟩
        rcases Chain.returns_rejectOnError_iff.2 (Chain.failsOnly_getSlotValidators_iff _ _ _ _ _
          |>.2 (hlisted parent hasked)) with ⟨found, hfound⟩
        refine returns_bind_iff.2 ⟨found, hfound, ?_⟩
        split
        · exact returns_pure _
        · rename_i validators
          have hvalidation : FailsOnly Failure.Returned (validateAttestPBData ext node.chain tx
              validators (Bytes.alignLeft 32 data.partialBlockSigningHash) data.slotNumber
              parent.slotNumber) := by
            rw [failsOnly_validateAttestPBData_iff fun attestTx heq s =>
              hvalid data tx hdata htx attestTx heq s _ _]
            refine hcase.imp_right fun hnot s hs => hnot ?_
            exact ⟨parent, validators, s, hasked, Chain.rejectOnError_eq_some.1 hfound, hs⟩
          rcases Chain.returns_rejectOnError_iff.2 hvalidation with ⟨valid, hvalid⟩
          refine returns_bind_iff.2 ⟨valid, hvalid, ?_⟩
          split <;> exact returns_pure _
    · exact returns_pure _

theorem returns_handle_iff (hvetted : Vetted ext time node m) :
    Returns (handle ext time marshalSize p node m) ↔ Carries ext p node m := by
  unfold handle Carries
  cases m.funcName with
  | pl => exact returns_handlePeerList_iff
  | sfm => exact LegacyMessage.returns_deref_bind fun _ => by split <;> exact returns_pure _
  | ba => exact returns_handleBlockForAttestation_iff
  | bk => exact returns_handleBlock_iff hvetted
  | ebhReq | fb | pb =>
      exact LegacyMessage.returns_deref_bind fun _ => by split <;> exact returns_pure _
  | tt => exact returns_handleTransaction_iff hvetted fun tx htx => .inl htx
  | st => exact returns_handleTransaction_iff hvetted fun tx htx => .inr htx
  | attest => exact returns_handleAttestTransaction_iff hvetted
  | chainState | p2pAck => exact LegacyMessage.returns_deref_bind fun _ => returns_pure _
  | ve | pong | mr | sync | ebhResp | unnamed => exact ⟨fun _ => trivial, fun _ => returns_ok _⟩

end Branches

end Peer

namespace MessageReceipt

variable (mr : MessageReceipt)

/-- There is an oldest entry to make room by whenever the slice is as long as the limit. -/
theorem returns_makeRoom {ν : Type} {c : KeyCache ν} {count : Nat}
    (h : Config.messageQSize ≤ count → c.order ≠ []) : Returns (c.makeRoom count) := by
  unfold KeyCache.makeRoom KeyCache.dropOldest
  split
  · rename_i hfull
    split
    · rename_i hnil
      exact absurd hnil (h hfull)
    · exact returns_ok _
  · exact returns_ok _

theorem returns_addPeer (mrData : MRData) (peer : PeerId) : Returns (mr.addPeer mrData peer) := by
  unfold addPeer
  split
  · have hroom : Returns (mr.requestedHash.makeRoom mr.requestedHash.order.length) := by
      refine returns_makeRoom fun hfull hnil => ?_
      rw [hnil] at hfull
      exact absurd hfull (by decide)
    rcases hroom with ⟨c, hc⟩
    have hadd : Returns (mr.requestedHash.addPeer (hexKey mrData.hash) peer) := by
      refine returns_bind_iff.2 ⟨c, hc, ?_⟩
      split <;> exact returns_pure _
    rcases hadd with ⟨c', hc'⟩
    exact returns_bind_iff.2 ⟨c', hc', returns_pure _⟩
  · exact returns_ok _

theorem returns_register (h : Hash) (m : LegacyMessage) : Returns (mr.register h m) := by
  have hroom : Returns (mr.hashMsg.makeRoom mr.hashMsg.mapping.len) := by
    refine returns_makeRoom fun hfull hnil => ?_
    have hlisted := mr.listed
    rw [hnil, List.length_nil] at hlisted
    exact absurd hlisted (Nat.not_lt_zero _)
  unfold register
  split
  · split
    · rename_i e hc
      rcases hroom with ⟨c, hc'⟩
      rw [KeyCache.register, hc'] at hc
      cases hc
    · exact returns_ok _
  · exact returns_ok _

end MessageReceipt

namespace Server

/-- What the server can go on with: addresses of seven parts, an announcement that is
    there, blocks with a header. -/
def Servable : HandedOver → Prop
  | .addPeerToPeerList multiAddr plData =>
    (newPeerInfo multiAddr 0).isSome ∧ ∀ addr ∈ plData.peerIps, (newPeerInfo addr 0).isSome
  | .mrDataConn mrData => mrData.isSome
  | .blockAndPeer b => Returns b.toBlock
  | .registerAndBroadcast _ msg => (∀ b, msg.getBlock = some b → Returns b.toBlock) ∧
      ∀ ba, msg.getBlock = none → msg.getBlockForAttestation = some ba →
        ∃ b, ba.block = some b ∧ Returns b.toBlock
  | .blockReceivedForAttestation _ => True
  | .attestationReceivedForBlock _ => True

variable {time : UInt64} {peer : PeerId}
variable {srv : Server}

theorem returns_derefPeerInfo_iff {addr : List Char} {timestamp : UInt64} :
    Returns (PeerData.derefPeerInfo addr timestamp) ↔ (newPeerInfo addr 0).isSome := by
  unfold PeerData.derefPeerInfo newPeerInfo
  split
  · exact ⟨fun _ => rfl, fun _ => returns_ok _⟩
  · exact ⟨fun h => absurd h (not_returns_error _), fun h => nomatch h⟩

theorem returns_addDisconnectedPeers_iff {d : PeerData} {addr : List Char} :
    Returns (d.addDisconnectedPeers addr time) ↔ (newPeerInfo addr 0).isSome := by
  unfold PeerData.addDisconnectedPeers
  rw [returns_bind_iff, ← @returns_derefPeerInfo_iff addr time]
  exact ⟨fun ⟨info, hinfo, _⟩ => ⟨info, hinfo⟩, fun ⟨info, hinfo⟩ => ⟨info, hinfo, returns_pure _⟩⟩

theorem returns_addPeers_iff {d : PeerData} {peerIps : List (List Char)} :
    Returns (addPeers time d peerIps) ↔ ∀ addr ∈ peerIps, (newPeerInfo addr 0).isSome := by
  unfold addPeers
  refine returns_foldlM_iff (fun d addr _ => ?_) d
  unfold PeerData.isPeerInList
  cases hinfo : newPeerInfo addr 0 with
  | some info =>
    rw [ok_bind]
    refine ⟨fun _ => rfl, fun _ => ?_⟩
    split
    · exact returns_pure _
    · rw [returns_addDisconnectedPeers_iff, hinfo]
      rfl
  | none =>
    dsimp only
    refine ⟨fun h => ?_, fun h => nomatch h⟩
    split at h
    · rw [ok_bind, if_neg (by decide), returns_addDisconnectedPeers_iff, hinfo] at h
      exact h
    · exact absurd h (not_returns_error _)

theorem returns_updatePeerList_iff {multiAddr : List Char} {plData : PLData} :
    Returns (srv.updatePeerList time multiAddr plData) ↔
      Servable (.addPeerToPeerList multiAddr plData) := by
  unfold updatePeerList PeerData.addConnectedPeers
  simp only [Servable]
  rw [returns_bind_iff, ← @returns_derefPeerInfo_iff multiAddr time]
  constructor
  · rintro ⟨d, hd, h⟩
    rcases returns_bind_iff.1 ⟨d, hd⟩ with ⟨info, hinfo, -⟩
    rcases returns_bind_iff.1 h with ⟨d', hd', -⟩
    exact ⟨⟨info, hinfo⟩, returns_addPeers_iff.1 ⟨d', hd'⟩⟩
  · rintro ⟨⟨info, hinfo⟩, hall⟩
    refine ⟨_, bind_eq_ok.2 ⟨info, hinfo, rfl⟩, ?_⟩
    rcases returns_addPeers_iff.2 hall with ⟨d', hd'⟩
    exact returns_bind_iff.2 ⟨d', hd', returns_pure _⟩

theorem returns_announce {mrData : MRData} : Returns (srv.announce mrData peer) := by
  have hadd : Returns (srv.addPeer mrData peer) := by
    rcases srv.node.mr.returns_addPeer mrData peer with ⟨mr, hmr⟩
    exact returns_bind_iff.2 ⟨mr, hmr, returns_pure _⟩
  have hblock : Returns (srv.announceBlock mrData peer) := by
    unfold announceBlock
    split
    · exact returns_pure _
    · split
      · exact returns_pure _
      · exact hadd
  unfold announce
  split
  · exact hblock
  · split
    · exact returns_pure _
    · exact hblock
  all_goals first | exact hadd | exact returns_pure _

theorem returns_registerAndBroadcast_iff {msgHash : Hash} {msg : LegacyMessage} :
    Returns (srv.registerAndBroadcast msgHash msg) ↔
      Servable (.registerAndBroadcast msgHash msg) := by
  rcases srv.node.mr.returns_register msgHash msg with ⟨mr, hmr⟩
  unfold registerAndBroadcast Servable
  rw [hmr, ok_bind]
  dsimp only
  cases hblock : msg.getBlock with
  | some b =>
    dsimp only
    rw [returns_bind_iff]
    constructor
    · rintro ⟨blk, hblk, -⟩
      refine ⟨fun b' hb' => ?_, fun ba hnone => nomatch hnone⟩
      cases hb'
      exact ⟨blk, hblk⟩
    · rintro ⟨h, -⟩
      rcases h b rfl with ⟨blk, hblk⟩
      exact ⟨blk, hblk, returns_pure _⟩
  | none =>
    cases hba : msg.getBlockForAttestation with
    | some ba =>
      dsimp only
      rw [LegacyMessage.returns_deref_bind_iff]
      constructor
      · rintro ⟨b, hb, h⟩
        rcases returns_bind_iff.1 h with ⟨blk, hblk, -⟩
        refine ⟨fun b' hb' => (nomatch hb'), fun ba' _ hba' => ?_⟩
        cases hba'
        exact ⟨b, hb, blk, hblk⟩
      · rintro ⟨-, h⟩
        rcases h ba rfl rfl with ⟨b, hb, blk, hblk⟩
        exact ⟨b, hb, returns_bind_iff.2 ⟨blk, hblk, returns_pure _⟩⟩
    | none =>
      exact ⟨fun _ => ⟨fun b hb => (nomatch hb), fun ba _ hba => nomatch hba⟩,
        fun _ => returns_pure _⟩

theorem returns_serve_iff {x : HandedOver} : Returns (serve time peer srv x) ↔ Servable x := by
  cases x with
  | addPeerToPeerList multiAddr plData => exact returns_updatePeerList_iff
  | mrDataConn mrData =>
    simp only [serve, Servable]
    rw [LegacyMessage.returns_deref_bind_iff, Option.isSome_iff_exists]
    exact exists_congr fun data => ⟨fun h => h.1, fun h => ⟨h, returns_announce⟩⟩
  | blockAndPeer b =>
    unfold serve Servable
    rw [returns_bind_iff]
    constructor
    · rintro ⟨blk, hblk, -⟩
      exact ⟨blk, hblk⟩
    · rintro ⟨blk, hblk⟩
      exact ⟨blk, hblk, returns_pure _⟩
  | registerAndBroadcast msgHash msg => exact returns_registerAndBroadcast_iff
  | blockReceivedForAttestation | attestationReceivedForBlock =>
      exact ⟨fun _ => trivial, fun _ => returns_ok _⟩

theorem returns_foldlM_serve_iff {xs : List HandedOver} :
    Returns (xs.foldlM (serve time peer) srv) ↔ ∀ x ∈ xs, Servable x :=
  returns_foldlM_iff (P := Servable) (fun _ _ _ => returns_serve_iff) srv

end Server

namespace Peer

/-- What the message makes the server read is there: an announcement, addresses of seven
    parts, the header of a block. -/
def Passable (p : Peer) (m : LegacyMessage) : Prop :=
  match m.funcName with
  | .pl => p.isPLShared = true ∨ ∀ data, m.getPlData = some data →
      (newPeerInfo (p.formatMultiAddr (Nat.toDigits 10 data.publicPort.toNat)) 0).isSome ∧
        ∀ addr ∈ data.peerIps, (newPeerInfo addr 0).isSome
  | .mr => ∃ data, m.getMrData = some data
  | .pb => ∀ b, m.getPbData = some (some b) → Returns b.toBlock
  | _ => True

section HandedOver

variable {ext : Externals} {time : UInt64} {marshalSize : LegacyMessage → Nat} {p : Peer}
  {node : PeerNode} {m : LegacyMessage} {r : Handled}

theorem returns_toBlock_ofBlock (b : Block) : Returns (PBBlock.ofBlock b).toBlock := ⟨b, rfl⟩

/-- The payload a transaction can come in. -/
def HoldsTransaction (m : LegacyMessage) : Prop :=
  (∃ tx, m.getTtData = some tx) ∨ (∃ tx, m.getStData = some tx) ∨ ∃ data, m.getAtData = some data

theorem servable_of_holdsTransaction {msgHash : Hash} (h : HoldsTransaction m) :
    Server.Servable (.registerAndBroadcast msgHash m) := by
  unfold HoldsTransaction LegacyMessage.getTtData LegacyMessage.getStData
    LegacyMessage.getAtData at h
  simp only [Server.Servable]
  unfold LegacyMessage.getBlock LegacyMessage.getBlockForAttestation
  rcases hdata : m.data with _ | payload
  · simp only [reduceCtorEq, false_implies, implies_true, and_self]
  · rw [hdata] at h
    cases payload <;>
      simp only [reduceCtorEq, exists_false, or_self] at h <;>
      simp only [reduceCtorEq, false_implies, implies_true, and_self]

theorem sent_handleSendFullMessage (h : p.handleSendFullMessage marshalSize time node m = .ok r) :
    r.sent = [] := by
  rcases bind_eq_ok.1 h with ⟨mrData, -, h⟩
  split at h <;> cases h <;> rfl

theorem sent_handleEpochBlockHashesRequest
    (h : p.handleEpochBlockHashesRequest marshalSize time node m = .ok r) : r.sent = [] := by
  rcases bind_eq_ok.1 h with ⟨ebhReq, -, h⟩
  split at h <;> cases h <;> rfl

theorem sent_handleFetchBlock (h : p.handleFetchBlock marshalSize time node m = .ok r) :
    r.sent = [] := by
  rcases bind_eq_ok.1 h with ⟨hash, -, h⟩
  split at h <;> cases h <;> rfl

theorem sent_handleChainState (h : p.handleChainState time node m = .ok r) : r.sent = [] := by
  rcases bind_eq_ok.1 h with ⟨state, -, h⟩
  cases h
  rfl

theorem sent_handleAck (h : p.handleAck marshalSize time node m = .ok r) : r.sent = [] := by
  rcases bind_eq_ok.1 h with ⟨k, -, h⟩
  cases h
  rfl

theorem sent_handleVersion : (p.handleVersion marshalSize time node m).sent = [] := by
  unfold handleVersion
  split <;> rfl

theorem servable_handlePeerList_iff (h : p.handlePeerList node m = .ok r) :
    (∀ x ∈ r.sent, Server.Servable x) ↔ p.isPLShared = true ∨ ∀ data, m.getPlData = some data →
      (newPeerInfo (p.formatMultiAddr (Nat.toDigits 10 data.publicPort.toNat)) 0).isSome ∧
        ∀ addr ∈ data.peerIps, (newPeerInfo addr 0).isSome := by
  unfold handlePeerList at h
  split at h
  · rename_i hshared
    cases h
    exact ⟨fun _ => .inl hshared, fun _ x hx => absurd hx List.not_mem_nil⟩
  · rename_i hshared
    rcases bind_eq_ok.1 h with ⟨data, hdata, h⟩
    rw [LegacyMessage.deref_eq_ok] at hdata
    cases h
    rw [List.forall_mem_singleton]
    constructor
    · intro hservable
      refine .inr fun data' hdata' => ?_
      cases hdata.symm.trans hdata'
      exact hservable
    · rintro (hbad | hgood)
      · exact absurd hbad hshared
      · exact hgood data hdata

theorem servable_handlePushBlock_iff (h : p.handlePushBlock node m = .ok r) :
    (∀ x ∈ r.sent, Server.Servable x) ↔ ∀ b, m.getPbData = some (some b) → Returns b.toBlock := by
  rcases bind_eq_ok.1 h with ⟨block, hblock, h⟩
  rw [LegacyMessage.deref_eq_ok] at hblock
  split at h
  · cases h
    refine ⟨fun _ b hb => ?_, fun _ x hx => absurd hx List.not_mem_nil⟩
    cases hblock.symm.trans hb
  · rename_i b
    cases h
    rw [List.forall_mem_singleton]
    constructor
    · intro hservable b' hb'
      cases hblock.symm.trans hb'
      exact hservable
    · intro hall
      exact hall b hblock

theorem servable_handleBlockForAttestation (h : p.handleBlockForAttestation ext node m = .ok r) :
    ∀ x ∈ r.sent, Server.Servable x := by
  rcases bind_eq_ok.1 h with ⟨ba, -, h⟩
  rcases bind_eq_ok.1 h with ⟨pbBlock, -, h⟩
  rcases bind_eq_ok.1 h with ⟨b, -, h⟩
  rcases bind_eq_ok.1 h with ⟨hash, -, h⟩
  split at h
  · cases h
    refine List.forall_mem_cons.2 ⟨⟨fun b' hb' => (nomatch hb'), fun ba' _ hba' => ?_⟩, ?_⟩
    · cases hba'
      exact ⟨_, rfl, returns_toBlock_ofBlock b⟩
    · exact List.forall_mem_singleton.2 trivial
  · cases h
    exact fun x hx => absurd hx List.not_mem_nil

theorem servable_handleBlock (h : p.handleBlock ext time node m = .ok r) :
    ∀ x ∈ r.sent, Server.Servable x := by
  have hnil : ∀ x ∈ ([] : List HandedOver), Server.Servable x := fun x hx =>
    absurd hx List.not_mem_nil
  rcases bind_eq_ok.1 h with ⟨pbBlock, -, h⟩
  rcases bind_eq_ok.1 h with ⟨b, -, h⟩
  rcases bind_eq_ok.1 h with ⟨hash, -, h⟩
  split at h
  · cases h
    exact hnil
  · split at h
    · rcases bind_eq_ok.1 h with ⟨⟨added, chain⟩, -, h⟩
      dsimp only at h
      split at h
      · cases h
        refine List.forall_mem_singleton.2 ⟨fun b' hb' => ?_, fun ba hnone => nomatch hnone⟩
        cases hb'
        exact returns_toBlock_ofBlock b
      · cases h
        exact hnil
    · cases h
      exact hnil

theorem servable_handleTransaction {txData : Option Transaction}
    (hdata : ∀ tx, txData = some tx → HoldsTransaction m)
    (h : p.handleTransaction ext time node m txData = .ok r) : ∀ x ∈ r.sent, Server.Servable x := by
  have hnil : ∀ x ∈ ([] : List HandedOver), Server.Servable x := fun x hx =>
    absurd hx List.not_mem_nil
  rcases bind_eq_ok.1 h with ⟨tx, htx, h⟩
  rcases bind_eq_ok.1 h with ⟨txHash, -, h⟩
  split at h
  · rcases bind_eq_ok.1 h with ⟨valid, -, h⟩
    split at h
    · cases h
      exact hnil
    · rcases bind_eq_ok.1 h with ⟨pool, -, h⟩
      split at h
      · cases h
        exact hnil
      · cases h
        rw [LegacyMessage.deref_eq_ok] at htx
        exact List.forall_mem_singleton.2 (servable_of_holdsTransaction (hdata tx htx))
  · cases h
    exact hnil

theorem servable_handleAttestTransaction (h : p.handleAttestTransaction ext node m = .ok r) :
    ∀ x ∈ r.sent, Server.Servable x := by
  have hnil : ∀ x ∈ ([] : List HandedOver), Server.Servable x := fun x hx =>
    absurd hx List.not_mem_nil
  rcases bind_eq_ok.1 h with ⟨txData, hdata, h⟩
  rcases bind_eq_ok.1 h with ⟨tx, -, h⟩
  rcases bind_eq_ok.1 h with ⟨txHash, -, h⟩
  split at h
  · dsimp only at h
    split at h
    · cases h
      exact hnil
    · rcases bind_eq_ok.1 h with ⟨validators, -, h⟩
      split at h
      · cases h
        exact hnil
      · rcases bind_eq_ok.1 h with ⟨valid, -, h⟩
        split at h
        · cases h
          exact hnil
        · cases h
          refine List.forall_mem_cons.2 ⟨trivial, List.forall_mem_singleton.2 ?_⟩
          rw [LegacyMessage.deref_eq_ok] at hdata
          exact servable_of_holdsTransaction (.inr (.inr ⟨txData, hdata⟩))
  · cases h
    exact hnil

theorem servable_handle_iff (h : handle ext time marshalSize p node m = .ok r) :
    (∀ x ∈ r.sent, Server.Servable x) ↔ Passable p m := by
  have hsilent : r.sent = [] → (∀ x ∈ r.sent, Server.Servable x) := by
    intro hnil x hx
    rw [hnil] at hx
    exact absurd hx List.not_mem_nil
  unfold handle at h
  unfold Passable
  cases hname : m.funcName <;> rw [hname] at h <;> dsimp only at h ⊢
  case pl => exact servable_handlePeerList_iff h
  case pb => exact servable_handlePushBlock_iff h
  case mr =>
    cases h
    rw [List.forall_mem_singleton]
    exact Option.isSome_iff_exists
  case ve =>
    cases h
    exact iff_of_true (hsilent sent_handleVersion) trivial
  case sfm => exact iff_of_true (hsilent (sent_handleSendFullMessage h)) trivial
  case ebhReq => exact iff_of_true (hsilent (sent_handleEpochBlockHashesRequest h)) trivial
  case fb => exact iff_of_true (hsilent (sent_handleFetchBlock h)) trivial
  case chainState => exact iff_of_true (hsilent (sent_handleChainState h)) trivial
  case p2pAck => exact iff_of_true (hsilent (sent_handleAck h)) trivial
  case ba => exact iff_of_true (servable_handleBlockForAttestation h) trivial
  case bk => exact iff_of_true (servable_handleBlock h) trivial
  case tt =>
    exact iff_of_true (servable_handleTransaction (fun tx htx => .inl ⟨tx, htx⟩) h) trivial
  case st =>
    exact iff_of_true (servable_handleTransaction (fun tx htx => .inr (.inl ⟨tx, htx⟩)) h) trivial
  case attest => exact iff_of_true (servable_handleAttestTransaction h) trivial
  all_goals
    cases h
    exact iff_of_true (hsilent rfl) trivial

end HandedOver

end Peer

/-- For every message and every state of the connection and the node: `handle` returns
    exactly if the message carries what its function name calls for. What a message that was
    handled makes the server do, in any state of the server, is done exactly if what the
    server reads of it is there. -/
theorem peer_message_returns_iff (ext : Externals) (time : UInt64)
    (marshalSize : LegacyMessage → Nat) (p : Peer) (node : PeerNode) (m : LegacyMessage)
    (hvetted : Peer.Vetted ext time node m) :
    (Returns (p.handle ext time marshalSize node m) ↔ Peer.Carries ext p node m) ∧
      ∀ r, p.handle ext time marshalSize node m = .ok r → ∀ srv : Server,
        (Returns (r.sent.foldlM (Server.serve time p.id) srv) ↔ Peer.Passable p m) := by
  refine ⟨Peer.returns_handle_iff hvetted, fun r hr srv => ?_⟩
  rw [← Peer.servable_handle_iff hr]
  exact Server.returns_foldlM_serve_iff

def toyStakeMessage : LegacyMessage :=
  { funcName := .st, data := some (.stData (toyStakeTx 2 Config.stakeAmount 1)) }

def toyStakeHash : Hash := (toyStakeTx 2 Config.stakeAmount 1).base.hash

/-- A node that asked its first peer for one message. -/
def toyExpecting (c : Chain) (msgHash : Hash) : PeerNode :=
  { chain := c
    txPool := createTransactionPool
    mr := { MessageReceipt.createMR with
      requestedHash := { mapping := AssocMap.empty.put (hexKey msgHash.val) [0]
                         order := [[], hexKey msgHash.val] } } }

/-- A valid stake transaction that the node asked for, on top of the first block. -/
theorem toyStakeMessage_handled : ∃ c, genesisChain toyExternals toyGenesis toyPreState = .ok c ∧
    (toyExpecting c toyStakeHash).mr.IsRequested toyStakeHash (toyPeer 0).id ∧
    Peer.Vetted toyExternals 0 (toyExpecting c toyStakeHash) toyStakeMessage ∧
    Returns ((toyPeer 0).handle toyExternals 0 toySize (toyExpecting c toyStakeHash)
      toyStakeMessage) := by
  have hvalid : (genesisChain toyExternals toyGenesis toyPreState >>= fun c =>
      (c.validateTransaction toyExternals (toyStakeTx 2 Config.stakeAmount 1)).map
        fun _ => ()) = .ok () := by
    decide +kernel
  rcases bind_eq_ok.1 hvalid with ⟨c, hc, hvalid⟩
  have hvetted : Peer.Vetted toyExternals 0 (toyExpecting c toyStakeHash) toyStakeMessage :=
    { block := fun _ _ h => nomatch h
      transaction := by
        rintro tx (h | h)
        · cases h
        · cases h
          intro f hf
          change c.validateTransaction _ _ = _ at hf
          rw [hf] at hvalid
          cases hvalid
      pool := by
        rintro tx txHash (h | h)
        · cases h
        · cases h
          have haddr : (toyStakeTx 2 Config.stakeAmount 1).addrFrom toyExternals.toCrypto
              = .ok (toyAddress 2) := by decide +kernel
          refine (failsOnly_errorIf _ _).bind fun _ _ => FailsOnly.bind ?_ fun _ _ => failsOnly_pure _
          unfold TransactionPool.push
          rw [haddr, ok_bind]
          exact failsOnly_ok _
      attestation := fun _ _ h => nomatch h }
  refine ⟨c, hc, ?_, hvetted, ?_⟩
  · unfold MessageReceipt.IsRequested KeyCache.isRequested toyExpecting
    dsimp only
    rw [AssocMap.get_put_self]
    rfl
  · exact (peer_message_returns_iff toyExternals 0 toySize (toyPeer 0) (toyExpecting c toyStakeHash)
      toyStakeMessage hvetted).1.2 ⟨_, rfl, trivial⟩

/-- An attestation of nobody's, for the last slot of the second epoch. -/
def toyUnled : LegacyMessage :=
  { funcName := .attest
    data := some (.atData
      { tx := some (.attest (newAttest 0 0)), slotNumber := 199
        parentHeaderHash := toyGenesis.hash.val, partialBlockSigningHash := [] }) }

def toyUnledHash : Hash :=
  (newAttest 0 0).txHash toyCrypto ((newAttest 0 0).getSigningHash toyCrypto zeroHash)

/-- Four messages that stop the node: a request for a block that does not say which, an
    announcement of nothing, a list of peers with an address that is no address, and an
    attestation that was asked for, for a slot that its epoch gives to nobody. The second and
    the third stop it in the server loop. -/
theorem peer_message_crashes :
    (toyPeer 0).handle toyExternals 0 toySize toyPeerNode { funcName := .fb, data := none }
      = .error (.panic .nilDereference) ∧
    (∃ r, (toyPeer 0).handle toyExternals 0 toySize toyPeerNode { funcName := .mr, data := none }
        = .ok r ∧
      ∀ srv : Server, r.sent.foldlM (Server.serve 0 0) srv = .error (.panic .nilDereference)) ∧
    (∃ r, (toyPeer 0).handle toyExternals 0 toySize toyPeerNode
        { funcName := .pl, data := some (.plData { peerIps := [['x']], publicPort := 0 }) } = .ok r ∧
      ∀ srv : Server, ¬Returns (r.sent.foldlM (Server.serve 0 0) srv)) ∧
    ∃ c, genesisChain toyExternals toyGenesis toyPreState = .ok c ∧
      (toyPeer 0).handle toyExternals 0 toySize (toyExpecting c toyUnledHash) toyUnled =
        .error (.panic .nilDereference) := by
  refine ⟨rfl, ⟨_, rfl, fun srv => rfl⟩, ⟨_, rfl, fun srv h => ?_⟩, ?_⟩
  · have hserved := Server.returns_foldlM_serve_iff.1 h
    have haddr := (hserved _ List.mem_cons_self).2 ['x'] List.mem_cons_self
    revert haddr
    decide +kernel
  · have hpanic : (genesisChain toyExternals toyGenesis toyPreState >>= fun c =>
        pure (decide (((toyPeer 0).handle toyExternals 0 toySize (toyExpecting c toyUnledHash)
          toyUnled).map (fun _ => ()) = .error (.panic .nilDereference)))) = .ok true := by
      decide +kernel
    rcases bind_eq_ok.1 hpanic with ⟨c, hc, hpanic⟩
    refine ⟨c, hc, ?_⟩
    rw [pure_eq_ok, decide_eq_true_eq] at hpanic
    generalize (toyPeer 0).handle toyExternals 0 toySize (toyExpecting c toyUnledHash) toyUnled = x
      at hpanic ⊢
    cases x with
    | error f => exact congrArg _ (Except.error.inj hpanic)
    | ok r => cases hpanic

end Zond
