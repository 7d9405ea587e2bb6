import Zond.Core.Pos
import Zond.Theory.Step

/-!
# What One Event Does

`Pos.handle` taken apart. The lookups minting makes one after another are computed from
one epoch record, so the leader, the validators and the attestors of the slot are found
together or not at all: once the transactions are popped, a draft of the block exists.

## Main definitions

* `Handled`: What an event can do to the node.
* `Minting`: What minting has looked up and put together.

## Theorems

* `handled_of_handle`: Everything said about whole runs of the loop is derived from this.
-/

namespace Zond

open Outcome

variable {ext : Externals} {p p' : Pos} {now time : UInt64} {actions : List Action}

namespace Pos

/-- The first protocol transaction of the block names a key of this node. -/
def proposedHere (p : Pos) (b : Block) : Bool :=
  b.protocolTransactions.head?.any (fun tx => (p.validators.get tx.pk).isSome)

def proposal (p : Pos) : Option Block := p.blockBeingAttested.filter p.proposedHere

theorem proposal_of_none (h : p.blockBeingAttested = none) : p.proposal = none := by
  unfold proposal
  rw [h]
  rfl

theorem blockBeingAttested_of_proposal {b : Block} (h : p.proposal = some b) :
    p.blockBeingAttested = some b ∧ p.proposedHere b = true := by
  unfold proposal at h
  rwa [Option.filter_eq_some_iff] at h

theorem proposal_of_here {b : Block} (h : p.blockBeingAttested = some b)
    (hhere : p.proposedHere b = true) : p.proposal = some b := by
  unfold proposal
  rw [Option.filter_eq_some_iff]
  exact ⟨h, hhere⟩

theorem proposedHere_of_cons {b : Block} {tx : ProtocolTransaction}
    {rest : List ProtocolTransaction} (h : b.protocolTransactions = tx :: rest) :
    p.proposedHere b = (p.validators.get tx.pk).isSome := by
  unfold proposedHere
  rw [h]
  rfl

end Pos

namespace Chain

variable {c : Chain} {trieRoot parentHash : Hash} {slotNumber : UInt64}

theorem rejectOnError_cases {α : Type} {x : Go α} {o : Option α}
    (h : rejectOnError x = .ok o) : (∃ a, x = .ok a ∧ o = some a) ∨
      (∃ e, x = .error (.error e)) ∧ o = none := by
  cases o with
  | some a => exact .inl ⟨a, rejectOnError_eq_some.1 h, rfl⟩
  | none =>
    refine .inr ⟨?_, rfl⟩
    rcases x with (e | f | _) | a
    · exact ⟨e, rfl⟩
    · cases h
    · cases h
    · cases h

theorem slotValidators_of_ok {v : SlotValidatorsMetaData}
    (h : c.getSlotValidatorsMetaDataBySlotNumber ext trieRoot slotNumber parentHash = .ok v) :
    ∃ leader attestors,
      c.getSlotLeaderDilithiumPKBySlotNumber ext trieRoot slotNumber parentHash = .ok leader ∧
      c.getAttestorsBySlotNumber ext trieRoot slotNumber parentHash = .ok attestors ∧
      v.slotLeaderPK = leader ∧ v.validatorsType =
        attestors.foldl (fun m pk => m.put pk false) (AssocMap.empty.put leader true) := by
  unfold getSlotValidatorsMetaDataBySlotNumber at h
  rcases bind_eq_ok.1 h with ⟨s, hs, h⟩
  rcases bind_eq_ok.1 h with ⟨⟨s', e⟩, he, h⟩
  unfold SlotValidatorsMetaData.new at h
  rcases bind_eq_ok.1 h with ⟨info, hinfo, h⟩
  rcases bind_eq_ok.1 h with ⟨leader, hleader, h⟩
  rcases bind_eq_ok.1 h with ⟨attestors, hattestors, h⟩
  rw [pure_eq_ok] at h
  subst h
  have hepoch : c.getEpochMetaData ext trieRoot slotNumber parentHash = .ok e := by
    unfold getEpochMetaData
    rw [hs, ok_bind, he]
    rfl
  refine ⟨leader, attestors, ?_, ?_, rfl, rfl⟩
  · unfold getSlotLeaderDilithiumPKBySlotNumber
    rw [hepoch, ok_bind, hinfo]
    exact hleader
  · unfold getAttestorsBySlotNumber
    rw [hepoch, ok_bind, hinfo]
    exact hattestors

theorem openState_of_slotValidators {v : SlotValidatorsMetaData}
    (h : c.getSlotValidatorsMetaDataBySlotNumber ext trieRoot slotNumber parentHash = .ok v) :
    ∃ s, openState c.tries trieRoot = .ok s := by
  rcases bind_eq_ok.1 h with ⟨s, hs, -⟩
  exact ⟨s, hs⟩

end Chain

/-- What is on the table when a block has been put together. -/
structure Minting where
  /-- The head's record, and what was looked up for the current slot. -/
  head : BlockMetaData
  leader : PublicKey
  validators : SlotValidatorsMetaData
  attestors : List PublicKey
  /-- The leader's key, and the state of the head. -/
  d : Dilithium
  state : StateDB
  /-- The transactions popped and what is left of the pool. -/
  txs : List Transaction
  pool : TransactionPool
  /-- The block as it was drafted, and with the attestations made here. -/
  draft : Block
  block : Block
  attestations : List Attest

/-- The block of `m` is what the node puts together at this reading of the clocks. -/
structure Minted (ext : Externals) (p : Pos) (now time : UInt64) (m : Minting) : Prop where
  head : p.chain.db.getBlockMetaData p.chain.lastBlock.hash = .ok m.head
  leader : p.chain.getSlotLeaderDilithiumPKBySlotNumber ext m.head.trieRoot (getCurrentSlot now)
    p.chain.lastBlock.hash = .ok m.leader
  validators : p.chain.getSlotValidatorsMetaDataBySlotNumber ext m.head.trieRoot
    (getCurrentSlot now) p.chain.lastBlock.hash = .ok m.validators
  key : p.validators.get m.leader = some m.d
  taken : Pos.takeTransactions ext p.chain p.txPool.txPool.length [] p.txPool =
    .ok (m.txs, m.pool)
  drafted : p.draft ext time m.head.trieRoot (getCurrentSlot now) m.d m.txs =
    .ok (m.state, m.draft, m.attestors)
  attested : m.attestors.foldlM (p.attestLocally ext m.state) (m.draft, []) =
    .ok (m.block, m.attestations)

namespace Pos

def minting (p : Pos) (m : Minting) : Pos :=
  { p with txPool := m.pool, slotValidatorsMetaData := some m.validators }

theorem mint_of_ok (h : p.mint ext now time = .ok (p', actions)) :
    (∃ v, p' = { p with slotValidatorsMetaData := v } ∧ actions = []) ∨
      ∃ m done, Minted ext p now time m ∧
        (p.minting m).submit ext time m.d m.block m.attestors m.attestations = .ok (p', done) ∧
        actions = m.txs.map .took ++ done := by
  unfold mint at h
  rcases bind_eq_ok.1 h with ⟨found, hfound, h⟩
  rcases Chain.rejectOnError_cases hfound with ⟨bm, hbm, rfl⟩ | ⟨-, rfl⟩
  swap
  · cases h
    exact .inl ⟨p.slotValidatorsMetaData, rfl, rfl⟩
  rcases bind_eq_ok.1 h with ⟨leader, hleader, h⟩
  rcases bind_eq_ok.1 h with ⟨validators, hvalidators, h⟩
  rcases Chain.rejectOnError_cases hvalidators with ⟨v, hv, rfl⟩ | ⟨-, rfl⟩
  swap
  · cases h
    exact .inl ⟨p.slotValidatorsMetaData, rfl, rfl⟩
  rcases Chain.slotValidators_of_ok hv with ⟨leader', attestors, hl, hat, -, -⟩
  rcases Chain.openState_of_slotValidators hv with ⟨s, hs⟩
  rw [hl, Chain.rejectOnError] at hleader
  cases hleader
  dsimp only [Option.getD_some] at h
  cases hkey : p.validators.get leader' with
  | none =>
    rw [hkey] at h
    cases h
    exact .inl ⟨some v, rfl, rfl⟩
  | some d =>
    rw [hkey] at h
    unfold propose at h
    rcases bind_eq_ok.1 h with ⟨⟨txs, pool⟩, htaken, h⟩
    -- The state and the attestors have been found before, so the draft exists.
    have hdraft : p.draft ext time bm.trieRoot (getCurrentSlot now) d txs = .ok (s,
        newBlock Config.chainID time d.pk (getCurrentSlot now) p.chain.lastBlock.hash txs []
          (s.getNonce (ext.getDilithiumAddressFromUnSizedPK d.pk)), attestors) := by
      unfold draft
      rw [hs, ok_bind]
      exact bind_eq_ok.2 ⟨attestors, hat, rfl⟩
    rcases bind_eq_ok.1 h with ⟨drafted, hdrafted, h⟩
    rcases Chain.rejectOnError_cases hdrafted with ⟨⟨s', b, attestors'⟩, hd, rfl⟩ | ⟨⟨e, he⟩, -⟩
    swap
    · cases hdraft.symm.trans he
    rcases bind_eq_ok.1 h with ⟨⟨b', attestations⟩, hattested, h⟩
    rcases bind_eq_ok.1 h with ⟨⟨p₁, done⟩, hsubmit, h⟩
    cases h
    exact .inr ⟨{ head := bm, leader := leader', validators := v, attestors := attestors'
                  d := d, state := s', txs := txs, pool := pool, draft := b, block := b'
                  attestations := attestations }, done,
      ⟨hbm, hl, hv, hkey, htaken, hd, hattested⟩, hsubmit, rfl⟩

end Pos

inductive Handled (ext : Externals) (p : Pos) : Event → Pos → List Action → Prop
  /-- Nothing comes of it. -/
  | ignored {e : Event} : Handled ext p e p []
  /-- The timer, with no proposal out and nothing to mint. -/
  | idle {now time : UInt64} {v : Option SlotValidatorsMetaData} (hnone : p.proposal = none) :
      Handled ext p (.tick now time)
        { p with blockBeingAttested := none, slotValidatorsMetaData := v } []
  /-- The timer: a block whose attestors are all here is signed and added. -/
  | minted {now time : UInt64} {m : Minting} {b : Block} {added : Bool} {chain : Chain}
      (hnone : p.proposal = none) (hm : Minted ext p now time m)
      (hall : m.attestations.length = m.attestors.length)
      (hsign : m.block.signByProposer ext.toCrypto m.d = .ok b)
      (hadd : p.chain.addBlock ext time b = .ok (added, chain)) :
      Handled ext p (.tick now time)
        { p.minting m with chain := chain, blockBeingAttested := none, attestors := m.attestors
                           attestations := [] }
        (m.txs.map .took ++ if added then [.added b, .broadcastBlock b] else [])
  /-- The timer: a block goes out for attestation. -/
  | sentOut {now time : UInt64} {m : Minting} {h : Hash}
      (hnone : p.proposal = none) (hm : Minted ext p now time m)
      (hsome : m.attestations.length ≠ m.attestors.length)
      (hhash : m.block.partialBlockSigningHash ext.toCrypto = .ok h) :
      Handled ext p (.tick now time)
        { p.minting m with blockBeingAttested := some m.block, attestors := m.attestors
                           attestations := m.attestations }
        (m.txs.map .took ++ [.broadcastBlockForAttestation m.block (m.d.sign h)])
  /-- The timer: a proposal with attestations is signed and added. -/
  | sealed {now time : UInt64} {b b' : Block} {d : Dilithium} {tx : ProtocolTransaction}
      {rest : List ProtocolTransaction} {added : Bool} {chain : Chain}
      (hproposal : p.proposal = some b) (hfirst : b.protocolTransactions = tx :: rest)
      (hkey : p.validators.get tx.pk = some d) (hattested : 1 < b.protocolTransactions.length)
      (hsign : b.signByProposer ext.toCrypto d = .ok b')
      (hadd : p.chain.addBlock ext time b' = .ok (added, chain)) :
      Handled ext p (.tick now time)
        { p with chain := chain, blockBeingAttested := none, attestations := [] }
        ((if added then [.added b'] else []) ++ [.broadcastBlock b'])
  /-- The timer: the transactions of a proposal nobody attested are put back. -/
  | givenUp {now time : UInt64} {b : Block} {pool : TransactionPool} {err : Option Err}
      (hproposal : p.proposal = some b) (halone : ¬1 < b.protocolTransactions.length)
      (hback : TransactionPool.addTxFromBlock ext.toCrypto p.chain.lastBlock.slotNumber time
        b.transactions p.txPool = .ok (pool, err)) :
      Handled ext p (.tick now time)
        { p with txPool := pool, blockBeingAttested := none, attestations := [] } []
  /-- A received block is attested and takes the place of the one before. -/
  | attested {b : Block} {bm : BlockMetaData} {v : SlotValidatorsMetaData}
      {tx : ProtocolTransaction} {rest : List ProtocolTransaction} {h : Hash}
      {s : Option StateDB} {actions : List Action}
      (hhead : b.parentHash = p.chain.lastBlock.hash)
      (hslot : ∀ old, p.blockBeingAttested = some old → old.slotNumber ≠ b.slotNumber)
      (hfirst : b.protocolTransactions = tx :: rest)
      (hv : p.chain.getSlotValidatorsMetaDataBySlotNumber ext bm.trieRoot b.slotNumber
        b.parentHash = .ok v) (hleader : v.IsSlotLeader tx.pk)
      (hhash : b.partialBlockSigningHash ext.toCrypto = .ok h)
      (hactions : (p.validators.keys.filter (fun d => v.IsAttestor d.pk)).mapM
        (Pos.attestReceived ext b s tx.pk h) = .ok actions) :
      Handled ext p (.blockReceivedForAttestation b)
        { p with blockBeingAttested := some b, slotValidatorsMetaData := some v } actions
  /-- An attestation of a new attestor goes into the block. -/
  | collected {tx : Attest} {b b' parentBlock : Block} {v : SlotValidatorsMetaData} {h : Hash}
      {s : StateDB} (hblock : p.blockBeingAttested = some b)
      (hhash : b.partialBlockSigningHash ext.toCrypto = .ok h)
      (hv : p.slotValidatorsMetaData = some v)
      (hvalid : p.chain.validateAttestTransaction ext tx v h b.slotNumber
        parentBlock.slotNumber = .ok s)
      (hnew : ∀ old ∈ p.attestations, old.pk ≠ tx.pk)
      (hadd : b.addAttestTx ext.toCrypto tx = .ok b') :
      Handled ext p (.attestationReceivedForBlock tx)
        { p with blockBeingAttested := some b', attestations := p.attestations ++ [tx] } []
  /-- Another part of the node adds a block. -/
  | chainMoved {time : UInt64} {b : Block} {added : Bool} {chain : Chain}
      (hadd : p.chain.addBlock ext time b = .ok (added, chain)) :
      Handled ext p (.addBlock time b) { p with chain := chain } (if added then [.added b] else [])
  /-- A peer's transaction is added to the pool. -/
  | pooled {time : UInt64} {tx : Transaction} {txHash : Hash} {pool : TransactionPool}
      (hadd : p.txPool.add ext.toCrypto tx txHash p.chain.lastBlock.slotNumber time time =
        .ok pool) :
      Handled ext p (.addTransaction time tx) { p with txPool := pool } []

theorem handled_of_mint (hnone : p.proposal = none)
    (h : Pos.mint ext { p with blockBeingAttested := none } now time = .ok (p', actions)) :
    Handled ext p (.tick now time) p' actions := by
  rcases Pos.mint_of_ok h with ⟨v, rfl, rfl⟩ | ⟨m, done, hm, hsubmit, rfl⟩
  · exact .idle hnone
  · -- What minting reads does not include the block that was dropped.
    have hm' : Minted ext p now time m := ⟨hm.head, hm.leader, hm.validators, hm.key, hm.taken,
      hm.drafted, hm.attested⟩
    unfold Pos.submit at hsubmit
    by_cases hall : m.attestations.length = m.attestors.length
    · rw [if_pos hall] at hsubmit
      rcases bind_eq_ok.1 hsubmit with ⟨b, hsign, hsubmit⟩
      rcases bind_eq_ok.1 hsubmit with ⟨⟨added, chain⟩, hadd, hsubmit⟩
      cases hsubmit
      exact .minted hnone hm' hall hsign hadd
    · rw [if_neg hall] at hsubmit
      rcases bind_eq_ok.1 hsubmit with ⟨hash, hhash, hsubmit⟩
      cases hsubmit
      exact .sentOut hnone hm' hall hhash

theorem handled_of_tick (h : p.tick ext now time = .ok (p', actions)) :
    Handled ext p (.tick now time) p' actions := by
  unfold Pos.tick at h
  cases hblock : p.blockBeingAttested with
  | none =>
    rw [hblock] at h
    have hsame : p = { p with blockBeingAttested := none } := by
      rw [← hblock]
    exact handled_of_mint (Pos.proposal_of_none hblock) (hsame ▸ h)
  | some b =>
    rw [hblock] at h
    rcases bind_eq_ok.1 h with ⟨tx, hfirst, h⟩
    unfold Block.firstProtocolTx at hfirst
    cases hpts : b.protocolTransactions with
    | nil =>
      rw [hpts] at hfirst
      cases hfirst
    | cons first rest =>
      rw [hpts] at hfirst
      cases hfirst
      cases hkey : p.validators.get tx.pk with
      | none =>
        rw [hkey] at h
        refine handled_of_mint ?_ h
        unfold Pos.proposal
        rw [hblock, Option.filter_eq_none_iff]
        intro b' hb'
        cases hb'
        rw [Pos.proposedHere_of_cons hpts, hkey]
        exact Bool.false_ne_true
      | some d =>
        rw [hkey] at h
        have hproposal : p.proposal = some b := by
          refine Pos.proposal_of_here hblock ?_
          rw [Pos.proposedHere_of_cons hpts, hkey]
          rfl
        dsimp only at h
        unfold Pos.closeProposal at h
        by_cases hmany : 1 < b.protocolTransactions.length
        · rw [if_pos hmany] at h
          rcases bind_eq_ok.1 h with ⟨b', hsign, h⟩
          rcases bind_eq_ok.1 h with ⟨⟨added, chain⟩, hadd, h⟩
          cases h
          exact .sealed hproposal hpts hkey hmany hsign hadd
        · rw [if_neg hmany] at h
          rcases bind_eq_ok.1 h with ⟨⟨pool, err⟩, hback, h⟩
          cases h
          exact .givenUp hproposal hmany hback

theorem handled_of_blockReceived {b : Block}
    (h : p.blockReceivedForAttestation ext b = .ok (p', actions)) :
    Handled ext p (.blockReceivedForAttestation b) p' actions := by
  unfold Pos.blockReceivedForAttestation at h
  by_cases hhead : b.parentHash ≠ p.chain.lastBlock.hash
  · rw [if_pos hhead] at h
    cases h
    exact .ignored
  rw [if_neg hhead] at h
  rw [not_not] at hhead
  by_cases hsame : (p.blockBeingAttested.any fun old => old.slotNumber = b.slotNumber) = true
  · rw [if_pos hsame] at h
    cases h
    exact .ignored
  rw [if_neg hsame] at h
  rcases bind_eq_ok.1 h with ⟨found, hfound, h⟩
  rcases Chain.rejectOnError_cases hfound with ⟨bm, -, rfl⟩ | ⟨-, rfl⟩
  swap
  · cases h
    exact .ignored
  rcases bind_eq_ok.1 h with ⟨tx, hfirst, h⟩
  rcases bind_eq_ok.1 h with ⟨validators, hvalidators, h⟩
  rcases Chain.rejectOnError_cases hvalidators with ⟨v, hv, rfl⟩ | ⟨-, rfl⟩
  swap
  · cases h
    exact .ignored
  dsimp only at h
  by_cases hleader : v.IsSlotLeader tx.pk
  swap
  · rw [if_neg hleader] at h
    cases h
    exact .ignored
  rw [if_pos hleader] at h
  rcases bind_eq_ok.1 h with ⟨hash, hhash, h⟩
  rcases bind_eq_ok.1 h with ⟨s, -, h⟩
  rcases bind_eq_ok.1 h with ⟨done, hdone, h⟩
  cases h
  have hslot : ∀ old, p.blockBeingAttested = some old → old.slotNumber ≠ b.slotNumber := by
    intro old hold heq
    rw [hold, Option.any_some] at hsame
    exact hsame (decide_eq_true heq)
  unfold Block.firstProtocolTx at hfirst
  cases hpts : b.protocolTransactions with
  | nil =>
    rw [hpts] at hfirst
    cases hfirst
  | cons first rest =>
    rw [hpts] at hfirst
    cases hfirst
    exact .attested hhead hslot hpts hv hleader hhash hdone

theorem handled_of_attestationReceived {tx : Attest}
    (h : p.attestationReceivedForBlock ext tx = .ok (p', actions)) :
    Handled ext p (.attestationReceivedForBlock tx) p' actions := by
  unfold Pos.attestationReceivedForBlock at h
  cases hblock : p.blockBeingAttested with
  | none =>
    rw [hblock] at h
    cases h
    exact .ignored
  | some b =>
    rw [hblock] at h
    rcases bind_eq_ok.1 h with ⟨hash, hhash, h⟩
    rcases bind_eq_ok.1 h with ⟨found, hfound, h⟩
    rcases Chain.rejectOnError_cases hfound with ⟨parentBlock, -, rfl⟩ | ⟨-, rfl⟩
    swap
    · cases h
      exact .ignored
    rcases bind_eq_ok.1 h with ⟨v, hv, h⟩
    rw [orFail_eq_ok] at hv
    rcases bind_eq_ok.1 h with ⟨valid, hvalid, h⟩
    rcases Chain.rejectOnError_cases hvalid with ⟨s, hs, rfl⟩ | ⟨-, rfl⟩
    swap
    · cases h
      exact .ignored
    rw [Option.isNone_some, if_neg Bool.false_ne_true] at h
    by_cases hdup : (p.attestations.any fun oldTx => oldTx.pk = tx.pk) = true
    · rw [if_pos hdup] at h
      cases h
      exact .ignored
    rw [if_neg hdup] at h
    rcases bind_eq_ok.1 h with ⟨b', hadd, h⟩
    cases h
    refine .collected hblock hhash hv hs ?_ hadd
    intro old hold heq
    exact hdup (List.any_eq_true.2 ⟨old, hold, decide_eq_true heq⟩)

theorem handled_of_addTransaction {tx : Transaction}
    (h : p.addTransaction ext time tx = .ok (p', actions)) :
    Handled ext p (.addTransaction time tx) p' actions := by
  unfold Pos.addTransaction at h
  rcases bind_eq_ok.1 h with ⟨txHash, -, h⟩
  rcases bind_eq_ok.1 h with ⟨valid, -, h⟩
  by_cases hnone : valid.isNone = true
  · rw [if_pos hnone] at h
    cases h
    exact .ignored
  rw [if_neg hnone] at h
  rcases bind_eq_ok.1 h with ⟨pool, hpool, h⟩
  cases h
  rcases Chain.rejectOnError_cases hpool with ⟨pool', hadd, rfl⟩ | ⟨-, rfl⟩
  · exact .pooled hadd
  · exact .ignored

theorem handled_of_handle {e : Event} (h : p.handle ext e = .ok (p', actions)) :
    Handled ext p e p' actions := by
  have hoff : ∀ {x : Go (Pos × List Action)}, (if p.enableStaking = true then x else .ok (p, [])) =
      .ok (p', actions) → x = .ok (p', actions) ∨ p' = p ∧ actions = [] := by
    intro x hx
    by_cases hstaking : p.enableStaking = true
    · rw [if_pos hstaking] at hx
      exact .inl hx
    · rw [if_neg hstaking] at hx
      cases hx
      exact .inr ⟨rfl, rfl⟩
  cases e with
  | tick now time =>
    rcases hoff h with h | ⟨rfl, rfl⟩
    · exact handled_of_tick h
    · exact .ignored
  | blockReceivedForAttestation b =>
    rcases hoff h with h | ⟨rfl, rfl⟩
    · exact handled_of_blockReceived h
    · exact .ignored
  | attestationReceivedForBlock tx =>
    rcases hoff h with h | ⟨rfl, rfl⟩
    · exact handled_of_attestationReceived h
    · exact .ignored
  | addBlock time b =>
    rcases bind_eq_ok.1 h with ⟨⟨added, chain⟩, hadd, h⟩
    cases h
    exact .chainMoved hadd
  | addTransaction time tx => exact handled_of_addTransaction h

end Zond
