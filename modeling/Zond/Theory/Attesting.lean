import Zond.Theory.Genesis
import Zond.Theory.Handling

/-!
# Attesting Once

Whether the keys of a node ever attest two blocks of one slot. The loop remembers
a block it has attested for as long as it is the block being attested: the next
tick of the timer drops it, and a block for any other slot takes its place. A
second block of the slot is attested as readily as the first.

So whether two votes of a key agree is up to what the node is told. They do when the leader of
a slot sends one block only, as often as it likes and however late, and the node mints no more
than one block for a slot it leads.

## Main definitions

* `Vote`: An attestation as others see it.
* `Asks`: An event on which the node may attest a block of a slot.
* `Sole`: An event that asks for no second block of a slot.

## Theorems

* `votes_agree`: No key votes for two blocks of one slot, over a run of such events.
* `equivocation`: A run in which a key does.
-/

namespace Zond

open Outcome

variable {tx : Attest} {actions : List Action} {b : Block}

variable {ext : Externals} {p p' : Pos} {s s' : Session} {now time : UInt64}

/-- An attestation as others see it: whose it is, and for which block of which slot. -/
structure Vote where
  pk : PublicKey
  slotNumber : UInt64
  partialBlockSigningHash : Hash
deriving DecidableEq

def ProtocolTransaction.attestorPK : ProtocolTransaction → Option PublicKey
  | attest tx => some tx.pk
  | _ => none

def Block.votes (c : Crypto) (b : Block) : List Vote :=
  match b.partialBlockSigningHash c with
  | .ok h => (b.protocolTransactions.filterMap ProtocolTransaction.attestorPK).map
      (fun pk => { pk := pk, slotNumber := b.slotNumber, partialBlockSigningHash := h })
  | .error _ => []

def Action.votes (c : Crypto) : Action → List Vote
  | broadcastBlock b => b.votes c
  | broadcastBlockForAttestation b _ => b.votes c
  | broadcastAttestationTransaction tx slotNumber _ _ h =>
    [{ pk := tx.pk, slotNumber := slotNumber, partialBlockSigningHash := h }]
  | took _ => []
  | added _ => []

def Pos.votesIn (ext : Externals) (p : Pos) (actions : List Action) : List Vote :=
  (actions.flatMap (Action.votes ext.toCrypto)).filter (fun v => (p.validators.get v.pk).isSome)

def Session.votes (ext : Externals) (s : Session) : List Vote := s.pos.votesIn ext s.log

/-- No key has voted for two blocks of one slot. -/
def Agree (votes : List Vote) : Prop :=
  ∀ v ∈ votes, ∀ w ∈ votes, v.pk = w.pk → v.slotNumber = w.slotNumber →
    v.partialBlockSigningHash = w.partialBlockSigningHash

def Pos.Leads (ext : Externals) (p : Pos) (now : UInt64) : Prop :=
  ∃ bm leader d, p.chain.db.getBlockMetaData p.chain.lastBlock.hash = .ok bm ∧
    p.chain.getSlotLeaderDilithiumPKBySlotNumber ext bm.trieRoot (getCurrentSlot now)
      p.chain.lastBlock.hash = .ok leader ∧ p.validators.get leader = some d

/-- The node may attest a block of the slot on this event: the timer goes off in a slot it leads
    and no proposal is out, or a block arrives that it does not ignore. -/
def Asks (ext : Externals) (p : Pos) : Event → UInt64 → Prop
  | .tick now _, slot => p.proposal = none ∧ p.Leads ext now ∧ getCurrentSlot now = slot
  | .blockReceivedForAttestation b, slot => b.parentHash = p.chain.lastBlock.hash ∧
      (∀ old, p.blockBeingAttested = some old → old.slotNumber ≠ b.slotNumber) ∧
      b.slotNumber = slot
  | _, _ => False

/-- Two events are about one block that was received. -/
def SameBlock (ext : Externals) : Event → Event → Prop
  | .blockReceivedForAttestation b, .blockReceivedForAttestation b' =>
      b'.partialBlockSigningHash ext.toCrypto = b.partialBlockSigningHash ext.toCrypto
  | _, _ => False

/-- An event that asks for a block of a slot for which the node was asked before only if it is
    the same block again. A received block names a proposer whose key is elsewhere. -/
def Sole (ext : Externals) (s : Session) (e : Event) : Prop :=
  (∀ b, e = .blockReceivedForAttestation b → s.pos.proposedHere b = false) ∧
    ∀ slot, Asks ext s.pos e slot → ∀ x ∈ s.heard, Asks ext x.1 x.2 slot → SameBlock ext x.2 e

/-- What the vote is for was asked for, and is the block that was received. -/
def Vote.From (ext : Externals) (x : Pos × Event) (v : Vote) : Prop :=
  Asks ext x.1 x.2 v.slotNumber ∧ ∀ b, x.2 = .blockReceivedForAttestation b →
    b.partialBlockSigningHash ext.toCrypto = .ok v.partialBlockSigningHash

section Votes

variable {b b' : Block} {v : Vote}

theorem mem_votes : v ∈ b.votes ext.toCrypto ↔
    b.partialBlockSigningHash ext.toCrypto = .ok v.partialBlockSigningHash ∧
      v.slotNumber = b.slotNumber ∧
      ∃ tx : Attest, .attest tx ∈ b.protocolTransactions ∧ tx.pk = v.pk := by
  unfold Block.votes
  cases hhash : b.partialBlockSigningHash ext.toCrypto with
  | error f => simp only [List.not_mem_nil, reduceCtorEq, false_and]
  | ok h =>
    simp only [List.mem_map, List.mem_filterMap, Except.ok.injEq]
    constructor
    · rintro ⟨pk, ⟨tx, htx, hpk⟩, rfl⟩
      cases tx with
      | attest tx =>
        cases hpk
        exact ⟨rfl, rfl, tx, htx, rfl⟩
      | coinBase | unknown => cases hpk
    · rintro ⟨rfl, hslot, tx, htx, hpk⟩
      refine ⟨v.pk, ⟨.attest tx, htx, congrArg some hpk⟩, ?_⟩
      rw [← hslot]

theorem mem_votes_signByProposer {d : Dilithium} {tx : ProtocolTransaction}
    {rest : List ProtocolTransaction} (hfirst : b.protocolTransactions = tx :: rest)
    (hpk : tx.pk = d.pk) (h : b.signByProposer ext.toCrypto d = .ok b') :
    v ∈ b'.votes ext.toCrypto ↔ v ∈ b.votes ext.toCrypto := by
  rw [mem_votes, mem_votes, partialBlockSigningHash_signByProposer hfirst hpk h]
  rcases signByProposer_of_ok h with ⟨coinBase, rest', message, hash, hpts, rfl⟩
  rw [hpts]
  simp only [List.mem_cons, reduceCtorEq, false_or]
  rfl

theorem mem_votes_addAttestTx (h : b.addAttestTx ext.toCrypto tx = .ok b')
    (hv : v ∈ b'.votes ext.toCrypto) : v ∈ b.votes ext.toCrypto ∨ v.pk = tx.pk := by
  rw [mem_votes, partialBlockSigningHash_addAttestTx h] at hv
  rw [mem_votes]
  rcases addAttestTx_of_ok h with ⟨-, rfl | rfl⟩
  · exact .inl hv
  · rcases hv with ⟨hhash, hslot, a, ha, hpk⟩
    rcases List.mem_append.1 ha with ha | ha
    · exact .inl ⟨hhash, hslot, a, ha, hpk⟩
    · rw [List.mem_singleton, ProtocolTransaction.attest.injEq] at ha
      exact .inr (ha ▸ hpk.symm)

theorem mem_votesIn : v ∈ p.votesIn ext actions ↔
    (∃ a ∈ actions, v ∈ a.votes ext.toCrypto) ∧ (p.validators.get v.pk).isSome = true := by
  unfold Pos.votesIn
  rw [List.mem_filter, List.mem_flatMap]

theorem mem_votes_step {e : Event} (hkeys : p'.validators = s.pos.validators) :
    v ∈ (s.told e p' actions).votes ext ↔ v ∈ s.votes ext ∨ v ∈ s.pos.votesIn ext actions := by
  unfold Session.votes Session.told
  simp only [mem_votesIn, hkeys, List.mem_append, or_and_right, exists_or]

end Votes

section Minting

variable {m : Minting}

/-- What the attestors of this node have done to the draft when `done` of them had
    their turn. -/
structure AttestedBy (ext : Externals) (p : Pos) (draft : Block) (done : List PublicKey)
    (ba : Block × List Attest) : Prop where
  header : ba.1.header = draft.header
  transactions : ba.1.transactions = draft.transactions
  first : ba.1.protocolTransactions.head? = draft.protocolTransactions.head?
  hash : ba.1.partialBlockSigningHash ext.toCrypto = draft.partialBlockSigningHash ext.toCrypto
  here : ∀ pk ∈ done, ∀ d, p.validators.get pk = some d → ∃ a ∈ ba.2, a.pk = pk

theorem pk_attest {c : Crypto} {d : Dilithium} {chainID nonce : UInt64}
    (h : b.attest c d chainID nonce = .ok tx) : tx.pk = d.pk := by
  unfold Block.attest at h
  rcases bind_eq_ok.1 h with ⟨hash, -, h⟩
  cases h
  rfl

theorem AttestedBy.step {draft : Block} {done : List PublicKey} {ba ba' : Block × List Attest}
    {pk : PublicKey} {state : StateDB} (hi : AttestedBy ext p draft done ba)
    (h : p.attestLocally ext state ba pk = .ok ba') :
    AttestedBy ext p draft (done ++ [pk]) ba' := by
  unfold Pos.attestLocally at h
  cases hkey : p.validators.get pk with
  | none =>
    rw [hkey] at h
    cases h
    refine ⟨hi.header, hi.transactions, hi.first, hi.hash, ?_⟩
    intro pk' hpk' d hd
    rcases List.mem_append.1 hpk' with hpk' | hpk'
    · exact hi.here pk' hpk' d hd
    · rw [List.mem_singleton.1 hpk', hkey] at hd
      cases hd
  | some d =>
    rw [hkey] at h
    rcases bind_eq_ok.1 h with ⟨tx, htx, h⟩
    rcases bind_eq_ok.1 h with ⟨b, hadd, h⟩
    cases h
    have hfields : b.header = ba.1.header ∧ b.transactions = ba.1.transactions ∧
        b.protocolTransactions.head? = ba.1.protocolTransactions.head? := by
      rcases addAttestTx_of_ok hadd with ⟨⟨first, rest, hpts⟩, rfl | rfl⟩
      · exact ⟨rfl, rfl, rfl⟩
      · rw [hpts]
        exact ⟨rfl, rfl, rfl⟩
    refine ⟨hfields.1.trans hi.header, hfields.2.1.trans hi.transactions,
      hfields.2.2.trans hi.first, (partialBlockSigningHash_addAttestTx hadd).trans hi.hash, ?_⟩
    intro pk' hpk' d' hd'
    rcases List.mem_append.1 hpk' with hpk' | hpk'
    · rcases hi.here pk' hpk' d' hd' with ⟨a, ha, hapk⟩
      exact ⟨a, List.mem_append_left _ ha, hapk⟩
    · refine ⟨tx, List.mem_append_right _ (List.mem_singleton.2 rfl), ?_⟩
      rw [pk_attest htx, (Keyring.get_eq_some hkey).2, List.mem_singleton.1 hpk']

theorem Minted.attestedBy (hm : Minted ext p now time m) :
    AttestedBy ext p m.draft m.attestors (m.block, m.attestations) :=
  foldlM_prefix (AttestedBy ext p m.draft) m.attestors
    (fun _ _ _ _ hi hstep => hi.step hstep)
    ⟨rfl, rfl, rfl, rfl, fun _ hpk => absurd hpk List.not_mem_nil⟩ hm.attested

theorem Minted.draft_eq (hm : Minted ext p now time m) :
    m.draft = newBlock Config.chainID time m.d.pk (getCurrentSlot now) p.chain.lastBlock.hash
      m.txs [] (m.state.getNonce (ext.getDilithiumAddressFromUnSizedPK m.d.pk)) ∧
    Chain.openState p.chain.tries m.head.trieRoot = .ok m.state ∧
    p.chain.getAttestorsBySlotNumber ext m.head.trieRoot (getCurrentSlot now)
      p.chain.lastBlock.hash = .ok m.attestors := by
  have h := hm.drafted
  unfold Pos.draft at h
  rcases bind_eq_ok.1 h with ⟨state, hstate, h⟩
  rcases bind_eq_ok.1 h with ⟨attestors, hattestors, h⟩
  simp only [pure_eq_ok, Prod.mk.injEq] at h
  rcases h with ⟨rfl, hdraft, rfl⟩
  exact ⟨hdraft.symm, hstate, hattestors⟩

theorem Minted.slotNumber (hm : Minted ext p now time m) :
    m.block.slotNumber = getCurrentSlot now := by
  unfold Block.slotNumber
  rw [hm.attestedBy.header, hm.draft_eq.1]
  rfl

theorem Minted.first (hm : Minted ext p now time m) :
    ∃ tx rest, m.block.protocolTransactions = tx :: rest ∧ tx.pk = m.d.pk := by
  have hfirst := hm.attestedBy.first
  rw [hm.draft_eq.1] at hfirst
  cases hpts : m.block.protocolTransactions with
  | nil =>
    rw [show m.block.protocolTransactions = [] from hpts] at hfirst
    cases hfirst
  | cons tx rest =>
    rw [show m.block.protocolTransactions = tx :: rest from hpts] at hfirst
    cases hfirst
    exact ⟨_, rest, rfl, rfl⟩

theorem Minted.leads (hm : Minted ext p now time m) : p.Leads ext now :=
  ⟨m.head, m.leader, m.d, hm.head, hm.leader, hm.key⟩

theorem Minted.mem_attestors (hm : Minted ext p now time m) {pk : PublicKey}
    (h : m.validators.IsAttestor pk) : pk ∈ m.attestors := by
  rcases Chain.slotValidators_of_ok hm.validators with ⟨leader, attestors, -, hattestors, -, hv⟩
  have heq := hm.draft_eq.2.2
  rw [hattestors, Except.ok.injEq] at heq
  exact heq ▸ mem_of_isAttestor hv h

end Minting

/-- The votes of a node agree, and each is for what the node was asked to attest. -/
structure Backed (ext : Externals) (s : Session) : Prop where
  agree : Agree (s.votes ext)
  asked : ∀ v ∈ s.votes ext, ∃ x ∈ s.heard, v.From ext x

/-- What holds of the votes and the proposal of a node that is asked for no second block of a
    slot. -/
structure Faithful (ext : Externals) (s : Session) : Prop extends Backed ext s where
  /-- The votes of its own keys that a proposal carries have been broadcast with it. -/
  proposal : ∀ b, s.pos.proposal = some b → ∀ v ∈ b.votes ext.toCrypto,
    (s.pos.validators.get v.pk).isSome = true → v ∈ s.votes ext
  /-- Every key of the node that may attest a proposal has done so. -/
  settled : ∀ b, s.pos.proposal = some b → ∀ v, s.pos.slotValidatorsMetaData = some v →
    ∀ pk d, v.IsAttestor pk → s.pos.validators.get pk = some d →
      ∃ a ∈ s.pos.attestations, a.pk = pk

section Steps

variable {e : Event}

theorem Backed.keep (hi : Backed ext s) (hkeys : p'.validators = s.pos.validators)
    (hvotes : ∀ v ∈ s.pos.votesIn ext actions, v ∈ s.votes ext) :
    Backed ext (s.told e p' actions) := by
  have hall : ∀ v ∈ (s.told e p' actions).votes ext, v ∈ s.votes ext :=
    fun v hv => ((mem_votes_step hkeys).1 hv).elim id (hvotes v)
  refine ⟨fun v hv w hw => hi.agree v (hall v hv) w (hall w hw), fun v hv => ?_⟩
  rcases hi.asked v (hall v hv) with ⟨x, hx, hfrom⟩
  exact ⟨x, List.mem_append_left _ hx, hfrom⟩

theorem Sole.agree (hsole : Sole ext s e) {v w : Vote} {x : Pos × Event} (hx : x ∈ s.heard)
    (hv : v.From ext x) (hw : w.From ext (s.pos, e)) (hslot : v.slotNumber = w.slotNumber) :
    v.partialBlockSigningHash = w.partialBlockSigningHash := by
  have hsame := hsole.2 w.slotNumber hw.1 x hx (hslot ▸ hv.1)
  rcases x with ⟨p, e'⟩
  unfold SameBlock at hsame
  split at hsame
  · rename_i b b' heq
    have hb := hv.2 b heq
    have hb' := hw.2 b' rfl
    rw [hsame, hb] at hb'
    exact Except.ok.inj hb'
  · cases hsame

/-- New votes for what the event asks for agree with all votes there are. -/
theorem Backed.voted (hi : Backed ext s) (hsole : Sole ext s e)
    (hkeys : p'.validators = s.pos.validators) {h : Hash}
    (hnew : ∀ v ∈ s.pos.votesIn ext actions, v.partialBlockSigningHash = h ∧
      v.From ext (s.pos, e)) : Backed ext (s.told e p' actions) := by
  refine ⟨fun v hv w hw hpk hslot => ?_, fun v hv => ?_⟩
  · rcases (mem_votes_step hkeys).1 hv with hv | hv
    · rcases hi.asked v hv with ⟨x, hx, hfrom⟩
      rcases (mem_votes_step hkeys).1 hw with hw | hw
      · exact hi.agree v hv w hw hpk hslot
      · exact hsole.agree hx hfrom (hnew w hw).2 hslot
    · rcases (mem_votes_step hkeys).1 hw with hw | hw
      · rcases hi.asked w hw with ⟨x, hx, hfrom⟩
        exact (hsole.agree hx hfrom (hnew v hv).2 hslot.symm).symm
      · exact (hnew v hv).1.trans (hnew w hw).1.symm
  · rcases (mem_votes_step hkeys).1 hv with hv | hv
    · rcases hi.asked v hv with ⟨x, hx, hfrom⟩
      exact ⟨x, List.mem_append_left _ hx, hfrom⟩
    · exact ⟨_, List.mem_append_right _ (List.mem_singleton.2 rfl), (hnew v hv).2⟩

theorem Faithful.of_none (hi : Backed ext s) (hnone : s.pos.proposal = none) : Faithful ext s :=
  ⟨hi, fun _ hb => (nomatch hnone.symm.trans hb), fun _ hb => (nomatch hnone.symm.trans hb)⟩

theorem Faithful.same (hi : Faithful ext s)
    (hkeys : p'.validators = s.pos.validators) (hvotes : ∀ a ∈ actions, a.votes ext.toCrypto = [])
    (hblock : p'.blockBeingAttested = s.pos.blockBeingAttested)
    (hv : p'.slotValidatorsMetaData = s.pos.slotValidatorsMetaData)
    (hattestations : p'.attestations = s.pos.attestations) :
    Faithful ext (s.told e p' actions) := by
  have hproposal : p'.proposal = s.pos.proposal := by
    unfold Pos.proposal Pos.proposedHere
    rw [hblock, hkeys]
  refine ⟨hi.keep hkeys (fun v hnew => ?_), ?_, ?_⟩
  · rcases mem_votesIn.1 hnew with ⟨⟨a, ha, hva⟩, -⟩
    rw [hvotes a ha] at hva
    cases hva
  · intro b hb v hvb hown
    exact (mem_votes_step hkeys).2 (.inl (hi.proposal b (hproposal ▸ hb) v hvb (hkeys ▸ hown)))
  · intro b hb v hvs pk d hpk hd
    have hsettled := hi.settled b (hproposal ▸ hb) v (hv ▸ hvs) pk d hpk (hkeys ▸ hd)
    exact hattestations.symm ▸ hsettled

theorem mem_votes_of_sent {v : Vote} {txs : List Transaction} {sent : List Action}
    (hsent : ∀ a ∈ sent, ∀ v ∈ a.votes ext.toCrypto, v ∈ b.votes ext.toCrypto)
    (hv : v ∈ p.votesIn ext (txs.map .took ++ sent)) : v ∈ b.votes ext.toCrypto := by
  rcases mem_votesIn.1 hv with ⟨⟨a, ha, hva⟩, -⟩
  rcases List.mem_append.1 ha with ha | ha
  · rcases List.mem_map.1 ha with ⟨tx, -, rfl⟩
    cases hva
  · exact hsent a ha v hva

theorem Backed.minted {m : Minting} {sent : List Action} (hi : Backed ext s)
    (hkeys : p'.validators = s.pos.validators) (hnone : s.pos.proposal = none)
    (hsole : Sole ext s (.tick now time)) (hm : Minted ext s.pos now time m)
    (hsent : ∀ a ∈ sent, ∀ v ∈ a.votes ext.toCrypto, v ∈ m.block.votes ext.toCrypto) :
    Backed ext (s.told (.tick now time) p' (m.txs.map .took ++ sent)) := by
  cases hhash : m.block.partialBlockSigningHash ext.toCrypto with
  | error f =>
    refine hi.keep hkeys (fun v hv => ?_)
    have hblock := mem_votes.1 (mem_votes_of_sent hsent hv)
    cases hhash.symm.trans hblock.1
  | ok h =>
    refine hi.voted hsole hkeys (h := h) (fun v hv => ?_)
    have hblock := mem_votes.1 (mem_votes_of_sent hsent hv)
    refine ⟨Except.ok.inj (hblock.1.symm.trans hhash), ⟨hnone, hm.leads, ?_⟩,
      fun b hb => (nomatch hb)⟩
    rw [hblock.2.1, hm.slotNumber]

theorem vote_of_attestReceived {state : Option StateDB} {proposer : List UInt8}
    {h : Hash} {ds : List Dilithium} {v : Vote}
    (hactions : ds.mapM (Pos.attestReceived ext b state proposer h) = .ok actions)
    (hv : v ∈ p.votesIn ext actions) :
    v.slotNumber = b.slotNumber ∧ v.partialBlockSigningHash = h := by
  rcases mem_votesIn.1 hv with ⟨⟨a, ha, hva⟩, -⟩
  rcases exists_of_mem_mapM hactions ha with ⟨d, -, hd⟩
  rcases bind_eq_ok.1 hd with ⟨nonce, -, hd⟩
  rcases bind_eq_ok.1 hd with ⟨tx, -, hd⟩
  cases hd
  cases List.mem_singleton.1 hva
  exact ⟨rfl, rfl⟩

theorem isAttestor_of_validate {c : Chain} {v : SlotValidatorsMetaData} {h : Hash}
    {slot parentSlot : UInt64} {state : StateDB}
    (hvalid : c.validateAttestTransaction ext tx v h slot parentSlot = .ok state) :
    v.IsAttestor tx.pk := by
  unfold Chain.validateAttestTransaction at hvalid
  rcases bind_eq_ok.1 hvalid with ⟨s₀, -, hvalid⟩
  exact (validateAttestTx_of_ok hvalid).2.2.2.2.1

theorem Faithful.handled (hi : Faithful ext s) (hsole : Sole ext s e)
    (h : Handled ext s.pos e p' actions) : Faithful ext (s.told e p' actions) := by
  have hnil : ∀ a ∈ ([] : List Action), a.votes ext.toCrypto = [] := fun _ ha => nomatch ha
  cases h with
  | ignored => exact hi.same rfl hnil rfl rfl rfl
  | idle hnone =>
    exact .of_none (hi.keep rfl (fun v hv => nomatch hv)) (Pos.proposal_of_none rfl)
  | @minted now time m b added chain hnone hm hall hsign hadd =>
    rcases hm.first with ⟨tx, rest, hfirst, hpk⟩
    refine .of_none (hi.minted rfl hnone hsole hm ?_) (Pos.proposal_of_none rfl)
    intro a ha v hv
    cases added with
    | false => cases ha
    | true =>
      rcases List.mem_cons.1 ha with rfl | ha
      · cases hv
      · cases List.mem_singleton.1 ha
        exact (mem_votes_signByProposer hfirst hpk hsign).1 hv
  | @sentOut now time m hash hnone hm hsome hhash =>
    have hsent : ∀ a ∈ [Action.broadcastBlockForAttestation m.block (m.d.sign hash)],
        ∀ v ∈ a.votes ext.toCrypto, v ∈ m.block.votes ext.toCrypto := by
      intro a ha v hv
      cases List.mem_singleton.1 ha
      exact hv
    refine ⟨hi.minted rfl hnone hsole hm hsent, ?_, ?_⟩
    · intro b hb v hv hown
      cases (Pos.blockBeingAttested_of_proposal hb).1
      refine (mem_votes_step ?_).2 (.inr (mem_votesIn.2
        ⟨⟨.broadcastBlockForAttestation m.block (m.d.sign hash), ?_, hv⟩, hown⟩))
      · rfl
      · exact List.mem_append_right _ (List.mem_singleton.2 rfl)
    · -- The attestors of the slot whose keys are here have just had their turn.
      intro b hb v hv pk d hpk hd
      cases hv
      exact hm.attestedBy.here pk (hm.mem_attestors hpk) d hd
  | @«sealed» now time b b' d tx rest added chain hproposal hfirst hkey hmany hsign hadd =>
    refine .of_none (hi.keep rfl (fun v hv => ?_)) (Pos.proposal_of_none rfl)
    rcases mem_votesIn.1 hv with ⟨⟨a, ha, hva⟩, hown⟩
    refine hi.proposal b hproposal v ?_ hown
    rcases List.mem_append.1 ha with ha | ha
    · cases added with
      | false => cases ha
      | true =>
        cases List.mem_singleton.1 ha
        cases hva
    · cases List.mem_singleton.1 ha
      exact (mem_votes_signByProposer hfirst (Keyring.get_eq_some hkey).2.symm hsign).1 hva
  | givenUp hproposal halone hback =>
    exact .of_none (hi.keep rfl (fun v hv => nomatch hv)) (Pos.proposal_of_none rfl)
  | @attested b bm v tx rest hash state _ hhead hslot hfirst hv hleader hhash hactions =>
    refine .of_none (hi.voted hsole rfl (h := hash) (fun w hw => ?_)) ?_
    · rcases vote_of_attestReceived hactions hw with ⟨hwslot, hwhash⟩
      refine ⟨hwhash, ⟨hhead, hslot, hwslot.symm⟩, fun b' hb' => ?_⟩
      cases hb'
      exact hwhash ▸ hhash
    · unfold Pos.proposal
      rw [Option.filter_eq_none_iff]
      intro b' hb'
      cases hb'
      change ¬s.pos.proposedHere b = true
      rw [hsole.1 b rfl]
      exact Bool.false_ne_true
  | @collected tx b b' parentBlock v hash state hblock hhash hv hvalid hnew hadd =>
    -- A proposal stays one: its first protocol transaction is what it was.
    have hbefore : ∀ x, Pos.proposal { s.pos with
        blockBeingAttested := some b', attestations := s.pos.attestations ++ [tx] } = some x →
        x = b' ∧ s.pos.proposal = some b := by
      intro x hx
      rcases Pos.blockBeingAttested_of_proposal hx with ⟨hx', hhere⟩
      cases hx'
      refine ⟨rfl, Pos.proposal_of_here hblock ?_⟩
      rcases addAttestTx_of_ok hadd with ⟨⟨first, rest, hpts⟩, rfl | rfl⟩
      · exact hhere
      · unfold Pos.proposedHere at hhere ⊢
        rw [hpts] at hhere ⊢
        exact hhere
    refine ⟨hi.keep rfl (fun w hw => nomatch hw), ?_, ?_⟩
    · intro x hx w hw hown
      rcases hbefore x hx with ⟨rfl, hproposal⟩
      refine (mem_votes_step ?_).2 (.inl ?_)
      · rfl
      rcases mem_votes_addAttestTx hadd hw with hw | hpk
      · exact hi.proposal b hproposal w hw hown
      · -- The new attestation is of no key of this node: those have all attested.
        rcases Option.isSome_iff_exists.1 hown with ⟨d, hd⟩
        rw [hpk] at hd
        rcases hi.settled b hproposal v hv tx.pk d (isAttestor_of_validate hvalid) hd with
          ⟨a, ha, hapk⟩
        exact absurd hapk (hnew a ha)
    · intro x hx v' hv' pk d hpk hd
      rcases hbefore x hx with ⟨rfl, hproposal⟩
      rcases hi.settled b hproposal v' hv' pk d hpk hd with ⟨a, ha, hapk⟩
      exact ⟨a, List.mem_append_left _ ha, hapk⟩
  | @chainMoved time b added chain hadd =>
    refine hi.same rfl ?_ rfl rfl rfl
    intro a ha
    cases added with
    | false => cases ha
    | true =>
      cases List.mem_singleton.1 ha
      rfl
  | pooled hadd => exact hi.same rfl hnil rfl rfl rfl

end Steps

/-- A node that is asked for no second block of a slot never attests two blocks of one slot with
    one key, over any run from its start. -/
theorem votes_agree {enableStaking : Bool} {validators : Keyring} {chain : Chain}
    {txPool : TransactionPool} (hrun : Session.Run ext (Sole ext)
      { pos := newPos enableStaking validators chain txPool, heard := [], log := [] } s) :
    Agree (s.votes ext) := by
  refine (hrun.invariant (Faithful ext) ?_ (.of_none ⟨?_, ?_⟩ rfl)).agree
  · intro s₁ s₂ hi hstep
    cases hstep with
    | event hP h => exact hi.handled hP (handled_of_handle h)
  · exact fun v hv => absurd hv List.not_mem_nil
  · exact fun v hv => absurd hv List.not_mem_nil

section Committee

def toyCommittee : List PublicKey :=
  (List.range 102).map (fun i => (toyKey (UInt8.ofNat (i + 1))).pk)

/-- The records of genesis in such a network, written as genesis writes them. Nobody
    holds a balance; nothing below reads one. Slot 1 is led by key 2, and key 102 is the
    one to attest it. -/
def toyCommitteeNode : Go Chain := do
  let db := genesisPreStore toyGenesis
  let e ← (EpochMetaData.new 0 toyGenesis.parentHash toyCommittee).allotSlots toyExternals 0 0
    toyGenesis.parentHash
  let ctx ← StateContext.new db 0 toyGenesis.parentHash toyGenesis.hash zeroHash zeroHash e
  let (_, db) ← commit ctx toyGenesis [] [] zeroHash true db
  pure { db := db, tries := AssocMap.empty, lastBlock := toyGenesis }

def toyAttestor : Keyring :=
  { keys := [toyKey 102]
    sized := fun d hd => by
      rw [List.mem_singleton.1 hd]
      exact congrArg (fun n => n + 1) List.length_replicate
    nodup := List.nodup_singleton _ }

def toyAttestorNode (chain : Chain) : Session :=
  { pos := newPos true toyAttestor chain createTransactionPool, heard := [], log := [] }

def toyProposal (gasLimit : UInt64) : Block :=
  let b := newBlock 0 1663120366 (toyKey 2).pk 1 toyGenesis.hash [] [] 0
  { b with header := { b.header with gasLimit := gasLimit } }

/-- The slot an event can ask for, by itself. -/
def Event.slot : Event → Option UInt64
  | .tick now _ => some (getCurrentSlot now)
  | .blockReceivedForAttestation b => some b.slotNumber
  | _ => none

theorem Asks.slot_eq {e : Event} {slot : UInt64} (h : Asks ext p e slot) : e.slot = some slot := by
  cases e with
  | tick | blockReceivedForAttestation => exact congrArg some h.2.2
  | attestationReceivedForBlock | addBlock | addTransaction => cases h

/-- `Sole`, computed, with every tick held to what a minting one is. -/
def sole (ext : Externals) (s : Session) (e : Event) : Bool :=
  (match e with
    | .blockReceivedForAttestation b => !s.pos.proposedHere b
    | _ => true) &&
  s.heard.all (fun x => decide (x.2.slot ≠ e.slot) || match x.2, e with
    | .blockReceivedForAttestation b, .blockReceivedForAttestation b' =>
      decide (b'.partialBlockSigningHash ext.toCrypto = b.partialBlockSigningHash ext.toCrypto)
    | _, _ => false)

theorem sole_of_test (ext : Externals) (s : Session) (e : Event) (h : sole ext s e = true) :
    Sole ext s e := by
  rcases Bool.and_eq_true_iff.1 h with ⟨hforeign, hheard⟩
  refine ⟨fun b hb => ?_, fun slot hasks x hx hasked => ?_⟩
  · subst hb
    exact Bool.not_eq_true' _ ▸ hforeign
  · rcases Bool.or_eq_true_iff.1 (List.all_eq_true.1 hheard x hx) with hslot | hsame
    · exact absurd (hasked.slot_eq.trans hasks.slot_eq.symm) (of_decide_eq_true hslot)
    · unfold SameBlock
      split at hsame
      · exact of_decide_eq_true hsame
      · cases hsame

theorem exists_attestorRun {P : Session → Event → Prop} (test : Session → Event → Bool)
    (htest : ∀ s e, test s e = true → P s e) (es : List Event) (goal : Session → Bool)
    (h : (toyCommitteeNode >>= fun chain =>
      Session.events toyExternals test es (toyAttestorNode chain) >>= fun r =>
        pure (r.1 && goal r.2)) = .ok true) :
    ∃ chain s, toyCommitteeNode = .ok chain ∧
      Session.Run toyExternals P (toyAttestorNode chain) s ∧ goal s = true := by
  rcases bind_eq_ok.1 h with ⟨chain, hchain, h⟩
  rcases bind_eq_ok.1 h with ⟨⟨passed, s⟩, hevents, h⟩
  simp only [pure_eq_ok, Bool.and_eq_true] at h
  rcases h with ⟨rfl, hgoal⟩
  exact ⟨chain, s, hchain, Session.run_of_events htest hevents, hgoal⟩

/-- The leader of slot 1 sends its block, and after a tick in slot 2 sends it once more: there are
    two votes. -/
theorem toyRun_votes_agree : ∃ chain s, toyCommitteeNode = .ok chain ∧
    Session.Run toyExternals (Sole toyExternals) (toyAttestorNode chain) s ∧
    (s.votes toyExternals).length = 2 ∧ Agree (s.votes toyExternals) := by
  have hrun := exists_attestorRun (sole toyExternals) (sole_of_test toyExternals)
    [.blockReceivedForAttestation (toyProposal 1000), .tick 1663120426 1663120426,
      .blockReceivedForAttestation (toyProposal 1000)]
    (fun s => decide ((s.votes toyExternals).length = 2)) (by decide +kernel)
  rcases hrun with ⟨chain, s, hchain, hrun, hlength⟩
  exact ⟨chain, s, hchain, hrun, of_decide_eq_true hlength, votes_agree hrun⟩

/-- The leader of slot 1 sends a block, the timer goes off, the leader sends another
    block of the same slot: the attestor has attested both. -/
theorem equivocation : ∃ chain s, toyCommitteeNode = .ok chain ∧
    Session.Run toyExternals (fun _ _ => True) (toyAttestorNode chain) s ∧
    ∃ v ∈ s.votes toyExternals, ∃ w ∈ s.votes toyExternals, v.pk = w.pk ∧
      v.slotNumber = w.slotNumber ∧ v.partialBlockSigningHash ≠ w.partialBlockSigningHash := by
  have hrun := exists_attestorRun (P := fun _ _ => True) (fun _ _ => true)
    (fun _ _ _ => trivial)
    [.blockReceivedForAttestation (toyProposal 1000), .tick 1663120376 1663120376,
      .blockReceivedForAttestation (toyProposal 2000)]
    (fun s => decide (∃ v ∈ s.votes toyExternals, ∃ w ∈ s.votes toyExternals, v.pk = w.pk ∧
      v.slotNumber = w.slotNumber ∧ v.partialBlockSigningHash ≠ w.partialBlockSigningHash))
    (by decide +kernel)
  rcases hrun with ⟨chain, s, hchain, hrun, hgoal⟩
  exact ⟨chain, s, hchain, hrun, of_decide_eq_true hgoal⟩

end Committee

end Zond
