import Zond.Core.PeersFile
import Zond.Lib.Outcome

/-!
# The List of Peers

An address of another shape than the seven parts `NewPeerInfo` expects has no identity,
and the nil in its place is a panic as soon as it is compared or saved. Only a list that
is empty compares it with nothing.

## Main definitions

* `identity?`: What a peer is known by, the last part of its address.
* `Effect`: A call moves or removes one identity and leaves the others where they are.

## Theorems

* `PeerData.peerList_integrity`: An identity stays in one place only.
* `PeerData.load_save_iff`: What is saved is not loaded: the writer and the reader of the file
  do not agree on the name of either list.
-/

namespace Zond

open Outcome

variable {multiAddr : List Char} {time : UInt64}

inductive PeerCall where
  | addConnected (multiAddr : List Char) (time : UInt64)
  | addDisconnected (multiAddr : List Char) (time : UInt64)
  | remove (multiAddr : List Char) (time : UInt64)
  | isInList (multiAddr : List Char)

namespace PeerData

/-- The identity of an address, if it is well formed. -/
def identity? (multiAddr : List Char) : Option (List Char) :=
  (newPeerInfo multiAddr 0).map (·.identity)

theorem newPeerInfo_of_identity? {i : List Char} (h : identity? multiAddr = some i)
    (time : UInt64) : ∃ info, newPeerInfo multiAddr time = some info ∧ info.identity = i := by
  unfold identity? newPeerInfo at *
  split at h
  · rw [Option.map_some, Option.some_inj] at h
    exact ⟨_, rfl, h⟩
  · cases h

theorem newPeerInfo_of_malformed (h : identity? multiAddr = none)
    (time : UInt64) : newPeerInfo multiAddr time = none := by
  unfold identity? newPeerInfo at *
  split at h
  · cases h
  · rfl

/-- No peer occurs twice over the two lists. -/
def Unique (d : PeerData) : Prop :=
  ((d.connectedPeers ++ d.disconnectedPeers).map (·.identity)).Nodup

def others (i : List Char) (peers : List PeerInfo) : List PeerInfo :=
  peers.filter (fun other => other.identity ≠ i)

def call (bootstrapNodes : List (List Char)) (d : PeerData) : PeerCall → Go PeerData
  | .addConnected multiAddr time => d.addConnectedPeers multiAddr time
  | .addDisconnected multiAddr time => d.addDisconnectedPeers multiAddr time
  | .remove multiAddr time => d.removePeer bootstrapNodes multiAddr time
  | .isInList multiAddr => do
      let _ ← d.isPeerInList multiAddr
      return d

/-- The address is well formed or, where a call only looks for it, it is looked for in
    empty lists or not looked for at all. -/
def Accepts (bootstrapNodes : List (List Char)) (d : PeerData) : PeerCall → Prop
  | .addConnected multiAddr _ | .addDisconnected multiAddr _ => (identity? multiAddr).isSome = true
  | .remove multiAddr _ => (identity? multiAddr).isSome = true ∨ multiAddr ∈ bootstrapNodes ∨
      (d.connectedPeers = [] ∧ d.disconnectedPeers = [])
  | .isInList multiAddr => (identity? multiAddr).isSome = true ∨
      (d.connectedPeers = [] ∧ d.disconnectedPeers = [])

/-- Both lists hold the same peers as before, except for identity `i`. -/
def SameOthers (i : List Char) (d d' : PeerData) : Prop :=
  others i d'.connectedPeers = others i d.connectedPeers ∧
    others i d'.disconnectedPeers = others i d.disconnectedPeers

/-- What a call does to the lists, by the identity of its address. -/
def Effect (bootstrapNodes : List (List Char)) (d d' : PeerData) : PeerCall → Prop
  | .addConnected multiAddr _ => ∃ i, identity? multiAddr = some i ∧ SameOthers i d d' ∧
      i ∈ d'.connectedPeers.map (·.identity) ∧ i ∉ d'.disconnectedPeers.map (·.identity)
  | .addDisconnected multiAddr _ => ∃ i, identity? multiAddr = some i ∧ SameOthers i d d' ∧
      i ∈ d'.disconnectedPeers.map (·.identity) ∧ i ∉ d'.connectedPeers.map (·.identity)
  | .remove multiAddr _ =>
    (multiAddr ∈ bootstrapNodes ∨ identity? multiAddr = none → d' = d) ∧
    (multiAddr ∉ bootstrapNodes → ∀ i, identity? multiAddr = some i → SameOthers i d d' ∧
      i ∉ d'.connectedPeers.map (·.identity) ∧ i ∉ d'.disconnectedPeers.map (·.identity))
  | .isInList _ => d' = d

section Without

variable {info : PeerInfo} {peers : List PeerInfo}

theorem others_without : others info.identity (without info peers) = others info.identity peers := by
  induction peers with
  | nil => rfl
  | cons p peers ih =>
    unfold without others at *
    by_cases hp : info.identity = p.identity
    · simp [hp]
    · simpa [List.filter_cons, hp, Ne.symm hp] using ih

theorem not_mem_without (h : (peers.map (·.identity)).Nodup) :
    info.identity ∉ (without info peers).map (·.identity) := by
  induction peers with
  | nil => exact List.not_mem_nil
  | cons p peers ih =>
    rw [List.map_cons, List.nodup_cons] at h
    unfold without at *
    by_cases hp : info.identity = p.identity
    · simp only [List.eraseP_cons, hp, decide_true, cond_true]
      exact h.1
    · simp only [List.eraseP_cons, hp, decide_false, cond_false, List.map_cons, List.mem_cons,
        false_or]
      exact ih h.2

theorem known_iff : Known info peers ↔ info.identity ∈ peers.map (·.identity) := by
  simp only [Known, List.mem_map]
  exact exists_congr fun p => and_congr_right fun _ => eq_comm

theorem nodup_without (h : (peers.map (·.identity)).Nodup) :
    ((without info peers).map (·.identity)).Nodup :=
  h.sublist ((List.eraseP_sublist).map _)

end Without

/-- Two lists without a common identity, and none twice in one of them. -/
structure Apart (peers rest : List PeerInfo) : Prop where
  left : (peers.map (·.identity)).Nodup
  right : (rest.map (·.identity)).Nodup
  disjoint : ∀ i ∈ peers.map (·.identity), i ∉ rest.map (·.identity)

theorem unique_iff {d : PeerData} : d.Unique ↔ Apart d.connectedPeers d.disconnectedPeers := by
  unfold Unique
  rw [List.map_append, List.nodup_append']
  exact ⟨fun ⟨hl, hr, hd⟩ => ⟨hl, hr, fun _ hi hi' => hd hi hi'⟩,
    fun h => ⟨h.left, h.right, fun _ hi hi' => h.disjoint _ hi hi'⟩⟩

namespace Apart

variable {peers peers' rest : List PeerInfo} {info : PeerInfo}

theorem symm (h : Apart peers rest) : Apart rest peers :=
  ⟨h.right, h.left, fun i hi hi' => h.disjoint i hi' hi⟩

theorem without (h : Apart peers rest) : Apart (without info peers) (without info rest) :=
  ⟨nodup_without h.left, nodup_without h.right, fun i hi hi' =>
    h.disjoint i ((List.eraseP_sublist.map _).subset hi) ((List.eraseP_sublist.map _).subset hi')⟩

theorem move (h : Apart peers rest) (hnodup : (peers'.map (·.identity)).Nodup)
    (hgains : ∀ i ∈ peers'.map (·.identity), i ∈ peers.map (·.identity) ∨ i = info.identity) :
    Apart peers' (PeerData.without info rest) := by
  refine ⟨hnodup, nodup_without h.right, fun i hi hi' => ?_⟩
  rcases hgains i hi with hold | rfl
  · exact h.disjoint i hold ((List.eraseP_sublist.map _).subset hi')
  · exact not_mem_without h.right hi'

theorem add (h : Apart peers rest) (hperm : peers'.Perm (info :: peers)) :
    let added := if Known info peers then peers else peers'
    Apart added (PeerData.without info rest) ∧ info.identity ∈ added.map (·.identity) := by
  split
  · rename_i hknown
    exact ⟨h.move h.left fun i hi => .inl hi, known_iff.1 hknown⟩
  · rename_i hnew
    have hids := hperm.map (·.identity)
    refine ⟨h.move ?_ ?_, hids.mem_iff.2 List.mem_cons_self⟩
    · exact hids.nodup_iff.2 (List.nodup_cons.2 ⟨fun hmem => hnew (known_iff.2 hmem), h.left⟩)
    · intro i hi
      exact (List.mem_cons.1 (hids.mem_iff.1 hi)).symm

end Apart

section Calls

variable {bootstrapNodes : List (List Char)} {d d' : PeerData}

theorem derefPeerInfo_eq_ok {info : PeerInfo}
    (h : derefPeerInfo multiAddr time = .ok info) : identity? multiAddr = some info.identity := by
  have hinfo := orFail_eq_ok.1 h
  cases hid : identity? multiAddr with
  | none => rw [newPeerInfo_of_malformed hid] at hinfo; cases hinfo
  | some i =>
    rcases newPeerInfo_of_identity? hid time with ⟨info', hinfo', rfl⟩
    rw [hinfo, Option.some_inj] at hinfo'
    rw [hinfo']

theorem call_addConnected (hd : d.Unique) (h : d.addConnectedPeers multiAddr time = .ok d') :
    d'.Unique ∧ Effect bootstrapNodes d d' (.addConnected multiAddr time) := by
  rcases bind_eq_ok.1 h with ⟨info, hinfo, h⟩
  cases h
  have hapart := (unique_iff.1 hd).add (List.perm_append_singleton info _)
  refine ⟨unique_iff.2 hapart.1, info.identity, derefPeerInfo_eq_ok hinfo, ⟨?_, others_without⟩,
    hapart.2, fun hmem => not_mem_without (unique_iff.1 hd).right hmem⟩
  split
  · rfl
  · simp [others]

theorem call_addDisconnected (hd : d.Unique) (h : d.addDisconnectedPeers multiAddr time = .ok d') :
    d'.Unique ∧ Effect bootstrapNodes d d' (.addDisconnected multiAddr time) := by
  rcases bind_eq_ok.1 h with ⟨info, hinfo, h⟩
  cases h
  have hapart := (unique_iff.1 hd).symm.add (.refl (info :: _))
  refine ⟨unique_iff.2 hapart.1.symm, info.identity, derefPeerInfo_eq_ok hinfo,
    ⟨others_without, ?_⟩, hapart.2, fun hmem => not_mem_without (unique_iff.1 hd).left hmem⟩
  split
  · rfl
  · simp [others]

theorem call_remove (hd : d.Unique) (h : d.removePeer bootstrapNodes multiAddr time = .ok d') :
    d'.Unique ∧ Effect bootstrapNodes d d' (.remove multiAddr time) := by
  unfold removePeer at h
  split at h
  · rename_i hboot
    cases h
    exact ⟨hd, fun _ => rfl, fun hnot => absurd hboot hnot⟩
  · rename_i hboot
    cases hid : identity? multiAddr with
    | none =>
      rw [newPeerInfo_of_malformed hid] at h
      dsimp only at h
      split at h
      · cases h
        exact ⟨hd, fun _ => rfl, fun _ i hi => by rw [hid] at hi; cases hi⟩
      · cases h
    | some i =>
      rcases newPeerInfo_of_identity? hid time with ⟨info, hinfo, rfl⟩
      rw [hinfo] at h
      cases h
      have hapart := unique_iff.1 hd
      refine ⟨unique_iff.2 hapart.without, fun hor => ?_, fun _ i hi => ?_⟩
      · rcases hor with hmem | hnone
        · exact absurd hmem hboot
        · rw [hid] at hnone
          cases hnone
      · cases hid.symm.trans hi
        exact ⟨⟨others_without, others_without⟩, not_mem_without hapart.left,
          not_mem_without hapart.right⟩

theorem unique_call {c : PeerCall} (hd : d.Unique) (h : d.call bootstrapNodes c = .ok d') :
    d'.Unique ∧ Effect bootstrapNodes d d' c := by
  cases c with
  | addConnected multiAddr time => exact call_addConnected hd h
  | addDisconnected multiAddr time => exact call_addDisconnected hd h
  | remove multiAddr time => exact call_remove hd h
  | isInList multiAddr =>
    rcases bind_eq_ok.1 h with ⟨answer, -, h⟩
    cases h
    exact ⟨hd, rfl⟩

theorem exists_derefPeerInfo_iff :
    (∃ info, derefPeerInfo multiAddr time = .ok info) ↔ (identity? multiAddr).isSome = true := by
  constructor
  · rintro ⟨info, h⟩
    rw [derefPeerInfo_eq_ok h, Option.isSome_some]
  · intro h
    rcases Option.isSome_iff_exists.1 h with ⟨i, hi⟩
    rcases newPeerInfo_of_identity? hi time with ⟨info, hinfo, -⟩
    exact ⟨info, orFail_eq_ok.2 hinfo⟩

theorem exists_of_malformed (p : Panic) (v : PeerData) :
    (∃ d' : PeerData, (if d.connectedPeers = [] ∧ d.disconnectedPeers = [] then .ok v
      else .error (.panic p) : Go PeerData) = .ok d') ↔
        d.connectedPeers = [] ∧ d.disconnectedPeers = [] := by
  split
  · rename_i h
    exact ⟨fun _ => h, fun _ => ⟨_, rfl⟩⟩
  · rename_i h
    exact ⟨fun ⟨_, h'⟩ => (nomatch h'), fun h' => absurd h' h⟩

theorem exists_call_iff {c : PeerCall} :
    (∃ d', d.call bootstrapNodes c = .ok d') ↔ d.Accepts bootstrapNodes c := by
  cases c with
  | addConnected multiAddr time =>
    rw [Accepts, ← @exists_derefPeerInfo_iff multiAddr time]
    exact ⟨fun ⟨_, h⟩ => (bind_eq_ok.1 h).imp fun _ hinfo => hinfo.1,
      fun ⟨info, h⟩ => ⟨_, bind_eq_ok.2 ⟨info, h, rfl⟩⟩⟩
  | addDisconnected multiAddr time =>
    rw [Accepts, ← @exists_derefPeerInfo_iff multiAddr time]
    exact ⟨fun ⟨_, h⟩ => (bind_eq_ok.1 h).imp fun _ hinfo => hinfo.1,
      fun ⟨info, h⟩ => ⟨_, bind_eq_ok.2 ⟨info, h, rfl⟩⟩⟩
  | remove multiAddr time =>
    simp only [call, removePeer, Accepts]
    by_cases hboot : multiAddr ∈ bootstrapNodes
    · simp [hboot]
    · cases hid : identity? multiAddr with
      | none => simp [hboot, newPeerInfo_of_malformed hid, exists_of_malformed]
      | some i =>
        rcases newPeerInfo_of_identity? hid time with ⟨info, hinfo, -⟩
        simp [hboot, hinfo]
  | isInList multiAddr =>
    simp only [call, isPeerInList, Accepts]
    cases hid : identity? multiAddr with
    | none =>
      rw [newPeerInfo_of_malformed hid]
      by_cases hempty : d.connectedPeers = [] ∧ d.disconnectedPeers = []
      · simp [hempty]
      · simp [hempty]
    | some i =>
      rcases newPeerInfo_of_identity? hid 0 with ⟨info, hinfo, -⟩
      simp [hinfo]

/-- After any calls, from lists in which no identity occurs twice, none does, a call
    returns exactly if it is accepted, and then it does what it is for. -/
theorem peerList_integrity (bootstrapNodes : List (List Char)) (d₀ d : PeerData)
    (calls : List PeerCall) (hd₀ : d₀.Unique)
    (hcalls : calls.foldlM (call bootstrapNodes) d₀ = .ok d) :
    d.Unique ∧ ∀ c, ((∃ d', d.call bootstrapNodes c = .ok d') ↔ d.Accepts bootstrapNodes c) ∧
      ∀ d', d.call bootstrapNodes c = .ok d' → Effect bootstrapNodes d d' c := by
  have hd : d.Unique :=
    foldlM_invariant Unique calls (fun _ _ _ _ hd h => (unique_call hd h).1) hd₀ hcalls
  exact ⟨hd, fun c => ⟨exists_call_iff, fun d' h => (unique_call hd h).2⟩⟩

end Calls

def toyPeer : List Char := "/ip4/10.0.0.1/tcp/9000/p2p/a".toList

/-- A peer connects and leaves. It is then among the disconnected ones, and a call with
    an address that does not parse is not accepted. -/
theorem peerList_integrity_toyPeer :
    ∃ d : PeerData, [PeerCall.addConnected toyPeer 5, .addDisconnected toyPeer 6].foldlM (call [])
        ⟨[], []⟩ = .ok d ∧
      d.Unique ∧ ¬ ∃ d', d.call [] (.isInList "a".toList) = .ok d' := by
  refine ⟨⟨[], [⟨"10.0.0.1".toList, toyPeer, "a".toList, 6⟩]⟩, rfl, ?_⟩
  have h := peerList_integrity [] ⟨[], []⟩ ⟨[], [⟨"10.0.0.1".toList, toyPeer, "a".toList, 6⟩]⟩
    [.addConnected toyPeer 5, .addDisconnected toyPeer 6] .nil rfl
  refine ⟨h.1, fun hcall => ?_⟩
  rcases (h.2 _).1.1 hcall with hsome | ⟨-, hempty⟩
  · exact absurd hsome (by decide)
  · cases hempty

/-- An address without the seven parts, as a remote peer may send it, is a panic. -/
theorem addConnected_malformed_panics :
    call [] ⟨[], []⟩ (.addConnected "a".toList 5) = .error (.panic .nilDereference) :=
  rfl

section File

theorem foldlM_peersMember (name : List Char) (peers : List PeerInfo) (pbData : PeerData)
    (hconnected : ¬ NamesField "connected_peers".toList name)
    (hdisconnected : ¬ NamesField "disconnected_peers".toList name) :
    (peersMember name peers).foldlM readPeerDataMember pbData = .ok pbData := by
  unfold peersMember
  split
  · rfl
  · rw [List.foldlM_cons, readPeerDataMember, if_neg hconnected, if_neg hdisconnected]
    rfl

theorem load_save (d : PeerData) : load d.save = .ok [] := by
  have hread : d.save.toPeerData = .ok ⟨[], []⟩ := by
    rw [save, Json.toPeerData, List.foldlM_append,
      foldlM_peersMember _ _ _ (by decide) (by decide), ok_bind,
      foldlM_peersMember _ _ _ (by decide) (by decide)]
  rw [load, hread]
  rfl

/-- `Save` and then `Load` give back the connected peers followed by the disconnected ones
    only if there are none. -/
theorem load_save_iff (d : PeerData) :
    load d.save = .ok ((d.connectedPeers ++ d.disconnectedPeers).map some) ↔
      d.connectedPeers = [] ∧ d.disconnectedPeers = [] := by
  rw [load_save, Except.ok.injEq, eq_comm, List.map_eq_nil_iff, List.append_eq_nil_iff]

/-- A connected peer is lost. -/
theorem load_save_loses_peer :
    ∃ info, newPeerInfo toyPeer 5 = some info ∧ load (save ⟨[info], []⟩) = .ok [] ∧
      load (save ⟨[info], []⟩) ≠ .ok [some info] := by
  refine ⟨_, rfl, load_save _, fun h => ?_⟩
  exact (List.cons_ne_nil _ _).symm (Except.ok.inj ((load_save _).symm.trans h))

end File

end PeerData

end Zond
