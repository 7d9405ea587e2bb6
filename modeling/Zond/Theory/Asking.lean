import Zond.Core.Downloader
import Zond.Lib.Picking

/-!
# Asking Peers for a Block

Each time `RequestForBlock` is called for a header hash the first of the peers left goes, but
the one selected stands at the slot number modulo their number.

## Main definitions

* `Requester.TakesTurns`: No peer is asked twice, and all are before the hash is given up.

## Theorems

* `peers_take_turns`: This is so exactly when the slot number is a multiple of every number up to
  that of the peers.
-/

namespace Zond

open Picking

def asksFor (index : Nat) (headerHash : List UInt8) (log : List Ask) : List Ask :=
  log.filter (fun a => a.index = index ∧ a.headerHash = headerHash)

/-- The peers to which a message was sent for a header hash of a target slot, or could not be
    sent. -/
def messaged (index : Nat) (headerHash : List UInt8) (log : List Ask) : List PeerId :=
  ((asksFor index headerHash log).filter (fun a => a.outcome ≠ .unavailable)).map Ask.peer

/-- Over a list of moves no peer is asked twice for the header hash and, where no peer is left,
    all those have been asked that are still connected. -/
def Requester.TakesTurns (r : Requester) (moves : List RequesterMove) (index : Nat)
    (headerHash : List UInt8) : Prop :=
  (messaged index headerHash (r.log moves)).Nodup ∧
    ((r.run moves).peersOf index headerHash = [] → ∀ peer ∈ r.peersOf index headerHash,
      peer ∉ (r.run moves).disconnected → peer ∈ messaged index headerHash (r.log moves))

section Moves

variable {r : Requester} {choice : RequestChoice} {a : Ask} {m : RequesterMove}

theorem ask_of_some (h : r.ask choice = some a) :
    (∃ rest, r.scan = .peers a.index a.headerHash rest) ∧
      (r.peersOf a.index a.headerHash)[(r.slotNumberOf a.index).toNat %
        (r.peersOf a.index a.headerHash).length]? = some a.peer ∧
      (a.outcome = .unavailable → a.peer ∈ r.disconnected) := by
  unfold Requester.ask at h
  split at h
  · rename_i index headerHash rest hscan
    rcases Option.map_eq_some_iff.1 h with ⟨peer, hpeer, rfl⟩
    refine ⟨⟨rest, hscan⟩, hpeer, fun hout => ?_⟩
    by_contra hnot
    rw [if_neg hnot] at hout
    split at hout
    · cases hout
    · cases hout
  · cases h

theorem targets_move : (r.move m).targetSlotNumbers = (r.asked m).elim r.targetSlotNumbers
    (fun a => r.targetSlotNumbers.modify a.index (fun info => info.dropFirst a.headerHash)) := by
  cases m with
  | call nextIndexForRequest =>
    show (r.call nextIndexForRequest).targetSlotNumbers = _
    unfold Requester.call
    split
    · rfl
    · rfl
  | gain h => rfl
  | disconnect peer => rfl
  | step choice =>
    show (r.step choice).targetSlotNumbers
      = (r.ask choice).elim r.targetSlotNumbers (fun a => r.targetSlotNumbers.modify a.index
        (fun info => info.dropFirst a.headerHash))
    cases hask : r.ask choice with
    | some a =>
      rcases ask_of_some hask with ⟨⟨rest, hscan⟩, -, -⟩
      unfold Requester.step
      rw [hscan]
      rw [hask]
      rfl
    | none =>
      unfold Requester.step
      split
      · split
        · rfl
        · rfl
      · rfl
      · split
        · rfl
        · rfl
      · rw [hask]
        rfl
      · rfl
      · rfl

theorem peersOf_dropFirst (info : HashesAndPeerInfo) (headerHash headerHash' : List UInt8) :
    (info.dropFirst headerHash).peersOf headerHash' =
      if headerHash = headerHash' then (info.peersOf headerHash').tail
      else info.peersOf headerHash' := by
  show ((info.peerByBlockHash.put headerHash _).get headerHash').getD [] = _
  rw [AssocMap.get_put]
  by_cases h : headerHash = headerHash'
  · rw [if_pos h, if_pos h, h]
    rfl
  · rw [if_neg h, if_neg h]
    rfl

theorem slotNumberOf_move (r : Requester) (m : RequesterMove) (index : Nat) :
    (r.move m).slotNumberOf index = r.slotNumberOf index := by
  unfold Requester.slotNumberOf
  rw [targets_move]
  cases r.asked m with
  | none => rfl
  | some a =>
    show (((r.targetSlotNumbers.modify a.index _)[index]?).elim 0 _ : UInt64) = _
    rw [List.getElem?_modify]
    cases r.targetSlotNumbers[index]? with
    | none => rfl
    | some info =>
      show HashesAndPeerInfo.slotNumber (if a.index = index then _ else info) = info.slotNumber
      split
      · rfl
      · rfl

theorem peersOf_move (r : Requester) (m : RequesterMove) (index : Nat) (headerHash : List UInt8) :
    (r.move m).peersOf index headerHash =
      if ∃ a ∈ r.asked m, a.index = index ∧ a.headerHash = headerHash
      then (r.peersOf index headerHash).tail else r.peersOf index headerHash := by
  unfold Requester.peersOf
  rw [targets_move]
  cases hasked : r.asked m with
  | none => rw [if_neg (fun ⟨_, ha, _⟩ => (nomatch ha))]; rfl
  | some a =>
    show ((r.targetSlotNumbers.modify a.index _)[index]?).elim [] _ = _
    rw [List.getElem?_modify]
    cases r.targetSlotNumbers[index]? with
    | none => exact (ite_self _).symm
    | some info =>
      show HashesAndPeerInfo.peersOf (if a.index = index then info.dropFirst a.headerHash
        else info) headerHash = if _ then (info.peersOf headerHash).tail
        else info.peersOf headerHash
      by_cases hindex : a.index = index
      · rw [if_pos hindex, peersOf_dropFirst]
        refine if_congr ⟨fun h => ⟨a, rfl, hindex, h⟩, ?_⟩ rfl rfl
        rintro ⟨a', ha', -, h⟩
        cases ha'
        exact h
      · rw [if_neg hindex, if_neg]
        rintro ⟨a', ha', hindex', -⟩
        cases ha'
        exact hindex hindex'

theorem disconnected_step (r : Requester) (choice : RequestChoice) :
    (r.step choice).disconnected = r.disconnected := by
  unfold Requester.step
  split
  · split
    · rfl
    · rfl
  · rfl
  · split
    · rfl
    · rfl
  · split
    · rfl
    · rfl
  · rfl
  · rfl

theorem disconnected_move (r : Requester) (m : RequesterMove) :
    r.disconnected ⊆ (r.move m).disconnected := by
  cases m with
  | step choice => exact (disconnected_step r choice).symm ▸ List.Subset.refl _
  | call nextIndexForRequest =>
    show r.disconnected ⊆ (r.call nextIndexForRequest).disconnected
    unfold Requester.call
    split
    · exact List.Subset.refl _
    · exact List.Subset.refl _
  | gain h => exact List.Subset.refl _
  | disconnect peer => exact List.subset_cons_self _ _

theorem disconnected_run (r : Requester) (moves : List RequesterMove) :
    r.disconnected ⊆ (r.run moves).disconnected := by
  induction moves generalizing r with
  | nil => exact List.Subset.refl _
  | cons m moves ih => exact List.Subset.trans (disconnected_move r m) (ih (r.move m))

end Moves

section Runs

variable {index : Nat} {headerHash : List UInt8}

theorem asksFor_log (r : Requester) (moves : List RequesterMove) :
    (r.run moves).peersOf index headerHash
        = (r.peersOf index headerHash).drop (asksFor index headerHash (r.log moves)).length ∧
      (asksFor index headerHash (r.log moves)).map Ask.peer
        = (picks (fun k => (r.slotNumberOf index).toNat % k) (r.peersOf index headerHash)).take
          (asksFor index headerHash (r.log moves)).length := by
  induction moves generalizing r with
  | nil => exact ⟨rfl, rfl⟩
  | cons m moves ih =>
    rcases ih (r.move m) with ⟨hleft, hpeers⟩
    rw [slotNumberOf_move, peersOf_move] at hpeers
    rw [peersOf_move] at hleft
    have hlog : asksFor index headerHash (r.log (m :: moves))
        = asksFor index headerHash (r.asked m).toList ++
          asksFor index headerHash ((r.move m).log moves) := List.filter_append ..
    by_cases hone : ∃ a ∈ r.asked m, a.index = index ∧ a.headerHash = headerHash
    · rw [if_pos hone] at hleft hpeers
      rcases hone with ⟨a, ha, hindex, hhash⟩
      have hfirst : asksFor index headerHash (r.asked m).toList = [a] := by
        rw [ha]
        exact List.filter_cons_of_pos (decide_eq_true ⟨hindex, hhash⟩)
      have hpeer : (r.peersOf index headerHash)[(r.slotNumberOf index).toNat %
          (r.peersOf index headerHash).length]? = some a.peer := by
        cases m with
        | step choice =>
          have hsome := (ask_of_some ha).2.1
          rw [hindex, hhash] at hsome
          exact hsome
        | call | gain | disconnect => cases ha
      rw [hlog, hfirst, List.singleton_append, List.length_cons, List.map_cons]
      cases hpeersOf : r.peersOf index headerHash with
      | nil =>
        rw [hpeersOf] at hpeer
        cases hpeer
      | cons first rest =>
        rw [hpeersOf] at hpeer hleft hpeers
        refine ⟨hleft, ?_⟩
        rw [picks, List.take_succ_cons, hpeers]
        rw [List.length_cons] at hpeer
        rw [hpeer]
        rfl
    · rw [if_neg hone] at hleft hpeers
      have hfirst : asksFor index headerHash (r.asked m).toList = [] := by
        refine List.filter_eq_nil_iff.2 (fun a ha hmatch => hone ⟨a, ?_, of_decide_eq_true hmatch⟩)
        exact Option.mem_toList.1 ha
      rw [hlog, hfirst, List.nil_append]
      exact ⟨hleft, hpeers⟩

theorem disconnected_of_unavailable {a : Ask} (r : Requester) (moves : List RequesterMove)
    (ha : a ∈ r.log moves) (hout : a.outcome = .unavailable) :
    a.peer ∈ (r.run moves).disconnected := by
  induction moves generalizing r with
  | nil => cases ha
  | cons m moves ih =>
    rcases List.mem_append.1 ha with ha | ha
    · refine disconnected_run (r.move m) moves (disconnected_move r m ?_)
      cases m with
      | step choice => exact (ask_of_some (Option.mem_toList.1 ha)).2.2 hout
      | call | gain | disconnect => cases ha
    · exact ih (r.move m) ha

theorem takesTurns_of_front (r : Requester) (moves : List RequesterMove)
    (hdistinct : (r.peersOf index headerHash).Nodup)
    (hfront : ∀ k, 0 < k → k ≤ (r.peersOf index headerHash).length →
      (r.slotNumberOf index).toNat % k = 0) : r.TakesTurns moves index headerHash := by
  rcases @asksFor_log index headerHash r moves with ⟨hleft, hpeers⟩
  rw [picks_eq_self hfront] at hpeers
  have hsub : (messaged index headerHash (r.log moves)).Sublist (r.peersOf index headerHash) := by
    refine (List.filter_sublist.map Ask.peer).trans ?_
    rw [hpeers]
    exact List.take_sublist _ _
  refine ⟨hdistinct.sublist hsub, fun hnone peer hpeer hconnected => ?_⟩
  -- No peer is left, so all have been selected.
  rw [hleft] at hnone
  rw [List.take_of_length_le (List.drop_eq_nil_iff.1 hnone)] at hpeers
  rw [← hpeers] at hpeer
  rcases List.mem_map.1 hpeer with ⟨a, ha, rfl⟩
  refine List.mem_map.2 ⟨a, List.mem_filter.2 ⟨ha, decide_eq_true (fun hout => hconnected ?_)⟩, rfl⟩
  exact disconnected_of_unavailable r moves (List.mem_filter.1 ha).1 hout

theorem log_append (r : Requester) (moves moves' : List RequesterMove) :
    r.log (moves ++ moves') = r.log moves ++ (r.run moves).log moves' := by
  induction moves generalizing r with
  | nil => rfl
  | cons m moves ih =>
    rw [List.cons_append, Requester.log, Requester.log, ih (r.move m), List.append_assoc]
    rfl

/-- The steps of a call that comes to the header hash first and can send. -/
def askingCall (index : Nat) (headerHash : List UInt8) (info : HashesAndPeerInfo) :
    List RequesterMove :=
  let choice : RequestChoice :=
    { order := headerHash :: info.hashes.erase headerHash, sendFails := false }
  [.step choice, .step choice, .step choice, .step choice, .call index]

theorem run_askingCall {targets : List HashesAndPeerInfo} {info : HashesAndPeerInfo}
    {first : PeerId} {rest : List PeerId} (hinfo : targets[index]? = some info)
    (hmem : headerHash ∈ info.hashes) (hpeers : info.peersOf headerHash = first :: rest) :
    let r : Requester :=
      { targetSlotNumbers := targets, known := [], disconnected := [], scan := .slot index }
    (∃ peer, r.log (askingCall index headerHash info) = [⟨index, headerHash, peer, .sent⟩]) ∧
      r.run (askingCall index headerHash info) =
        { r with
          targetSlotNumbers := targets.modify index (fun info => info.dropFirst headerHash) } := by
  intro r
  have horder : Requester.rangeOver (headerHash :: info.hashes.erase headerHash) info.hashes
      = headerHash :: info.hashes.erase headerHash :=
    if_pos (List.perm_cons_erase hmem).symm
  let choice : RequestChoice :=
    { order := headerHash :: info.hashes.erase headerHash, sendFails := false }
  let atHash : Requester :=
    { r with scan := .hashes index (headerHash :: info.hashes.erase headerHash) }
  let atPeers : Requester :=
    { r with scan := .peers index headerHash (info.hashes.erase headerHash) }
  have hslot : r.step choice = atHash := by
    simp only [Requester.step, r, atHash, hinfo, horder, choice]
  have hhash : atHash.step choice = atPeers := by
    show (if Bytes.alignLeft 32 headerHash ∈ ([] : List Hash)
      then { r with scan := .hashes index (info.hashes.erase headerHash) } else atPeers) = atPeers
    exact if_neg List.not_mem_nil
  have hpeersOf : atPeers.peersOf index headerHash = first :: rest := by
    show (targets[index]?).elim [] _ = _
    rw [hinfo]
    exact hpeers
  -- The index is in range, so some peer is selected.
  have hlt : (r.slotNumberOf index).toNat % (first :: rest).length < (first :: rest).length :=
    Nat.mod_lt _ (Nat.succ_pos rest.length)
  have hselected : ∃ peer, (first :: rest)[(r.slotNumberOf index).toNat %
      (first :: rest).length]? = some peer := ⟨_, List.getElem?_eq_getElem hlt⟩
  rcases hselected with ⟨peer, hpeer⟩
  have hask : atPeers.ask choice = some ⟨index, headerHash, peer, .sent⟩ := by
    show ((atPeers.peersOf index headerHash)[(r.slotNumberOf index).toNat %
      (atPeers.peersOf index headerHash).length]?).map _ = _
    rw [hpeersOf, hpeer]
    rfl
  let asked : Requester :=
    { r with
      targetSlotNumbers := targets.modify index (fun info => info.dropFirst headerHash)
      scan := .recording index headerHash peer }
  have hpeers : atPeers.step choice = asked := by
    simp only [Requester.step, atPeers] at hask ⊢
    rw [hask]
    rfl
  refine ⟨⟨peer, ?_⟩, ?_⟩
  · show (r.ask choice).toList ++ (((r.step choice).ask choice).toList ++
      ((((r.step choice).step choice).ask choice).toList ++
      (((((r.step choice).step choice).step choice).ask choice).toList ++ []))) = _
    rw [hslot, hhash, hpeers, hask]
    rfl
  · show ((((r.step choice).step choice).step choice).step choice).call index = _
    rw [hslot, hhash, hpeers]
    rfl

theorem exists_all_asked {targets : List HashesAndPeerInfo} {info : HashesAndPeerInfo} (n : Nat)
    (hinfo : targets[index]? = some info) (hmem : headerHash ∈ info.hashes)
    (hn : (info.peersOf headerHash).length = n) : let r : Requester :=
      { targetSlotNumbers := targets, known := [], disconnected := [], scan := .slot index }
    ∃ moves, (r.run moves).known = [] ∧ (asksFor index headerHash (r.log moves)).length = n ∧
      ∀ a ∈ r.log moves, a.outcome = .sent := by
  induction n generalizing targets info with
  | zero => exact ⟨[], rfl, rfl, fun _ ha => (nomatch ha)⟩
  | succ n ih =>
    intro r
    cases hpeers : info.peersOf headerHash with
    | nil =>
      rw [hpeers] at hn
      cases hn
    | cons first rest =>
      rcases run_askingCall hinfo hmem hpeers with ⟨⟨peer, hlog⟩, hrun⟩
      have hinfo' : (targets.modify index (fun info => info.dropFirst headerHash))[index]?
          = some (info.dropFirst headerHash) := by
        rw [List.getElem?_modify, hinfo]
        exact congrArg some (if_pos rfl)
      have hn' : ((info.dropFirst headerHash).peersOf headerHash).length = n := by
        rw [peersOf_dropFirst, if_pos rfl, List.length_tail, hn]
        rfl
      have hhead (log : List Ask) : asksFor index headerHash
          (⟨index, headerHash, peer, .sent⟩ :: log)
            = ⟨index, headerHash, peer, .sent⟩ :: asksFor index headerHash log :=
        List.filter_cons_of_pos (decide_eq_true ⟨rfl, rfl⟩)
      rcases ih hinfo' hmem hn' with ⟨moves, hknown, hlength, hsent⟩
      refine ⟨askingCall index headerHash info ++ moves, ?_, ?_, fun a ha => ?_⟩
      · rw [Requester.run, List.foldl_append]
        change ((r.run (askingCall index headerHash info)).run moves).known = []
        rw [hrun]
        exact hknown
      · rw [log_append, hlog, hrun, List.singleton_append, hhead, List.length_cons]
        exact congrArg (· + 1) hlength
      · rw [log_append, hlog, hrun] at ha
        rcases List.mem_cons.1 ha with rfl | ha
        · rfl
        · exact hsent a ha

end Runs

/-- Peers asked for a header hash of a target slot, over repeated calls of `RequestForBlock`
    while the block is missing. In every such run no peer is asked twice and the header hash is
    given up only after every connected peer has been asked, if and only if the slot number is a
    multiple of every number up to that of the peers. -/
theorem peers_take_turns {targets : List HashesAndPeerInfo} {index : Nat}
    {info : HashesAndPeerInfo} {headerHash : List UInt8} (hinfo : targets[index]? = some info)
    (hoffered : headerHash ∈ info.hashes) (hdistinct : (info.peersOf headerHash).Nodup) :
    (∀ (r : Requester) (nextIndexForRequest : Nat) (moves : List RequesterMove),
      r.targetSlotNumbers = targets → r.scan = .slot nextIndexForRequest →
      Bytes.alignLeft 32 headerHash ∉ (r.run moves).known →
      r.TakesTurns moves index headerHash) ↔
    ∀ k, 0 < k → k ≤ (info.peersOf headerHash).length → info.slotNumber.toNat % k = 0 := by
  have hpeers (r : Requester) (hr : r.targetSlotNumbers = targets) :
      r.peersOf index headerHash = info.peersOf headerHash := by
    unfold Requester.peersOf
    rw [hr, hinfo]
    rfl
  have hslot (r : Requester) (hr : r.targetSlotNumbers = targets) :
      r.slotNumberOf index = info.slotNumber := by
    unfold Requester.slotNumberOf
    rw [hr, hinfo]
    rfl
  constructor
  · -- A run in which every peer is connected and the block does not come.
    intro hturns
    rcases exists_all_asked _ hinfo hoffered rfl with ⟨moves, hknown, hlength, hsent⟩
    generalize hr : Requester.mk targets [] [] (.slot index) = r at hknown hlength hsent
    have htargets : r.targetSlotNumbers = targets := by rw [← hr]
    have hscan : r.scan = .slot index := by rw [← hr]
    have hmissing : Bytes.alignLeft 32 headerHash ∉ (r.run moves).known := by
      rw [hknown]
      exact List.not_mem_nil
    have hnodup := (hturns r index moves htargets hscan hmissing).1
    have hall : messaged index headerHash (r.log moves)
        = (asksFor index headerHash (r.log moves)).map Ask.peer := by
      refine congrArg (List.map Ask.peer) (List.filter_eq_self.2 (fun a ha => decide_eq_true ?_))
      rw [hsent a (List.mem_filter.1 ha).1]
      exact nofun
    rw [hall, (asksFor_log r moves).2, hlength, hpeers r htargets, hslot r htargets,
      List.take_of_length_le (Nat.le_of_eq (length_picks _))] at hnodup
    exact (nodup_picks_iff (fun k hk => Nat.mod_lt _ hk) hdistinct).1 hnodup
  · intro hfront r _ moves hr _ _
    refine takesTurns_of_front r moves ?_ ?_
    · rw [hpeers r hr]
      exact hdistinct
    · rw [hpeers r hr, hslot r hr]
      exact hfront

def toyHeaderHash (n : UInt8) : List UInt8 := List.replicate 32 n

def toyOffer (slotNumber : UInt64) (n : UInt8) (peers : List PeerId) : HashesAndPeerInfo :=
  { slotNumber := slotNumber, hashes := [toyHeaderHash n], distinct := List.nodup_singleton _
    peerByBlockHash := AssocMap.empty.put (toyHeaderHash n) peers }

theorem toyOffer_turns : (toyOffer 12 7 [1, 2, 3]).peersOf (toyHeaderHash 7) = [1, 2, 3] ∧
    ∀ (r : Requester) (nextIndexForRequest : Nat) (moves : List RequesterMove),
      r.targetSlotNumbers = [toyOffer 12 7 [1, 2, 3]] → r.scan = .slot nextIndexForRequest →
      Bytes.alignLeft 32 (toyHeaderHash 7) ∉ (r.run moves).known →
      r.TakesTurns moves 0 (toyHeaderHash 7) := by
  refine ⟨by decide, (@peers_take_turns [toyOffer 12 7 [1, 2, 3]] 0 _ (toyHeaderHash 7) rfl
    (by decide) (by decide)).2 (fun k hk hle => ?_)⟩
  have hthree : k ≤ 3 := hle
  have hcases : k = 1 ∨ k = 2 ∨ k = 3 := by omega
  rcases hcases with rfl | rfl | rfl
  · decide
  · decide
  · decide

/-- Two peers for a block of slot 1: the second is asked twice, and the header hash is given up
    without the first having been asked. -/
theorem toyOffer_passed_over : ∃ (r : Requester) (moves : List RequesterMove),
    r.targetSlotNumbers = [toyOffer 1 7 [1, 2]] ∧ r.scan = .slot 0 ∧
    Bytes.alignLeft 32 (toyHeaderHash 7) ∉ (r.run moves).known ∧
    (r.run moves).disconnected = [] ∧ (r.run moves).peersOf 0 (toyHeaderHash 7) = [] ∧
    messaged 0 (toyHeaderHash 7) (r.log moves) = [2, 2] := by
  refine ⟨⟨[toyOffer 1 7 [1, 2]], [], [], .slot 0⟩,
    askingCall 0 (toyHeaderHash 7) (toyOffer 1 7 [1, 2]) ++
      askingCall 0 (toyHeaderHash 7) (toyOffer 1 7 [1, 2]), rfl, rfl, ?_, ?_, ?_, ?_⟩
  · decide +kernel
  · decide +kernel
  · decide +kernel
  · decide +kernel

end Zond
