import Mathlib.Algebra.Order.BigOperators.Group.List
import Mathlib.Algebra.Order.Group.Nat
import Zond.Theory.Asking

/-!
# Requests in Order

`Consumer` takes an entry from the sequence and then from the requests, and `BlockDownloader`
adds to both at once, but without looking whether the header hash is there: it asks a second
peer while the first has not answered.

## Main definitions

* `RequestTracker.InOrder`: The sequence has the header hashes that are out, each once.

## Theorems

* `requests_in_order`: It is so in every run that asks for no header hash that is out.
-/

namespace Zond

variable {peer : PeerId} {targets : List HashesAndPeerInfo}

/-- The sequence has the header hashes of the requests, each once. -/
def RequestTracker.InOrder (r : RequestTracker) : Prop :=
  r.sequence.Nodup ∧ ∀ headerHash, headerHash ∈ r.sequence ↔ r.requests.get headerHash ≠ none

namespace Downloader

/-- The tracker is in order, but for an entry that `Consumer` has taken from the sequence and
    not yet from the requests. -/
structure Accounted (d : Downloader) : Prop where
  nodup : d.requestTracker.sequence.Nodup
  keys : ∀ headerHash, d.requestTracker.requests.get headerHash ≠ none ↔
    headerHash ∈ d.requestTracker.sequence ∨ ∃ b, d.consumer = .forgetting headerHash b
  forgetting : ∀ headerHash b, d.consumer = .forgetting headerHash b →
    headerHash ∉ d.requestTracker.sequence
  popping : ∀ headerHash b, d.consumer = .popping headerHash b →
    d.requestTracker.sequence.head? = some headerHash

/-- Where a call of `RequestForBlock` has come to the peers of a header hash, there are none or
    no request is out for it. -/
structure Cautious (d : Downloader) : Prop where
  peers : ∀ index headerHash rest, d.requester.scan = .peers index headerHash rest →
    d.requester.peersOf index headerHash = [] ∨ d.requestTracker.requests.get headerHash = none
  recording : ∀ index headerHash peer, d.requester.scan = .recording index headerHash peer →
    d.requestTracker.requests.get headerHash = none

/-- When a call of `RequestForBlock` comes to a header hash, the chain has the block, there are
    no peers left for it or no request is out for it. -/
def Untaken (d : Downloader) : DownloadTurn → Prop
  | .blockDownloader _ _ => ∀ index headerHash rest,
      d.requester.scan = .hashes index (headerHash :: rest) →
      Bytes.alignLeft 32 headerHash ∉ d.requester.known →
      d.requester.peersOf index headerHash ≠ [] →
      d.requestTracker.requests.get headerHash = none
  | _ => True

end Downloader

section Scanning

variable {r : Requester} {choice : RequestChoice} {index : Nat} {headerHash : List UInt8}

theorem peersOf_ne_nil_of_ask {a : Ask} (h : r.ask choice = some a) :
    r.peersOf a.index a.headerHash ≠ [] := by
  intro hnil
  have hsome := (ask_of_some h).2.1
  rw [hnil] at hsome
  cases hsome

/-- The header hash whose peers a call of `RequestForBlock` has come to. -/
def RequestScan.headerHash? : RequestScan → Option (Nat × List UInt8)
  | .peers index headerHash _ | .recording index headerHash _ => some (index, headerHash)
  | _ => none

theorem headerHash?_step (h : (r.step choice).scan.headerHash? = some (index, headerHash)) :
    (∃ rest, r.scan = .hashes index (headerHash :: rest) ∧
      (r.step choice).scan = .peers index headerHash rest ∧
      Bytes.alignLeft 32 headerHash ∉ r.known ∧ r.ask choice = none) ∨
    ∃ a, r.ask choice = some a ∧ a.index = index ∧ a.headerHash = headerHash := by
  unfold Requester.step at h ⊢
  split at h
  · split at h
    · cases h
    · cases h
  · cases h
  · rename_i rest hscan
    split at h
    · cases h
    · rename_i hmissing
      cases h
      refine .inl ⟨rest, hscan, ?_, hmissing, ?_⟩
      · rw [if_neg hmissing]
      · unfold Requester.ask
        rw [hscan]
  · rename_i hscan
    split at h
    · cases h
    · rename_i a hask
      rcases ask_of_some hask with ⟨⟨_, hscan'⟩, -, -⟩
      rw [hscan] at hscan'
      cases hscan'
      split at h
      · cases h
        exact .inr ⟨a, hask, rfl, rfl⟩
      · cases h
        exact .inr ⟨a, hask, rfl, rfl⟩
  · cases h
  · rename_i hscan
    rw [hscan] at h
    cases h

theorem call_eq_self {nextIndexForRequest : Nat}
    (h : (r.call nextIndexForRequest).scan.headerHash? = some (index, headerHash)) :
    r.call nextIndexForRequest = r := by
  unfold Requester.call at h ⊢
  split at h
  · cases h
  · rfl

end Scanning

namespace Downloader

variable {d d' : Downloader}

theorem Cautious.of_requests (h : d.Cautious) (hscan : d'.requester.scan = d.requester.scan)
    (htargets : d'.requester.targetSlotNumbers = d.requester.targetSlotNumbers)
    (hrequests : ∀ headerHash, d.requestTracker.requests.get headerHash = none →
      d'.requestTracker.requests.get headerHash = none) : d'.Cautious := by
  refine ⟨fun index headerHash rest hat => ?_, fun index headerHash peer hat => ?_⟩
  · rw [hscan] at hat
    rcases h.peers index headerHash rest hat with hnil | hnone
    · left
      unfold Requester.peersOf at hnil ⊢
      rw [htargets]
      exact hnil
    · exact .inr (hrequests headerHash hnone)
  · rw [hscan] at hat
    exact hrequests headerHash (h.recording index headerHash peer hat)

theorem Accounted.of_same (h : d.Accounted) (htracker : d'.requestTracker = d.requestTracker)
    (hconsumer : d'.consumer = d.consumer) : d'.Accounted := by
  refine ⟨?_, ?_, ?_, ?_⟩
  · rw [htracker]
    exact h.nodup
  · rw [htracker, hconsumer]
    exact h.keys
  · rw [htracker, hconsumer]
    exact h.forgetting
  · rw [htracker, hconsumer]
    exact h.popping

theorem Accounted.of_elsewhere (h : d.Accounted) (htracker : d'.requestTracker = d.requestTracker)
    (hbefore : ∀ headerHash b, d.consumer ≠ .forgetting headerHash b)
    (hforgetting : ∀ headerHash b, d'.consumer ≠ .forgetting headerHash b)
    (hpopping : ∀ headerHash b, d'.consumer ≠ .popping headerHash b) : d'.Accounted := by
  refine ⟨?_, fun headerHash => ?_, fun headerHash b hat => absurd hat (hforgetting headerHash b),
    fun headerHash b hat => absurd hat (hpopping headerHash b)⟩
  · rw [htracker]
    exact h.nodup
  · rw [htracker, h.keys]
    refine or_congr_right ⟨?_, ?_⟩
    · rintro ⟨b, hat⟩
      exact absurd hat (hbefore headerHash b)
    · rintro ⟨b, hat⟩
      exact absurd hat (hforgetting headerHash b)

theorem isSyncingFinished_tracker (d : Downloader) (forceFinish : Bool) :
    (d.isSyncingFinished forceFinish).2.requestTracker = d.requestTracker ∧
      (d.isSyncingFinished forceFinish).2.consumer = d.consumer ∧
      (d.isSyncingFinished forceFinish).2.requester = d.requester := by
  unfold isSyncingFinished
  split
  · exact ⟨rfl, rfl, rfl⟩
  · split
    · exact ⟨rfl, rfl, rfl⟩
    · exact ⟨rfl, rfl, rfl⟩

theorem accounted_stepConsumer (h : d.Accounted) (event : ConsumerEvent) (added : Bool) :
    (d.stepConsumer event added).Accounted := by
  unfold stepConsumer
  split
  · -- At the select.
    rename_i hat
    have hbefore : ∀ headerHash b, d.consumer ≠ .forgetting headerHash b := by
      rw [hat]
      exact nofun
    split
    · split
      · exact h
      · split
        · exact h.of_elsewhere rfl hbefore nofun nofun
        · exact h.of_same rfl rfl
    · exact h.of_elsewhere (isSyncingFinished_tracker d true).1 hbefore nofun nofun
    · split
      · exact h.of_elsewhere rfl hbefore nofun nofun
      · exact h
  · rename_i hat
    have hbefore : ∀ headerHash b, d.consumer ≠ .forgetting headerHash b := by
      rw [hat]
      exact nofun
    split
    · rename_i headerHash rest hsyncing hsequence
      split
      · exact h.of_elsewhere rfl hbefore nofun nofun
      · refine ⟨h.nodup, fun headerHash' => ?_, nofun, fun headerHash' b' hpopping => ?_⟩
        · show d.requestTracker.requests.get headerHash' ≠ none ↔ _
          rw [h.keys]
          refine or_congr_right ⟨?_, ?_⟩
          · rintro ⟨b', hforgetting⟩
            exact absurd hforgetting (hbefore headerHash' b')
          · rintro ⟨b', hforgetting⟩
            cases hforgetting
        · cases hpopping
          show d.requestTracker.sequence.head? = some headerHash
          rw [hsequence]
          rfl
    · exact h.of_elsewhere rfl hbefore nofun nofun
  · -- The first entry of the sequence goes.
    rename_i headerHash b hat
    have hhead := h.popping headerHash b hat
    cases hsequence : d.requestTracker.sequence with
    | nil =>
      rw [hsequence] at hhead
      cases hhead
    | cons first rest =>
      rw [hsequence] at hhead
      cases hhead
      have hnodup := h.nodup
      rw [hsequence] at hnodup
      rcases List.nodup_cons.1 hnodup with ⟨hnot, hrest⟩
      have htail : d.requestTracker.removeFirstElementFromSequence.sequence = rest := by
        unfold RequestTracker.removeFirstElementFromSequence
        rw [hsequence]
        rfl
      refine ⟨?_, fun headerHash' => ?_, fun headerHash' b' hforgetting => ?_, nofun⟩
      · rw [htail]
        exact hrest
      · show d.requestTracker.requests.get headerHash' ≠ none ↔ _
        rw [h.keys, htail, hsequence, hat, List.mem_cons]
        constructor
        · rintro ((rfl | hmem) | ⟨b', hforgetting⟩)
          · exact .inr ⟨b, rfl⟩
          · exact .inl hmem
          · cases hforgetting
        · rintro (hmem | ⟨b', hforgetting⟩)
          · exact .inl (.inr hmem)
          · cases hforgetting
            exact .inl (.inl rfl)
      · cases hforgetting
        rw [htail]
        exact hnot
  · -- Its request goes.
    rename_i headerHash b hat
    have hnot := h.forgetting headerHash b hat
    refine ⟨h.nodup, fun headerHash' => ?_, nofun, nofun⟩
    show (d.requestTracker.requests.erase headerHash).get headerHash' ≠ none ↔
      headerHash' ∈ d.requestTracker.sequence ∨ _
    rw [AssocMap.get_erase]
    by_cases heq : headerHash = headerHash'
    · subst heq
      rw [if_pos rfl]
      refine ⟨fun hne => absurd rfl hne, ?_⟩
      rintro (hmem | ⟨b', hforgetting⟩)
      · exact absurd hmem hnot
      · cases hforgetting
    · rw [if_neg heq, h.keys, hat]
      refine or_congr_right ⟨?_, ?_⟩
      · rintro ⟨b', hforgetting⟩
        cases hforgetting
        exact absurd rfl heq
      · rintro ⟨b', hforgetting⟩
        cases hforgetting
  · rename_i hat
    have hbefore : ∀ headerHash b, d.consumer ≠ .forgetting headerHash b := by
      rw [hat]
      exact nofun
    split
    · exact h.of_elsewhere rfl hbefore nofun nofun
    · exact h.of_elsewhere rfl hbefore nofun nofun
  · rename_i hat
    have hbefore : ∀ headerHash b, d.consumer ≠ .forgetting headerHash b := by
      rw [hat]
      exact nofun
    split
    · exact h.of_elsewhere rfl hbefore nofun nofun
    · exact h
  · rename_i hat
    have hbefore : ∀ headerHash b, d.consumer ≠ .forgetting headerHash b := by
      rw [hat]
      exact nofun
    refine h.of_elsewhere (isSyncingFinished_tracker d false).1 hbefore ?_ ?_
    · intro headerHash b
      dsimp only
      split
      · exact nofun
      · exact nofun
    · intro headerHash b
      dsimp only
      split
      · exact nofun
      · exact nofun
  · exact h

theorem stepConsumer_requester (d : Downloader) (event : ConsumerEvent) (added : Bool) :
    (d.stepConsumer event added).requester.scan = d.requester.scan ∧
      (d.stepConsumer event added).requester.targetSlotNumbers
        = d.requester.targetSlotNumbers ∧
      ∀ headerHash, d.requestTracker.requests.get headerHash = none →
        (d.stepConsumer event added).requestTracker.requests.get headerHash = none := by
  unfold stepConsumer
  split
  · split
    · split
      · exact ⟨rfl, rfl, fun _ h => h⟩
      · split
        · exact ⟨rfl, rfl, fun _ h => h⟩
        · exact ⟨rfl, rfl, fun _ h => h⟩
    · rcases isSyncingFinished_tracker d true with ⟨htracker, -, hrequester⟩
      rw [htracker, hrequester]
      exact ⟨rfl, rfl, fun _ h => h⟩
    · split
      · exact ⟨rfl, rfl, fun _ h => h⟩
      · exact ⟨rfl, rfl, fun _ h => h⟩
  · split
    · split
      · exact ⟨rfl, rfl, fun _ h => h⟩
      · exact ⟨rfl, rfl, fun _ h => h⟩
    · exact ⟨rfl, rfl, fun _ h => h⟩
  · exact ⟨rfl, rfl, fun _ h => h⟩
  · rename_i headerHash b hat
    refine ⟨rfl, rfl, fun headerHash' h => ?_⟩
    show (d.requestTracker.requests.erase headerHash).get headerHash' = none
    rw [AssocMap.get_erase, h, ite_self]
  · split
    · exact ⟨rfl, rfl, fun _ h => h⟩
    · exact ⟨rfl, rfl, fun _ h => h⟩
  · split
    · exact ⟨rfl, rfl, fun _ h => h⟩
    · exact ⟨rfl, rfl, fun _ h => h⟩
  · rcases isSyncingFinished_tracker d false with ⟨htracker, -, hrequester⟩
    rw [htracker, hrequester]
    exact ⟨rfl, rfl, fun _ h => h⟩
  · exact ⟨rfl, rfl, fun _ h => h⟩

theorem Accounted.addPeerRequest (h : d.Accounted) {headerHash : List UInt8}
    (hnone : d.requestTracker.requests.get headerHash = none)
    (htracker : d'.requestTracker = d.requestTracker.addPeerRequest headerHash peer)
    (hconsumer : d'.consumer = d.consumer) : d'.Accounted := by
  have hnot : headerHash ∉ d.requestTracker.sequence :=
    fun hmem => (h.keys headerHash).2 (.inl hmem) hnone
  have hsequence : d'.requestTracker.sequence = d.requestTracker.sequence ++ [headerHash] := by
    rw [htracker]
    rfl
  refine ⟨?_, fun headerHash' => ?_, fun headerHash' b hat => ?_, fun headerHash' b hat => ?_⟩
  · rw [hsequence]
    refine List.nodup_append.2 ⟨h.nodup, List.nodup_singleton _, fun x hx y hy heq => ?_⟩
    rw [heq, List.mem_singleton.1 hy] at hx
    exact hnot hx
  · rw [hsequence, htracker, hconsumer, List.mem_append, List.mem_singleton]
    show (d.requestTracker.requests.put headerHash peer).get headerHash' ≠ none ↔ _
    rw [AssocMap.get_put]
    by_cases heq : headerHash = headerHash'
    · rw [if_pos heq]
      exact ⟨fun _ => .inl (.inr heq.symm), fun _ => nofun⟩
    · rw [if_neg heq, h.keys]
      constructor
      · rintro (hmem | hforgetting)
        · exact .inl (.inl hmem)
        · exact .inr hforgetting
      · rintro ((hmem | rfl) | hforgetting)
        · exact .inl hmem
        · exact absurd rfl heq
        · exact .inr hforgetting
  · rw [hconsumer] at hat
    rw [hsequence, List.mem_append, List.mem_singleton]
    rintro (hmem | rfl)
    · exact h.forgetting headerHash' b hat hmem
    · exact (h.keys headerHash').2 (.inr ⟨b, hat⟩) hnone
  · rw [hconsumer] at hat
    have hhead := h.popping headerHash' b hat
    rw [hsequence]
    cases hseq : d.requestTracker.sequence with
    | nil =>
      rw [hseq] at hhead
      cases hhead
    | cons first rest =>
      rw [hseq] at hhead
      exact hhead

theorem afterRequest_same (d : Downloader) (first : Bool) (numberOfRequests : Int)
    (nextIndexForRequest : Nat) :
    (d.afterRequest first numberOfRequests nextIndexForRequest).requestTracker
        = d.requestTracker ∧
      (d.afterRequest first numberOfRequests nextIndexForRequest).consumer = d.consumer ∧
      (d.afterRequest first numberOfRequests nextIndexForRequest).requester = d.requester := by
  unfold afterRequest
  split
  · split
    · exact isSyncingFinished_tracker d false
    · exact ⟨rfl, rfl, rfl⟩
  · exact ⟨rfl, rfl, rfl⟩

theorem stepBlockDownloader_cases (d : Downloader) (choice : RequestChoice) (takeDone : Bool) :
    let d' := d.stepBlockDownloader choice takeDone
    d'.consumer = d.consumer ∧
      ((∃ index headerHash peer, d.requester.scan = .recording index headerHash peer ∧
          d'.requester = d.requester.step choice ∧
          d'.requestTracker = d.requestTracker.addPeerRequest headerHash peer) ∨
        d'.requestTracker = d.requestTracker ∧ (d'.requester = d.requester ∨
          d'.requester = d.requester.step choice ∨
          ∃ nextIndexForRequest, d'.requester = d.requester.call nextIndexForRequest)) := by
  intro d'
  show (d.stepBlockDownloader choice takeDone).consumer = d.consumer ∧ _
  unfold d' stepBlockDownloader
  split
  · split
    · rename_i index headerHash peer hscan
      exact ⟨rfl, .inl ⟨index, headerHash, peer, hscan, rfl, rfl⟩⟩
    · rcases afterRequest_same d _ _ _ with ⟨htracker, hconsumer, hrequester⟩
      exact ⟨hconsumer, .inr ⟨htracker, .inl hrequester⟩⟩
    · exact ⟨rfl, .inr ⟨rfl, .inr (.inl rfl)⟩⟩
  · split
    · exact ⟨rfl, .inr ⟨rfl, .inr (.inr ⟨_, rfl⟩)⟩⟩
    · exact ⟨rfl, .inr ⟨rfl, .inl rfl⟩⟩
  · split
    · split
      · exact ⟨rfl, .inr ⟨rfl, .inl rfl⟩⟩
      · exact ⟨rfl, .inr ⟨rfl, .inl rfl⟩⟩
    · split
      · exact ⟨rfl, .inr ⟨rfl, .inl rfl⟩⟩
      · exact ⟨rfl, .inr ⟨rfl, .inl rfl⟩⟩
  · exact ⟨rfl, .inr ⟨rfl, .inl rfl⟩⟩

theorem accounted_stepBlockDownloader (h : d.Accounted) (hc : d.Cautious)
    (choice : RequestChoice) (takeDone : Bool) :
    (d.stepBlockDownloader choice takeDone).Accounted := by
  rcases stepBlockDownloader_cases d choice takeDone with
    ⟨hconsumer, ⟨index, headerHash, peer, hscan, -, htracker⟩ | ⟨htracker, -⟩⟩
  · exact h.addPeerRequest (hc.recording index headerHash peer hscan) htracker hconsumer
  · exact h.of_same htracker hconsumer

theorem Cautious.step (hc : d.Cautious) {choice : RequestChoice} {takeDone : Bool}
    (hu : d.Untaken (.blockDownloader choice takeDone))
    (hrequester : d'.requester = d.requester.step choice)
    (htracker : d'.requestTracker = d.requestTracker) : d'.Cautious := by
  -- A selected peer shows that there were peers, so no request is out.
  have hasked : ∀ a, d.requester.ask choice = some a →
      d.requestTracker.requests.get a.headerHash = none := by
    intro a hask
    rcases (ask_of_some hask).1 with ⟨rest, hscan⟩
    rcases hc.peers a.index a.headerHash rest hscan with hnil | hnone
    · exact absurd hnil (peersOf_ne_nil_of_ask hask)
    · exact hnone
  refine ⟨fun index headerHash rest hat => ?_, fun index headerHash peer hat => ?_⟩
  · rw [hrequester] at hat ⊢
    rw [htracker]
    rcases headerHash?_step (congrArg RequestScan.headerHash? hat) with
      ⟨rest, hscan, -, hmissing, hask⟩ | ⟨a, hask, -, rfl⟩
    · by_cases hnil : d.requester.peersOf index headerHash = []
      · left
        have hsame := peersOf_move d.requester (.step choice) index headerHash
        rw [if_neg] at hsame
        · exact hsame.trans hnil
        · rintro ⟨a, ha, -⟩
          rw [show d.requester.asked (.step choice) = none from hask] at ha
          cases ha
      · exact .inr (hu index headerHash rest hscan hmissing hnil)
    · exact .inr (hasked a hask)
  · rw [hrequester] at hat
    rw [htracker]
    rcases headerHash?_step (congrArg RequestScan.headerHash? hat) with
      ⟨rest, -, hpeers, -⟩ | ⟨a, hask, -, rfl⟩
    · cases hat.symm.trans hpeers
    · exact hasked a hask

theorem cautious_stepBlockDownloader (hc : d.Cautious) {choice : RequestChoice} {takeDone : Bool}
    (hu : d.Untaken (.blockDownloader choice takeDone)) :
    (d.stepBlockDownloader choice takeDone).Cautious := by
  rcases stepBlockDownloader_cases d choice takeDone with
    ⟨-, ⟨index, headerHash, peer, hscan, hrequester, -⟩ |
      ⟨htracker, hrequester | hrequester | ⟨nextIndexForRequest, hrequester⟩⟩⟩
  · -- The call ends with the request.
    have hreturned : (d.stepBlockDownloader choice takeDone).requester.scan
        = .returned index true := by
      rw [hrequester]
      unfold Requester.step
      rw [hscan]
    refine ⟨?_, ?_⟩
    · rw [hreturned]
      exact nofun
    · rw [hreturned]
      exact nofun
  · refine hc.of_requests ?_ ?_ ?_
    · rw [hrequester]
    · rw [hrequester]
    · rw [htracker]
      exact fun _ h => h
  · exact hc.step hu hrequester htracker
  · refine ⟨fun index headerHash rest hat => ?_, fun index headerHash peer hat => ?_⟩
    · rw [hrequester] at hat ⊢
      have hsame := call_eq_self (congrArg RequestScan.headerHash? hat)
      rw [hsame] at hat ⊢
      rw [htracker]
      exact hc.peers index headerHash rest hat
    · rw [hrequester] at hat
      rw [call_eq_self (congrArg RequestScan.headerHash? hat)] at hat
      rw [htracker]
      exact hc.recording index headerHash peer hat

theorem accounted_turn (h : d.Accounted) (hc : d.Cautious) {t : DownloadTurn} (hu : d.Untaken t) :
    (d.turn t).Accounted ∧ (d.turn t).Cautious := by
  cases t with
  | blockDownloader choice takeDone =>
    exact ⟨accounted_stepBlockDownloader h hc choice takeDone,
      cautious_stepBlockDownloader hc hu⟩
  | consumer event added =>
    rcases stepConsumer_requester d event added with ⟨hscan, htargets, hrequests⟩
    exact ⟨accounted_stepConsumer h event added, hc.of_requests hscan htargets hrequests⟩
  | deliver b peer =>
    show (if _ then _ else d : Downloader).Accounted ∧ (if _ then _ else d : Downloader).Cautious
    split
    · exact ⟨h.of_same rfl rfl, hc.of_requests rfl rfl (fun _ h => h)⟩
    · exact ⟨h, hc⟩
  | gain | disconnect => exact ⟨h.of_same rfl rfl, hc.of_requests rfl rfl (fun _ h => h)⟩

theorem Started.accounted (h : d.Started) : d.Accounted ∧ d.Cautious := by
  refine ⟨⟨?_, fun headerHash => ?_, ?_, ?_⟩, ⟨?_, ?_⟩⟩
  · rw [h.requestTracker]
    exact List.nodup_nil
  · rw [h.requestTracker, h.consumer]
    refine ⟨fun hne => absurd rfl hne, ?_⟩
    rintro (hmem | ⟨b, hat⟩)
    · cases hmem
    · cases hat
  · rw [h.consumer]
    exact nofun
  · rw [h.consumer]
    exact nofun
  · rw [h.scan]
    exact nofun
  · rw [h.scan]
    exact nofun

theorem accounted_reached (h : Reached targets Untaken d) : d.Accounted ∧ d.Cautious := by
  induction h with
  | start hstart _ => exact hstart.accounted
  | turn t _ hu ih => exact accounted_turn ih.1 ih.2 hu

end Downloader

/-- How many peers all target slots have for a header hash. -/
def offers (targets : List HashesAndPeerInfo) (headerHash : List UInt8) : Nat :=
  (targets.map (fun info => (info.peersOf headerHash).length)).sum

def OfferedOnce (targets : List HashesAndPeerInfo) : Prop :=
  ∀ headerHash, offers targets headerHash ≤ 1

section Offers

variable {targets : List HashesAndPeerInfo} {index : Nat} {info : HashesAndPeerInfo}
variable {headerHash : List UInt8}

theorem length_le_offers (h : targets[index]? = some info) :
    (info.peersOf headerHash).length ≤ offers targets headerHash :=
  List.le_sum_of_mem (List.mem_map.2 ⟨info, List.mem_of_getElem? h, rfl⟩)

theorem offers_cons (first : HashesAndPeerInfo) (rest : List HashesAndPeerInfo) :
    offers (first :: rest) headerHash = (first.peersOf headerHash).length + offers rest headerHash :=
  List.sum_cons

theorem offers_dropFirst_le (targets : List HashesAndPeerInfo) (index : Nat)
    (headerHash headerHash' : List UInt8) :
    offers (targets.modify index (fun info => info.dropFirst headerHash)) headerHash'
      ≤ offers targets headerHash' := by
  induction targets generalizing index with
  | nil =>
    rw [List.modify_nil]
  | cons first rest ih =>
    cases index with
    | zero =>
      rw [List.modify_zero_cons, offers_cons, offers_cons, peersOf_dropFirst]
      refine Nat.add_le_add_right ?_ _
      split
      · rw [List.length_tail]
        exact Nat.sub_le _ _
      · exact Nat.le_refl _
    | succ index =>
      rw [List.modify_succ_cons, offers_cons, offers_cons]
      exact Nat.add_le_add_left (ih index) _

theorem offers_dropFirst (hinfo : targets[index]? = some info)
    (hne : info.peersOf headerHash ≠ []) :
    offers (targets.modify index (fun info => info.dropFirst headerHash)) headerHash + 1
      = offers targets headerHash := by
  induction targets generalizing index with
  | nil => cases hinfo
  | cons first rest ih =>
    cases index with
    | zero =>
      cases hinfo
      have hpos := List.length_pos_of_ne_nil hne
      rw [List.modify_zero_cons, offers_cons, offers_cons, peersOf_dropFirst, if_pos rfl,
        List.length_tail]
      omega
    | succ index =>
      have hrest := ih hinfo
      rw [List.modify_succ_cons, offers_cons, offers_cons]
      omega

end Offers

namespace Downloader

variable {d : Downloader}

/-- With one peer at most for each header hash, none is left once it has been selected. -/
structure Spent (d : Downloader) : Prop where
  once : OfferedOnce d.requester.targetSlotNumbers
  requested : ∀ headerHash, d.requestTracker.requests.get headerHash ≠ none →
    offers d.requester.targetSlotNumbers headerHash = 0
  recording : ∀ index headerHash peer, d.requester.scan = .recording index headerHash peer →
    offers d.requester.targetSlotNumbers headerHash = 0

theorem Spent.step {d' : Downloader} (h : d.Spent) (choice : RequestChoice)
    (hrequester : d'.requester = d.requester.step choice)
    (htracker : d'.requestTracker = d.requestTracker) : d'.Spent := by
  have htargets := @targets_move d.requester (.step choice)
  have hle (headerHash : List UInt8) : offers (d.requester.step choice).targetSlotNumbers headerHash
      ≤ offers d.requester.targetSlotNumbers headerHash := by
    show offers (d.requester.move (.step choice)).targetSlotNumbers headerHash ≤ _
    rw [htargets]
    cases d.requester.asked (.step choice) with
    | none => exact Nat.le_refl _
    | some a => exact offers_dropFirst_le _ _ _ _
  refine ⟨fun headerHash => ?_, fun headerHash hne => ?_, fun index headerHash peer hat => ?_⟩
  · rw [hrequester]
    exact Nat.le_trans (hle headerHash) (h.once headerHash)
  · rw [hrequester]
    rw [htracker] at hne
    have hzero := h.requested headerHash hne
    have := hle headerHash
    omega
  · -- The peer selected was the last.
    rw [hrequester] at hat ⊢
    rcases headerHash?_step (congrArg RequestScan.headerHash? hat) with
      ⟨rest, -, hpeers, -⟩ | ⟨a, hask, rfl, rfl⟩
    · cases hat.symm.trans hpeers
    have hpeers := peersOf_ne_nil_of_ask hask
    unfold Requester.peersOf at hpeers
    cases hinfo : d.requester.targetSlotNumbers[a.index]? with
    | none =>
      rw [hinfo] at hpeers
      exact absurd rfl hpeers
    | some info =>
      rw [hinfo] at hpeers
      have hone := offers_dropFirst hinfo hpeers
      have honce := h.once a.headerHash
      show offers (d.requester.move (.step choice)).targetSlotNumbers a.headerHash = 0
      rw [htargets, show d.requester.asked (.step choice) = some a from hask]
      show offers (d.requester.targetSlotNumbers.modify _ _) _ = 0
      omega

theorem spent_turn (h : d.Spent) (t : DownloadTurn) : (d.turn t).Spent := by
  cases t with
  | blockDownloader choice takeDone =>
    show (d.stepBlockDownloader choice takeDone).Spent
    rcases stepBlockDownloader_cases d choice takeDone with
      ⟨-, ⟨index, headerHash, peer, hscan, hrequester, htracker⟩ |
        ⟨htracker, hrequester | hrequester | ⟨nextIndexForRequest, hrequester⟩⟩⟩
    · have hstep : d.requester.step choice
          = { d.requester with scan := .returned index true } := by
        unfold Requester.step
        rw [hscan]
      rw [hstep] at hrequester
      refine ⟨?_, fun headerHash' hne => ?_, ?_⟩
      · rw [hrequester]
        exact h.once
      · rw [hrequester]
        rw [htracker] at hne
        change (d.requestTracker.requests.put headerHash peer).get headerHash' ≠ none at hne
        rw [AssocMap.get_put] at hne
        by_cases heq : headerHash = headerHash'
        · rw [← heq]
          exact h.recording index headerHash peer hscan
        · rw [if_neg heq] at hne
          exact h.requested headerHash' hne
      · rw [hrequester]
        exact nofun
    · refine ⟨?_, ?_, ?_⟩
      · rw [hrequester]
        exact h.once
      · rw [hrequester, htracker]
        exact h.requested
      · rw [hrequester]
        exact h.recording
    · exact h.step choice hrequester htracker
    · have htargets : (d.requester.call nextIndexForRequest).targetSlotNumbers
          = d.requester.targetSlotNumbers :=
        @targets_move d.requester (.call nextIndexForRequest)
      refine ⟨?_, ?_, fun index headerHash peer hat => ?_⟩
      · rw [hrequester, htargets]
        exact h.once
      · rw [hrequester, htracker, htargets]
        exact h.requested
      · rw [hrequester] at hat ⊢
        have hsame := call_eq_self (congrArg RequestScan.headerHash? hat)
        rw [hsame] at hat ⊢
        exact h.recording index headerHash peer hat
  | consumer event added =>
    show (d.stepConsumer event added).Spent
    rcases stepConsumer_requester d event added with ⟨hscan, htargets, hrequests⟩
    refine ⟨?_, fun headerHash hne => ?_, ?_⟩
    · rw [htargets]
      exact h.once
    · rw [htargets]
      exact h.requested headerHash (fun hnone => hne (hrequests headerHash hnone))
    · rw [hscan, htargets]
      exact h.recording
  | deliver b peer =>
    show (if _ then _ else d : Downloader).Spent
    split
    · exact ⟨h.once, h.requested, h.recording⟩
    · exact h
  | gain | disconnect => exact ⟨h.once, h.requested, h.recording⟩

theorem untaken_of_spent (h : d.Spent) (t : DownloadTurn) : d.Untaken t := by
  unfold Untaken
  split
  · intro index headerHash rest _ _ hpeers
    by_contra hne
    have hzero := h.requested headerHash hne
    unfold Requester.peersOf at hpeers
    cases hinfo : d.requester.targetSlotNumbers[index]? with
    | none =>
      rw [hinfo] at hpeers
      exact hpeers rfl
    | some info =>
      rw [hinfo] at hpeers
      have hle := @length_le_offers _ _ _ headerHash hinfo
      have hpos := List.length_pos_of_ne_nil hpeers
      change 0 < (info.peersOf headerHash).length at hpos
      omega
  · trivial

theorem untaken_of_offeredOnce (hone : OfferedOnce targets)
    (h : Reached targets (fun _ _ => True) d) : Reached targets Untaken d := by
  have hspent : d.Spent ∧ Reached targets Untaken d := by
    induction h with
    | start hstart htargets =>
      refine ⟨⟨?_, fun headerHash hne => ?_, ?_⟩, .start hstart htargets⟩
      · rw [htargets]
        exact hone
      · rw [hstart.requestTracker] at hne
        exact absurd rfl hne
      · rw [hstart.scan]
        exact nofun
    | turn t _ _ ih => exact ⟨spent_turn ih.1 t, .turn t ih.2 (untaken_of_spent ih.1 t)⟩
  exact hspent.2

end Downloader

/-- The request tracker. In every run in which `RequestForBlock` comes to no header hash for
    which a request is out, unless the chain has the block or there are no peers left, the
    sequence has each header hash once, and those of the requests; only between the two calls
    by which `Consumer` removes an entry do the requests have that one more. So the entry in
    front is one that can be delivered. Target slots with at most one peer for each header hash
    have no other runs. -/
theorem requests_in_order {targets : List HashesAndPeerInfo} {d : Downloader} :
    (Downloader.Reached targets Downloader.Untaken d →
      d.requestTracker.sequence.Nodup ∧
      ((∀ headerHash b, d.consumer ≠ .forgetting headerHash b) → d.requestTracker.InOrder) ∧
      (∀ headerHash b, d.consumer = .forgetting headerHash b →
        (d.requestTracker.removeRequestKey headerHash).InOrder) ∧
      ∀ headerHash, d.requestTracker.sequence.head? = some headerHash →
        ∃ peer, d.requestTracker.getPeerByHeaderHash headerHash = some peer) ∧
    (OfferedOnce targets → Downloader.Reached targets (fun _ _ => True) d →
      Downloader.Reached targets Downloader.Untaken d) := by
  refine ⟨fun h => ?_, Downloader.untaken_of_offeredOnce⟩
  have haccounted := (Downloader.accounted_reached h).1
  refine ⟨haccounted.nodup, fun helsewhere => ⟨haccounted.nodup, fun headerHash => ?_⟩,
    fun headerHash b hat => ?_, fun headerHash hhead => ?_⟩
  · rw [haccounted.keys]
    refine ⟨.inl, ?_⟩
    rintro (hmem | ⟨b, hat⟩)
    · exact hmem
    · exact absurd hat (helsewhere headerHash b)
  · -- The next step of `Consumer` is the removal, and it leaves the tracker in order.
    have hnext := Downloader.accounted_stepConsumer haccounted .message true
    have hstep : d.stepConsumer .message true =
        { d with
          requestTracker := d.requestTracker.removeRequestKey headerHash
          consumer := .adding b } := by
      unfold Downloader.stepConsumer
      rw [hat]
    rw [hstep] at hnext
    refine ⟨hnext.nodup, fun headerHash' => ?_⟩
    rw [hnext.keys headerHash']
    refine ⟨.inl, ?_⟩
    rintro (hmem | ⟨b', hforgetting⟩)
    · exact hmem
    · cases hforgetting
  · exact Option.ne_none_iff_exists'.1
      ((haccounted.keys headerHash).2 (.inl (List.mem_of_mem_head? hhead)))

def toyFetched (n : UInt8) (slotNumber : UInt64) : Block :=
  { header :=
      { hash := ⟨toyHeaderHash n, List.length_replicate⟩, slotNumber := slotNumber
        timestampSeconds := 0, parentHash := zeroHash, baseFee := 0, gasLimit := 0, gasUsed := 0
        root := zeroHash, protocolTxBloom := Bloom.empty, txBloom := Bloom.empty }
    protocolTransactions := [], transactions := [] }

def toyDownloader (targets : List HashesAndPeerInfo) : Downloader :=
  { isSyncing := true, done := false
    requester :=
      { targetSlotNumbers := targets, known := [], disconnected := [], scan := .slot 0 }
    requestTracker := newRequestTracker, blockAndPeerChannel := [], slotNumberProcessed := []
    pendingBlocks := AssocMap.empty, lastBlockHeaderToDownload := zeroHash
    blockDownloader := .calling true 0, consumer := .waiting }

def toyAsking (n : Nat) : List DownloadTurn :=
  List.replicate n (.blockDownloader { order := [], sendFails := false } false)

def toyAnswer (b : Block) (peer : PeerId) (n : Nat) : List DownloadTurn :=
  .deliver b peer :: List.replicate n (.consumer .message true)

theorem Downloader.reached_foldl {d : Downloader}
    (h : Downloader.Reached targets (fun _ _ => True) d) (turns : List DownloadTurn) :
    Downloader.Reached targets (fun _ _ => True) (turns.foldl Downloader.turn d) := by
  induction turns generalizing d with
  | nil => exact h
  | cons t turns ih => exact ih (.turn t h trivial)

theorem toyDownloader_reached (targets : List HashesAndPeerInfo) (turns : List DownloadTurn) :
    Downloader.Reached targets (fun _ _ => True)
      (turns.foldl Downloader.turn (toyDownloader targets)) := by
  have hstart : (toyDownloader targets).Started := ⟨rfl, rfl, rfl, rfl, rfl, rfl⟩
  exact Downloader.reached_foldl (.start hstart rfl) turns

theorem toyDownloader_in_order : ∃ d,
    Downloader.Reached [toyOffer 1 1 [1], toyOffer 2 2 [1]] Downloader.Untaken d ∧
    d.requestTracker.sequence = [toyHeaderHash 2] ∧
    ∃ peer, d.requestTracker.getPeerByHeaderHash (toyHeaderHash 2) = some peer := by
  let targets := [toyOffer 1 1 [1], toyOffer 2 2 [1]]
  let turns := toyAsking 5 ++ toyAnswer (toyFetched 1 1) 1 8 ++ toyAsking 9
  have hone : OfferedOnce targets := by
    intro headerHash
    by_cases h₁ : toyHeaderHash 1 = headerHash
    · subst h₁
      decide +kernel
    by_cases h₂ : toyHeaderHash 2 = headerHash
    · subst h₂
      decide +kernel
    have hpeers (slotNumber : UInt64) (n : UInt8) (h : toyHeaderHash n ≠ headerHash) :
        (toyOffer slotNumber n [1]).peersOf headerHash = [] := by
      show ((AssocMap.empty.put (toyHeaderHash n) [1]).get headerHash).getD [] = []
      rw [AssocMap.get_put_ne _ _ h]
      rfl
    show offers [toyOffer 1 1 [1], toyOffer 2 2 [1]] headerHash ≤ 1
    rw [offers_cons, offers_cons, hpeers 1 1 h₁, hpeers 2 2 h₂]
    exact Nat.zero_le 1
  have hrun := requests_in_order.2 hone (toyDownloader_reached targets turns)
  have hsequence : (turns.foldl Downloader.turn (toyDownloader targets)).requestTracker.sequence
      = [toyHeaderHash 2] := by
    decide +kernel
  refine ⟨_, hrun, hsequence, (requests_in_order.1 hrun).2.2.2 (toyHeaderHash 2) ?_⟩
  rw [hsequence]
  rfl

/-- Three slots with a header hash each, the second of which two peers offer. `BlockDownloader`
    asks both of them at once. When the block has come and been added, the first entry of the
    sequence has no request: the third block has come too and is not added, and the second, sent
    again, is not taken. -/
theorem toyDownloader_stuck : ∃ d d',
    Downloader.Reached [toyOffer 1 1 [1], toyOffer 2 2 [1, 2], toyOffer 3 3 [1]] (fun _ _ => True) d ∧
    d.requestTracker.sequence = [toyHeaderHash 2, toyHeaderHash 2] ∧
    Downloader.Reached [toyOffer 1 1 [1], toyOffer 2 2 [1, 2], toyOffer 3 3 [1]]
      (fun _ _ => True) d' ∧
    d'.requestTracker.sequence = [toyHeaderHash 2, toyHeaderHash 3] ∧
    d'.requestTracker.getPeerByHeaderHash (toyHeaderHash 2) = none ∧
    (toyFetched 2 2).hash ∈ d'.requester.known ∧ (toyFetched 3 3).hash ∉ d'.requester.known ∧
    (d'.pendingBlocks.get (toyHeaderHash 3)).isSome = true ∧
    d'.blockAndPeerChannel = [] := by
  let targets := [toyOffer 1 1 [1], toyOffer 2 2 [1, 2], toyOffer 3 3 [1]]
  let asking := toyAsking 5 ++ toyAnswer (toyFetched 1 1) 1 8 ++ toyAsking 15
  let answers := toyAsking 10 ++ toyAnswer (toyFetched 2 2) 2 8 ++ toyAnswer (toyFetched 3 3) 1 3 ++
    toyAnswer (toyFetched 2 2) 2 1
  refine ⟨_, _, toyDownloader_reached targets asking, ?_,
    toyDownloader_reached targets (asking ++ answers), ?_, ?_, ?_, ?_, ?_, ?_⟩
  all_goals decide +kernel

end Zond
