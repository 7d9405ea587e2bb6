import Zond.Core.Peer

/-!
# What Sending Counts

## Main definitions

* `Sends`: Some messages join the queue, some of the queue is written, and what is written is
  counted. Only a confirmation takes anything off the counter.

## Theorems

* `talks_send`, `readNext_data`: This is what `Send` and one turn of the read loop do.
-/

namespace Zond

open Outcome

variable {ms : List LegacyMessage} {f f' : Flow}

def ackValues (ms : List LegacyMessage) : List Nat :=
  (ms.filter (fun m => m.funcName = .p2pAck)).map (fun m => (m.getP2PAckData.getD 0).toNat)

section Sizes

variable (marshalSize : LegacyMessage → Nat)

def wireSizes (ms : List LegacyMessage) : List Nat := ms.map (Flow.wireSize marshalSize)

def dataSizes (ms : List LegacyMessage) : List Nat :=
  wireSizes marshalSize (ms.filter (fun m => ¬m.funcName = .p2pAck))

def ackSizes (ms : List LegacyMessage) : List Nat :=
  wireSizes marshalSize (ms.filter (fun m => m.funcName = .p2pAck))

@[simp] theorem ackValues_append (ms ms' : List LegacyMessage) :
    ackValues (ms ++ ms') = ackValues ms ++ ackValues ms' := by
  simp only [ackValues, List.filter_append, List.map_append]

@[simp] theorem wireSizes_append (ms ms' : List LegacyMessage) :
    wireSizes marshalSize (ms ++ ms') = wireSizes marshalSize ms ++ wireSizes marshalSize ms' :=
  List.map_append

@[simp] theorem dataSizes_append (ms ms' : List LegacyMessage) :
    dataSizes marshalSize (ms ++ ms') = dataSizes marshalSize ms ++ dataSizes marshalSize ms' := by
  simp only [dataSizes, List.filter_append, wireSizes_append]

theorem ackValues_perm {ms' : List LegacyMessage} (h : ms.Perm ms') :
    (ackValues ms).Perm (ackValues ms') :=
  (h.filter _).map _

theorem ackValues_of_data (h : ∀ m ∈ ms, m.funcName ≠ .p2pAck) : ackValues ms = [] := by
  unfold ackValues
  rw [List.filter_eq_nil_iff.2 (fun m hm => by simpa using h m hm), List.map_nil]

theorem sum_wireSizes (ms : List LegacyMessage) : (wireSizes marshalSize ms).sum
      = (dataSizes marshalSize ms).sum + (ackSizes marshalSize ms).sum := by
  induction ms with
  | nil => rfl
  | cons m rest ih =>
    unfold wireSizes dataSizes ackSizes at *
    by_cases hm : m.funcName = .p2pAck
    · simp only [List.map_cons, List.sum_cons, ih, wireSizes, hm, List.filter_cons, not_true_eq_false,
        decide_false, decide_true, if_true, Bool.false_eq_true, if_false]
      omega
    · simp only [List.map_cons, List.sum_cons, ih, wireSizes, hm, List.filter_cons, not_false_eq_true,
        decide_false, decide_true, if_true, Bool.false_eq_true, if_false]
      omega

theorem sum_ackSizes_eq_zero : (ackSizes marshalSize ms).sum = 0 ↔ ackValues ms = [] := by
  unfold ackSizes ackValues wireSizes
  generalize ms.filter (fun m => m.funcName = .p2pAck) = acks
  cases acks with
  | nil => exact ⟨fun _ => rfl, fun _ => rfl⟩
  | cons m rest =>
    simp only [List.map_cons, List.sum_cons, reduceCtorEq, iff_false, Flow.wireSize]
    omega

theorem dataSizes_eq_nil : dataSizes marshalSize ms = [] ↔ ∀ m ∈ ms, m.funcName = .p2pAck := by
  unfold dataSizes wireSizes
  rw [List.map_eq_nil_iff, List.filter_eq_nil_iff]
  simp only [decide_eq_true_eq, not_not]

end Sizes

namespace Flow

variable (marshalSize : LegacyMessage → Nat)

/-- What sending does: the messages `ms` join the queue, some of the queue is written in
    whatever order, and what is written is counted. -/
structure Sends (ms : List LegacyMessage) (f f' : Flow) : Prop where
  moved : ∃ out, f'.written = f.written ++ out ∧
    (ms ++ f.outgoingQueue).Perm (out ++ f'.outgoingQueue) ∧
    f'.bytesSent.toNat = f.bytesSent.toNat + (wireSizes marshalSize out).sum
  streamUp : f'.streamUp = f.streamUp
  disconnected : f.disconnected = true → f'.disconnected = true

variable {marshalSize}

theorem Sends.of_eq (hwritten : f'.written = f.written)
    (hqueue : f'.outgoingQueue = f.outgoingQueue) (hbytes : f'.bytesSent = f.bytesSent)
    (hup : f'.streamUp = f.streamUp) (hdis : f.disconnected = true → f'.disconnected = true) :
    Sends marshalSize [] f f' := by
  refine ⟨⟨[], ?_, ?_, ?_⟩, hup, hdis⟩
  · rw [hwritten, List.append_nil]
  · rw [hqueue]
  · rw [hbytes]
    rfl

theorem Sends.refl (f : Flow) : Sends marshalSize [] f f := .of_eq rfl rfl rfl rfl id

theorem Sends.trans {ms' : List LegacyMessage} {f'' : Flow}
    (h : Sends marshalSize ms f f') (h' : Sends marshalSize ms' f' f'') :
    Sends marshalSize (ms ++ ms') f f'' := by
  rcases h.moved with ⟨out, hwritten, hperm, hbytes⟩
  rcases h'.moved with ⟨out', hwritten', hperm', hbytes'⟩
  refine ⟨⟨out ++ out', ?_, ?_, ?_⟩, h'.streamUp.trans h.streamUp,
    fun hdis => h'.disconnected (h.disconnected hdis)⟩
  · rw [hwritten', hwritten, List.append_assoc]
  · -- What was pushed later waits while the earlier part is written.
    calc (ms ++ ms' ++ f.outgoingQueue).Perm (ms' ++ (ms ++ f.outgoingQueue)) := by
          rw [← List.append_assoc]
          exact (List.perm_append_comm).append_right _
      _ |>.Perm (ms' ++ (out ++ f'.outgoingQueue)) := hperm.append_left _
      _ |>.Perm (out ++ (ms' ++ f'.outgoingQueue)) := by
          rw [← List.append_assoc, ← List.append_assoc]
          exact (List.perm_append_comm).append_right _
      _ |>.Perm (out ++ (out' ++ f''.outgoingQueue)) := hperm'.append_left _
      _ |>.Perm (out ++ out' ++ f''.outgoingQueue) := by rw [List.append_assoc]
  · rw [hbytes', hbytes, wireSizes_append, List.sum_append]
    omega

theorem Sends.trans_nil {f'' : Flow}
    (h : Sends marshalSize ms f f') (h' : Sends marshalSize [] f' f'') :
    Sends marshalSize ms f f'' := by
  have htrans := h.trans h'
  rwa [List.append_nil] at htrans

theorem Sends.ackValues_perm (h : Sends marshalSize ms f f') :
    (ackValues (f'.written ++ f'.outgoingQueue)).Perm
      (ackValues (f.written ++ f.outgoingQueue) ++ ackValues ms) := by
  rcases h.moved with ⟨out, hwritten, hperm, -⟩
  rw [hwritten, List.append_assoc, ackValues_append, ackValues_append f.written,
    List.append_assoc]
  refine List.Perm.append_left _ ?_
  refine (Zond.ackValues_perm hperm.symm).trans ?_
  rw [ackValues_append]
  exact List.perm_append_comm

theorem Sends.counted {k : Nat} (h : Sends marshalSize ms f f')
    (hk : f.bytesSent.toNat + k = (wireSizes marshalSize f.written).sum) :
    f'.bytesSent.toNat + k = (wireSizes marshalSize f'.written).sum := by
  rcases h.moved with ⟨out, hwritten, -, hbytes⟩
  rw [hwritten, wireSizes_append, List.sum_append, hbytes]
  omega

theorem sends_updateCounters (f : Flow) (time : UInt64) :
    Sends marshalSize [] f (f.updateCounters time) := by
  unfold updateCounters
  split
  · exact .of_eq rfl rfl rfl rfl id
  · exact .refl f

section Bounded

variable (hsize : ∀ m, marshalSize m + 4 < 2 ^ 32)
include hsize

theorem toNat_bytesSent_add (hlt : f.bytesSent < Config.maxBytesOut) (m : LegacyMessage) :
    (f.bytesSent + UInt64.ofNat (wireSize marshalSize m)).toNat
      = f.bytesSent.toNat + wireSize marshalSize m := by
  have hm := hsize m
  have hbound : f.bytesSent.toNat < Config.maxBytesOut.toNat := UInt64.lt_iff_toNat_lt.1 hlt
  have hmax : Config.maxBytesOut.toNat = 10484736 := by decide
  have hwire : (UInt64.ofNat (wireSize marshalSize m)).toNat = wireSize marshalSize m := by
    rw [UInt64.toNat_ofNat']
    refine Nat.mod_eq_of_lt ?_
    unfold wireSize
    omega
  rw [UInt64.toNat_add, hwire]
  refine Nat.mod_eq_of_lt ?_
  unfold wireSize
  omega

theorem sends_write (hlt : f.bytesSent < Config.maxBytesOut) (m : LegacyMessage)
    (rest : List LegacyMessage) : Sends marshalSize [] { f with outgoingQueue := m :: rest }
      { f with
        bytesSent := f.bytesSent + UInt64.ofNat (wireSize marshalSize m)
        written := f.written ++ [m]
        outgoingQueue := rest } := by
  refine ⟨⟨[m], rfl, .refl _, ?_⟩, rfl, id⟩
  rw [toNat_bytesSent_add hsize hlt]
  rfl

theorem sends_writeQueue (queue : List LegacyMessage) (f : Flow) (hup : f.streamUp = true) :
    Sends marshalSize [] { f with outgoingQueue := queue } (writeQueue marshalSize queue f).1 := by
  induction queue generalizing f with
  | nil =>
    unfold writeQueue
    split
    · exact .refl _
    · exact .refl _
  | cons m rest ih =>
    unfold writeQueue
    split
    · rename_i hlt
      dsimp only
      rw [if_pos hup]
      have hrest := ih { f with
        bytesSent := f.bytesSent + UInt64.ofNat (wireSize marshalSize m)
        written := f.written ++ [m] } hup
      exact (sends_write hsize hlt m rest).trans hrest
    · exact .refl _

theorem sends_sendNext (time : UInt64) (f : Flow) (hup : f.streamUp = true) :
    Sends marshalSize [] f (sendNext marshalSize time f).1 := by
  unfold sendNext
  split
  · exact .refl f
  · have hcounters := @sends_updateCounters marshalSize f time
    dsimp only
    split
    · exact hcounters
    · exact hcounters.trans (sends_writeQueue hsize _ _ (hcounters.streamUp.trans hup))

/-- `Send` puts the message on the queue. The only way not to is to fail with a full
    queue, or to have a name without a priority. -/
theorem sends_send (time : UInt64) (m : LegacyMessage) (f : Flow) (hup : f.streamUp = true) :
    Sends marshalSize [m] f (send marshalSize time m f).1 ∨
      (f = (send marshalSize time m f).1 ∧
        ((send marshalSize time m f).2.isSome = true ∨ ¬m.funcName.IsNamed)) := by
  unfold send
  split
  · split
    · exact .inr ⟨rfl, .inl rfl⟩
    · refine .inl ?_
      have hpush : Sends marshalSize [m] f { f with outgoingQueue := m :: f.outgoingQueue } :=
        ⟨⟨[], (List.append_nil _).symm, .refl _, rfl⟩, rfl, id⟩
      exact hpush.trans (sends_sendNext hsize time _ hup)
  · rename_i hname
    exact .inr ⟨rfl, .inr hname⟩

end Bounded

end Flow

namespace Peer

variable {ext : Externals} {time : UInt64} {marshalSize : LegacyMessage → Nat} {p : Peer}
  {node : PeerNode} {m : LegacyMessage} {r : Handled}

/-- What a connection may do of its own accord: send messages that ask for a
    confirmation. -/
def Talks (marshalSize : LegacyMessage → Nat) (f f' : Flow) : Prop :=
  ∃ ms : List LegacyMessage, (∀ m ∈ ms, m.funcName ≠ .p2pAck) ∧ Flow.Sends marshalSize ms f f'

theorem Talks.of_sends (h : Flow.Sends marshalSize [] f f') : Talks marshalSize f f' :=
  ⟨[], fun _ hmem => absurd hmem List.not_mem_nil, h⟩

theorem Talks.of_eq (h : f' = f) : Talks marshalSize f f' := by
  subst h
  exact .of_sends (.refl _)

section Silent

/-! The messages that are not answered leave the outgoing half as it is. -/

theorem flow_handlePeerList (h : p.handlePeerList node m = .ok r) : r.peer.flow = p.flow := by
  unfold handlePeerList at h
  split at h
  · cases h
    rfl
  · rcases bind_eq_ok.1 h with ⟨plData, -, h⟩
    cases h
    rfl

theorem flow_handlePushBlock (h : p.handlePushBlock node m = .ok r) : r.peer.flow = p.flow := by
  rcases bind_eq_ok.1 h with ⟨block, -, h⟩
  split at h
  · cases h
    rfl
  · cases h
    rfl

theorem flow_handleChainState (h : p.handleChainState time node m = .ok r) :
    r.peer.flow = p.flow := by
  rcases bind_eq_ok.1 h with ⟨state, -, h⟩
  cases h
  rfl

theorem flow_handleBlockForAttestation (h : p.handleBlockForAttestation ext node m = .ok r) :
    r.peer.flow = p.flow := by
  rcases bind_eq_ok.1 h with ⟨ba, -, h⟩
  rcases bind_eq_ok.1 h with ⟨pbBlock, -, h⟩
  rcases bind_eq_ok.1 h with ⟨b, -, h⟩
  rcases bind_eq_ok.1 h with ⟨hash, -, h⟩
  split at h
  · cases h
    rfl
  · cases h
    rfl

theorem flow_handleBlock (h : p.handleBlock ext time node m = .ok r) : r.peer.flow = p.flow := by
  rcases bind_eq_ok.1 h with ⟨pbBlock, -, h⟩
  rcases bind_eq_ok.1 h with ⟨b, -, h⟩
  rcases bind_eq_ok.1 h with ⟨expectedHash, -, h⟩
  split at h
  · cases h
    rfl
  · split at h
    · rcases bind_eq_ok.1 h with ⟨⟨added, chain⟩, -, h⟩
      dsimp only at h
      split at h
      · cases h
        rfl
      · cases h
        rfl
    · cases h
      rfl

theorem flow_handleTransaction {txData : Option Transaction}
    (h : p.handleTransaction ext time node m txData = .ok r) : r.peer.flow = p.flow := by
  rcases bind_eq_ok.1 h with ⟨tx, -, h⟩
  rcases bind_eq_ok.1 h with ⟨txHash, -, h⟩
  split at h
  · rcases bind_eq_ok.1 h with ⟨valid, -, h⟩
    split at h
    · cases h
      rfl
    · rcases bind_eq_ok.1 h with ⟨pool, -, h⟩
      split at h
      · cases h
        rfl
      · cases h
        rfl
  · cases h
    rfl

theorem flow_handleAttestTransaction (h : p.handleAttestTransaction ext node m = .ok r) :
    r.peer.flow = p.flow := by
  rcases bind_eq_ok.1 h with ⟨txData, -, h⟩
  rcases bind_eq_ok.1 h with ⟨tx, -, h⟩
  rcases bind_eq_ok.1 h with ⟨txHash, -, h⟩
  split at h
  · dsimp only at h
    split at h
    · cases h
      rfl
    · rcases bind_eq_ok.1 h with ⟨validators, -, h⟩
      split at h
      · cases h
        rfl
      · rcases bind_eq_ok.1 h with ⟨valid, -, h⟩
        split at h
        · cases h
          rfl
        · cases h
          rfl
  · cases h
    rfl

end Silent

section Answers

variable (hsize : ∀ m, marshalSize m + 4 < 2 ^ 32)
include hsize

theorem talks_send (hup : f.streamUp = true) (hm : m.funcName ≠ .p2pAck) :
    Talks marshalSize f (f.send marshalSize time m).1 := by
  rcases Flow.sends_send hsize time m f hup with hsends | ⟨hsame, -⟩
  · exact ⟨[m], fun m' hmem => List.mem_singleton.1 hmem ▸ hm, hsends⟩
  · exact .of_eq hsame.symm

theorem talks_handleVersion (hup : p.flow.streamUp = true) :
    Talks marshalSize p.flow (p.handleVersion marshalSize time node m).peer.flow := by
  unfold handleVersion
  split
  · exact talks_send hsize hup (by decide)
  · exact .of_eq rfl

theorem talks_handleSendFullMessage (hup : p.flow.streamUp = true)
    (h : p.handleSendFullMessage marshalSize time node m = .ok r) :
    Talks marshalSize p.flow r.peer.flow := by
  rcases bind_eq_ok.1 h with ⟨mrData, -, h⟩
  split at h
  · cases h
    exact .of_eq rfl
  · rename_i out hout
    cases h
    -- Only announced kinds are kept for passing on, and a confirmation is none.
    refine talks_send hsize hup fun hack => ?_
    have hallowed := node.mr.allowed _ _ hout
    rw [hack] at hallowed
    exact hallowed

theorem talks_handleEpochBlockHashesRequest (hup : p.flow.streamUp = true)
    (h : p.handleEpochBlockHashesRequest marshalSize time node m = .ok r) :
    Talks marshalSize p.flow r.peer.flow := by
  rcases bind_eq_ok.1 h with ⟨ebhReq, -, h⟩
  split at h
  · cases h
    exact .of_eq rfl
  · cases h
    exact talks_send hsize hup (by simp only [ne_eq, reduceCtorEq, not_false_eq_true])

theorem talks_handleFetchBlock (hup : p.flow.streamUp = true)
    (h : p.handleFetchBlock marshalSize time node m = .ok r) :
    Talks marshalSize p.flow r.peer.flow := by
  rcases bind_eq_ok.1 h with ⟨blockHeaderHash, -, h⟩
  split at h
  · cases h
    exact .of_eq rfl
  · cases h
    exact talks_send hsize hup (by simp only [ne_eq, reduceCtorEq, not_false_eq_true])

theorem talks_handle (hup : p.flow.streamUp = true)
    (h : handle ext time marshalSize p node m = .ok r) (hm : m.funcName ≠ .p2pAck) :
    Talks marshalSize p.flow r.peer.flow := by
  unfold handle at h
  split at h
  · cases h
    exact talks_handleVersion hsize hup
  · exact .of_eq (flow_handlePeerList h)
  · cases h
    exact .of_eq rfl
  · exact talks_handleSendFullMessage hsize hup h
  · exact .of_eq (flow_handleBlockForAttestation h)
  · exact .of_eq (flow_handleBlock h)
  · exact talks_handleEpochBlockHashesRequest hsize hup h
  · cases h
    exact .of_eq rfl
  · exact talks_handleFetchBlock hsize hup h
  · exact .of_eq (flow_handlePushBlock h)
  · exact .of_eq (flow_handleTransaction h)
  · exact .of_eq (flow_handleTransaction h)
  · exact .of_eq (flow_handleAttestTransaction h)
  · exact .of_eq (flow_handleChainState h)
  · rename_i hack
    exact absurd hack hm
  all_goals
    cases h
    exact .of_eq rfl

theorem sends_handle_ack (hup : p.flow.streamUp = true)
    (h : handle ext time marshalSize p node m = .ok r) (hm : m.funcName = .p2pAck) :
    ∃ k, m.getP2PAckData = some k ∧ Flow.Sends marshalSize [] (p.flow.settle k) r.peer.flow := by
  unfold handle at h
  rw [hm] at h
  rcases bind_eq_ok.1 h with ⟨k, hk, h⟩
  cases h
  exact ⟨k, orFail_eq_ok.1 hk, Flow.sends_sendNext hsize time _ hup⟩

/-- A turn of the read loop over a message that asks for a confirmation: the confirmation
    is sent, or the connection is over. -/
theorem readNext_data {on : Bool} (hup : p.flow.streamUp = true)
    (h : readNext ext time marshalSize p node m = .ok (on, r)) (hm : m.funcName ≠ .p2pAck) :
    ∃ ms, (∀ m ∈ ms, LegacyMessage.funcName m ≠ .p2pAck) ∧
      (Flow.Sends marshalSize (ms ++ [ack (UInt32.ofNat (marshalSize m) + 4)]) p.flow r.peer.flow ∨
        (Flow.Sends marshalSize ms p.flow r.peer.flow ∧ r.peer.flow.disconnected = true)) := by
  unfold readNext at h
  dsimp only at h
  rcases bind_eq_ok.1 h with ⟨r', hr, h⟩
  have hcounters := @Flow.sends_updateCounters marshalSize p.flow time
  have hup' := hcounters.streamUp.trans hup
  rcases talks_handle hsize hup' hr hm with ⟨ms, hms, hsends⟩
  have hhandled : Flow.Sends marshalSize ms p.flow r'.peer.flow := hcounters.trans hsends
  refine ⟨ms, hms, ?_⟩
  split at h
  · cases h
    exact .inr ⟨hhandled.trans_nil (.of_eq rfl rfl rfl rfl fun _ => rfl), rfl⟩
  · split at h
    · cases h
      exact .inr ⟨hhandled.trans_nil (.of_eq rfl rfl rfl rfl fun _ => rfl), rfl⟩
    · cases h
      -- The loop has counted the message and confirms it.
      have hcounted : Flow.Sends marshalSize ms p.flow
          { r'.peer.flow with inCounter := r'.peer.flow.inCounter + 1 } :=
        hhandled.trans_nil (.of_eq rfl rfl rfl rfl fun hdis => hdis)
      have hsent := Flow.sends_send hsize time (ack (UInt32.ofNat (marshalSize m) + 4))
        { r'.peer.flow with inCounter := r'.peer.flow.inCounter + 1 }
        (hhandled.streamUp.trans hup)
      dsimp only
      rcases hsent with hsent | ⟨hsame, herr | hname⟩
      · refine .inl ?_
        split
        · exact (hcounted.trans hsent).trans_nil (.of_eq rfl rfl rfl rfl fun _ => rfl)
        · exact hcounted.trans hsent
      · refine .inr ?_
        rw [if_pos herr, ← hsame]
        exact ⟨hcounted.trans_nil (.of_eq rfl rfl rfl rfl fun _ => rfl), rfl⟩
      · exact absurd trivial hname

theorem readNext_ack {on : Bool} (hup : p.flow.streamUp = true)
    (h : readNext ext time marshalSize p node m = .ok (on, r)) (hm : m.funcName = .p2pAck) :
    ∃ k, m.getP2PAckData = some k ∧ Flow.Sends marshalSize [] (p.flow.settle k) r.peer.flow := by
  unfold readNext at h
  dsimp only at h
  rcases bind_eq_ok.1 h with ⟨r', hr, h⟩
  have hcounters := @Flow.sends_updateCounters marshalSize p.flow time
  have hup' := hcounters.streamUp.trans hup
  rcases sends_handle_ack hsize hup' hr hm with ⟨k, hk, hsends⟩
  have hsettled : Flow.Sends marshalSize [] (p.flow.settle k)
      ((p.flow.updateCounters time).settle k) := by
    unfold Flow.updateCounters
    split
    · exact .of_eq rfl rfl rfl rfl fun hdis => hdis
    · exact .refl _
  have hhandled := hsettled.trans hsends
  refine ⟨k, hk, ?_⟩
  split at h
  · cases h
    exact hhandled.trans_nil (.of_eq rfl rfl rfl rfl fun _ => rfl)
  · split at h
    · cases h
      exact hhandled.trans_nil (.of_eq rfl rfl rfl rfl fun _ => rfl)
    · cases h
      exact hhandled.trans_nil (.of_eq rfl rfl rfl rfl fun hdis => hdis)

end Answers

end Peer

end Zond
