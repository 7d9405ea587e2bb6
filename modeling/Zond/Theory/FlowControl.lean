import Mathlib.Data.List.Perm.Basic
import Zond.Theory.Sending

/-!
# Flow Control

Two nodes at the ends of a connection, each with its stream to the other. A node sends
messages of its own whenever it likes, and its read loop takes the messages of the other
one by one, handles each and confirms it. A confirmation is a message as well: it is
counted when it is written, and never confirmed.

## Main definitions

* `Link.Run`: Any interleaving of the two.
* `Balanced`: What is written, under way and confirmed adds up.

## Theorems

* `bytesSent_accounts`: The counter of a node is what it has written less what was confirmed.
-/

namespace Zond

variable {l l' : Link} {k : UInt32}

theorem exists_perm_map {α β : Type} (f : α → β) {images : List β} :
    ∀ {l : List α}, (l.map f).Perm images → ∃ l', l.Perm l' ∧ l'.map f = images := by
  induction images with
  | nil =>
    intro l h
    rw [List.perm_nil, List.map_eq_nil_iff] at h
    exact ⟨[], h ▸ .nil, rfl⟩
  | cons b rest ih =>
    intro l h
    have hmem : b ∈ l.map f := h.mem_iff.2 List.mem_cons_self
    rcases List.mem_map.1 hmem with ⟨a, ha, rfl⟩
    rcases List.append_of_mem ha with ⟨front, back, rfl⟩
    have hfirst : (front ++ a :: back).Perm (a :: (front ++ back)) := List.perm_middle
    have hrest : ((front ++ back).map f).Perm rest := (((hfirst.map f).symm.trans h).cons_inv)
    rcases ih hrest with ⟨l', hperm, hmap⟩
    refine ⟨a :: l', hfirst.trans (hperm.cons a), ?_⟩
    rw [List.map_cons, hmap]

inductive Side where
  | left
  | right
deriving DecidableEq

def Side.other : Side → Side
  | left => right
  | right => left

@[simp] theorem Side.other_other (s : Side) : s.other.other = s := by
  cases s <;> rfl

theorem Side.other_ne (s : Side) : s.other ≠ s := by
  cases s <;> decide

theorem Side.eq_or_eq_other (s t : Side) : t = s ∨ t = s.other := by
  cases s <;> cases t <;> decide

/-- A connection: its two ends, which of them still reads, and how many messages of the
    other's stream each has read. -/
structure Link where
  peer : Side → Peer
  reading : Side → Bool
  read : Side → Nat

namespace Link

def flow (l : Link) (s : Side) : Flow := (l.peer s).flow

def stream (l : Link) (s : Side) : List LegacyMessage := (l.flow s).written

def received (l : Link) (s : Side) : List LegacyMessage := (l.stream s.other).take (l.read s)

def Fresh (l : Link) : Prop :=
  ∀ s, l.flow s = Flow.new ∧ l.read s = 0

/-- Both ends are connected, all that was queued is written and all that was written is
    read. -/
def Quiet (l : Link) : Prop :=
  ∀ s, (l.flow s).disconnected = false ∧ (l.flow s).outgoingQueue = [] ∧
    l.received s = l.stream s.other

def setPeer (l : Link) (s : Side) (p : Peer) : Link :=
  { l with peer := Function.update l.peer s p }

variable (ext : Externals) (marshalSize : LegacyMessage → Nat)

/-- What can happen: an end sends a message of its own, reads the next message of the
    other, or is disconnected by its node. Between two reads the node may change. -/
inductive Step : Link → Link → Prop
  | send {l : Link} (s : Side) (time : UInt64) {m : LegacyMessage} (hm : m.funcName ≠ .p2pAck) :
      Step l (l.setPeer s ((l.peer s).send marshalSize time m))
  | read {l : Link} (s : Side) (time : UInt64) (node : PeerNode) {m : LegacyMessage} {on : Bool}
      {r : Peer.Handled} (hreading : l.reading s = true)
      (hnext : (l.stream s.other)[l.read s]? = some m)
      (h : (l.peer s).readNext ext time marshalSize node m = .ok (on, r)) :
      Step l { l.setPeer s r.peer with
        reading := Function.update l.reading s on
        read := Function.update l.read s (l.read s + 1) }
  | disconnect {l : Link} (s : Side) :
      Step l (l.setPeer s { l.peer s with flow := (l.flow s).disconnect })

abbrev Run : Link → Link → Prop := Relation.ReflTransGen (Step ext marshalSize)

variable {ext}

/-- What holds in every state of a connection. Nobody has read more than was written. The
    counter is what was written less what was confirmed. And the messages an end has read
    are those it has confirmed, with the confirmation written or queued, and some whose
    confirmation was lost, which ends the connection. -/
structure Balanced (l : Link) : Prop where
  streamUp : ∀ s, (l.flow s).streamUp = true
  behind : ∀ s, l.read s ≤ (l.stream s.other).length
  counted : ∀ s, (l.flow s).bytesSent.toNat + (ackValues (l.received s)).sum
    = (wireSizes marshalSize (l.stream s)).sum
  confirmed : ∀ s, ∃ lost, (dataSizes marshalSize (l.received s)).Perm
      (ackValues (l.stream s ++ (l.flow s).outgoingQueue) ++ lost) ∧
    ((l.flow s).disconnected = false → lost = [])

variable {marshalSize}

theorem balanced_of_fresh (h : l.Fresh) : Balanced marshalSize l := by
  have hstream : ∀ s, l.stream s = [] := fun s => by
    unfold stream
    rw [(h s).1]
    rfl
  have hreceived : ∀ s, l.received s = [] := fun s => by
    unfold received
    rw [hstream, List.take_nil]
  refine ⟨fun s => ?_, fun s => ?_, fun s => ?_, fun s => ⟨[], ?_, fun _ => rfl⟩⟩
  · rw [(h s).1]
    rfl
  · rw [(h s).2]
    exact Nat.zero_le _
  · rw [(h s).1, hreceived, hstream]
    rfl
  · rw [(h s).1, hreceived, hstream]
    exact .nil

theorem Balanced.of_move (h : Balanced marshalSize l) (s : Side)
    {out : List LegacyMessage} (hother : l'.flow s.other = l.flow s.other)
    (hread : l'.read s.other = l.read s.other) (hup : (l'.flow s).streamUp = true)
    (hwritten : l'.stream s = l.stream s ++ out) (hbehind : l'.read s ≤ (l.stream s.other).length)
    (hcounted : (l'.flow s).bytesSent.toNat + (ackValues (l'.received s)).sum
      = (wireSizes marshalSize (l'.stream s)).sum)
    (hconfirmed : ∃ lost, (dataSizes marshalSize (l'.received s)).Perm
        (ackValues (l'.stream s ++ (l'.flow s).outgoingQueue) ++ lost) ∧
      ((l'.flow s).disconnected = false → lost = [])) : Balanced marshalSize l' := by
  have hstream : l'.stream s.other = l.stream s.other := by
    unfold stream
    rw [hother]
  have hkept : l.read s.other ≤ (l.stream s).length := by
    have hle := h.behind s.other
    rwa [Side.other_other] at hle
  have hreceived : l'.received s.other = l.received s.other := by
    unfold received
    rw [hread, Side.other_other, hwritten, List.take_append_of_le_length hkept]
  refine ⟨fun t => ?_, fun t => ?_, fun t => ?_, fun t => ?_⟩ <;>
    rcases Side.eq_or_eq_other s t with rfl | rfl
  · exact hup
  · rw [hother]
    exact h.streamUp _
  · rw [hstream]
    exact hbehind
  · rw [Side.other_other, hread, hwritten, List.length_append]
    exact Nat.le_add_right_of_le hkept
  · exact hcounted
  · rw [hother, hreceived, hstream]
    exact h.counted _
  · exact hconfirmed
  · rw [hother, hreceived, hstream]
    exact h.confirmed _

theorem Balanced.talk (h : Balanced marshalSize l) (s : Side)
    (hother : l'.flow s.other = l.flow s.other) (hread : l'.read = l.read)
    (htalks : Peer.Talks marshalSize (l.flow s) (l'.flow s)) : Balanced marshalSize l' := by
  rcases htalks with ⟨ms, hms, hsends⟩
  rcases hsends.moved with ⟨out, hwritten, -, -⟩
  have hreceived : l'.received s = l.received s := by
    unfold received stream
    rw [hother, hread]
  refine h.of_move s hother (by rw [hread]) (hsends.streamUp.trans (h.streamUp s)) hwritten
    (by rw [hread]; exact h.behind s) ?_ ?_
  · rw [hreceived]
    exact hsends.counted (h.counted s)
  · rcases h.confirmed s with ⟨lost, hperm, hprompt⟩
    refine ⟨lost, ?_, fun hdis => hprompt ?_⟩
    · -- What was pushed asks for a confirmation and is none.
      have hacks := hsends.ackValues_perm
      rw [ackValues_of_data hms, List.append_nil] at hacks
      rw [hreceived]
      exact hperm.trans (hacks.symm.append_right _)
    · by_contra hcut
      rw [Bool.not_eq_false] at hcut
      rw [hsends.disconnected hcut] at hdis
      cases hdis

theorem received_succ {s : Side} {m : LegacyMessage}
    (hother : l'.flow s.other = l.flow s.other) (hread : l'.read s = l.read s + 1)
    (hnext : (l.stream s.other)[l.read s]? = some m) : l'.received s = l.received s ++ [m] := by
  have hlt : l.read s < (l.stream s.other).length := (List.getElem?_eq_some_iff.1 hnext).1
  unfold received stream
  rw [hother, hread]
  change (l.stream s.other).take (l.read s + 1) = _
  rw [List.take_succ_eq_append_getElem hlt, (List.getElem?_eq_some_iff.1 hnext).2]
  rfl

section Reading

variable {l l' : Link} {s : Side} {m : LegacyMessage} (h : Balanced marshalSize l)
  (hother : l'.flow s.other = l.flow s.other) (hreads : l'.read s.other = l.read s.other)
  (hread : l'.read s = l.read s + 1) (hnext : (l.stream s.other)[l.read s]? = some m)
include h hother hreads hread hnext

theorem Balanced.confirm {ms : List LegacyMessage} (hms : ∀ m ∈ ms, m.funcName ≠ .p2pAck)
    (hm : m.funcName ≠ .p2pAck) (hk : k.toNat = Flow.wireSize marshalSize m)
    (hsends : Flow.Sends marshalSize (ms ++ [ack k]) (l.flow s) (l'.flow s) ∨
      (Flow.Sends marshalSize ms (l.flow s) (l'.flow s) ∧ (l'.flow s).disconnected = true)) :
    Balanced marshalSize l' := by
  have hlt : l.read s < (l.stream s.other).length := (List.getElem?_eq_some_iff.1 hnext).1
  have hreceived := received_succ hother hread hnext
  have hdata : dataSizes marshalSize [m] = [Flow.wireSize marshalSize m] := by
    unfold dataSizes
    rw [List.filter_cons_of_pos (by simpa using hm)]
    rfl
  have hmove : ∃ ms', Flow.Sends marshalSize ms' (l.flow s) (l'.flow s) := by
    rcases hsends with hsends | ⟨hsends, -⟩
    · exact ⟨_, hsends⟩
    · exact ⟨_, hsends⟩
  rcases hmove with ⟨ms', hmove⟩
  rcases hmove.moved with ⟨out, hwritten, -, -⟩
  refine h.of_move s hother hreads (hmove.streamUp.trans (h.streamUp s)) hwritten
    (by rw [hread]; exact hlt) ?_ ?_
  · rw [hreceived, ackValues_append, @ackValues_of_data [m] (by simpa using hm),
      List.append_nil]
    exact hmove.counted (h.counted s)
  · rcases h.confirmed s with ⟨lost, hperm, hprompt⟩
    rw [hreceived, dataSizes_append, hdata]
    rcases hsends with hsends | ⟨hsends, hcut⟩
    · refine ⟨lost, ?_, fun hdis => hprompt ?_⟩
      · have hacks := hsends.ackValues_perm
        rw [ackValues_append ms, ackValues_of_data hms, List.nil_append] at hacks
        have hone : ackValues [ack k] = [Flow.wireSize marshalSize m] := by
          rw [← hk]
          rfl
        rw [hone] at hacks
        calc (dataSizes marshalSize (l.received s) ++ [Flow.wireSize marshalSize m]).Perm
              (ackValues (l.stream s ++ (l.flow s).outgoingQueue) ++ lost ++
                [Flow.wireSize marshalSize m]) := hperm.append_right _
          _ |>.Perm (ackValues (l.stream s ++ (l.flow s).outgoingQueue) ++
                [Flow.wireSize marshalSize m] ++ lost) := by
              rw [List.append_assoc, List.append_assoc]
              exact List.perm_append_comm.append_left _
          _ |>.Perm (ackValues (l'.stream s ++ (l'.flow s).outgoingQueue) ++ lost) :=
              hacks.symm.append_right _
      · by_contra hcut
        rw [Bool.not_eq_false] at hcut
        rw [hsends.disconnected hcut] at hdis
        cases hdis
    · -- The confirmation is lost, and the connection with it.
      refine ⟨lost ++ [Flow.wireSize marshalSize m], ?_, fun hdis => ?_⟩
      · have hacks := hsends.ackValues_perm
        rw [ackValues_of_data hms, List.append_nil] at hacks
        rw [← List.append_assoc]
        exact (hperm.trans (hacks.symm.append_right _)).append_right _
      · rw [hcut] at hdis
        cases hdis

omit hreads in
/-- What an end is confirmed next is covered by its counter: the confirmations in the
    other's stream are those of messages the other has read, all of which were counted. -/
theorem Balanced.covered (hm : m.funcName = .p2pAck)
    (hk : m.getP2PAckData = some k) : k.toNat ≤ (l.flow s).bytesSent.toNat := by
  rcases h.confirmed s.other with ⟨lost, hperm, -⟩
  have hone : ackValues [m] = [k.toNat] := by
    unfold ackValues
    rw [List.filter_cons_of_pos (by simpa using hm), List.filter_nil, List.map_singleton, hk]
    rfl
  have hreceived := received_succ hother hread hnext
  -- What the end has been confirmed, this message included, stands in the other's stream.
  have hprefix : ∃ later, l.stream s.other = l.received s ++ [m] ++ later := by
    refine ⟨(l.stream s.other).drop (l.read s + 1), ?_⟩
    rw [← hreceived]
    unfold received stream
    rw [hother, hread]
    exact (List.take_append_drop _ _).symm
  rcases hprefix with ⟨later, hlater⟩
  have hsum := hperm.sum_eq
  rw [hlater, ackValues_append, ackValues_append, ackValues_append, hone] at hsum
  simp only [List.sum_append, List.sum_singleton] at hsum
  have hdata : (dataSizes marshalSize (l.received s.other)).sum
      ≤ (dataSizes marshalSize (l.stream s)).sum := by
    have hsplit := List.take_append_drop (l.read s.other) (l.stream s)
    rw [← hsplit, dataSizes_append, List.sum_append]
    unfold received
    rw [Side.other_other]
    exact Nat.le_add_right _ _
  have hcounted := h.counted s
  rw [sum_wireSizes] at hcounted
  omega

theorem Balanced.settle (hm : m.funcName = .p2pAck) (hk : m.getP2PAckData = some k)
    (hsends : Flow.Sends marshalSize [] ((l.flow s).settle k) (l'.flow s)) :
    Balanced marshalSize l' := by
  have hlt : l.read s < (l.stream s.other).length := (List.getElem?_eq_some_iff.1 hnext).1
  have hreceived := received_succ hother hread hnext
  have hcovered := h.covered hother hread hnext hm hk
  have hbytes : ((l.flow s).settle k).bytesSent.toNat = (l.flow s).bytesSent.toNat - k.toNat := by
    have hle : k.toUInt64 ≤ (l.flow s).bytesSent := by
      rw [UInt64.le_iff_toNat_le, UInt32.toNat_toUInt64]
      exact hcovered
    unfold Flow.settle
    rw [UInt64.toNat_sub_of_le _ _ hle, UInt32.toNat_toUInt64]
  have hone : ackValues [m] = [k.toNat] := by
    unfold ackValues
    rw [List.filter_cons_of_pos (by simpa using hm), List.filter_nil, List.map_singleton, hk]
    rfl
  rcases hsends.moved with ⟨out, hwritten, -, -⟩
  refine h.of_move s hother hreads (hsends.streamUp.trans (h.streamUp s)) hwritten
    (by rw [hread]; exact hlt) ?_ ?_
  · refine hsends.counted ?_
    have hcounted := h.counted s
    rw [hbytes, hreceived, ackValues_append, hone, List.sum_append, List.sum_singleton]
    change _ = (wireSizes marshalSize (l.stream s)).sum
    omega
  · rcases h.confirmed s with ⟨lost, hperm, hprompt⟩
    refine ⟨lost, ?_, fun hdis => hprompt ?_⟩
    · have hacks := hsends.ackValues_perm
      have hnone : dataSizes marshalSize [m] = [] :=
        (dataSizes_eq_nil marshalSize).2 (by simpa using hm)
      rw [hreceived, dataSizes_append, hnone, List.append_nil]
      refine hperm.trans (List.Perm.append_right _ ?_)
      have hnil : ackValues [] = [] := rfl
      rw [hnil, List.append_nil] at hacks
      exact hacks.symm
    · by_contra hcut
      rw [Bool.not_eq_false] at hcut
      rw [hsends.disconnected hcut] at hdis
      cases hdis

end Reading

section Steps

variable (hsize : ∀ m, marshalSize m + 4 < 2 ^ 32)
include hsize

theorem toNat_sizeRead (m : LegacyMessage) :
    (UInt32.ofNat (marshalSize m) + 4).toNat = Flow.wireSize marshalSize m := by
  have hm := hsize m
  rw [UInt32.toNat_add, UInt32.toNat_ofNat']
  change (marshalSize m % 2 ^ 32 + 4) % 2 ^ 32 = 4 + marshalSize m
  rw [Nat.mod_eq_of_lt (by omega : marshalSize m < 2 ^ 32), Nat.mod_eq_of_lt hm]
  omega

theorem Balanced.step (h : Balanced marshalSize l)
    (hstep : Step ext marshalSize l l') : Balanced marshalSize l' := by
  cases hstep with
  | @send s time m hm =>
    refine h.talk s ?_ rfl ?_
    · exact congrArg Peer.flow (Function.update_of_ne s.other_ne _ _)
    · have htalks := @Peer.talks_send (l.flow s) time marshalSize m hsize (h.streamUp s) hm
      change Peer.Talks marshalSize (l.flow s) (Function.update l.peer s _ s).flow
      rw [Function.update_self]
      exact htalks
  | disconnect s =>
    refine h.talk s ?_ rfl ?_
    · exact congrArg Peer.flow (Function.update_of_ne s.other_ne _ _)
    · change Peer.Talks marshalSize (l.flow s) (Function.update l.peer s _ s).flow
      rw [Function.update_self]
      exact .of_sends (.of_eq rfl rfl rfl rfl fun _ => rfl)
  | @read s time node m on r hreading hnext hr =>
    have hother : Peer.flow (Function.update l.peer s r.peer s.other) = l.flow s.other :=
      congrArg Peer.flow (Function.update_of_ne s.other_ne _ _)
    have hreads : Function.update l.read s (l.read s + 1) s.other = l.read s.other :=
      Function.update_of_ne s.other_ne _ _
    have hread : Function.update l.read s (l.read s + 1) s = l.read s + 1 :=
      Function.update_self ..
    have hflow : Peer.flow (Function.update l.peer s r.peer s) = r.peer.flow :=
      congrArg Peer.flow (Function.update_self ..)
    by_cases hm : m.funcName = .p2pAck
    · rcases Peer.readNext_ack hsize (h.streamUp s) hr hm with ⟨k, hk, hsends⟩
      refine h.settle (s := s) hother hreads hread hnext hm hk ?_
      change Flow.Sends marshalSize [] _ (Peer.flow (Function.update l.peer s r.peer s))
      rw [hflow]
      exact hsends
    · rcases Peer.readNext_data hsize (h.streamUp s) hr hm with ⟨ms, hms, hsends⟩
      refine h.confirm (s := s) hother hreads hread hnext hms hm (toNat_sizeRead hsize m) ?_
      change Flow.Sends marshalSize _ _ (Peer.flow (Function.update l.peer s r.peer s)) ∨
        Flow.Sends marshalSize _ _ (Peer.flow (Function.update l.peer s r.peer s)) ∧
          (Peer.flow (Function.update l.peer s r.peer s)).disconnected = true
      rw [hflow]
      exact hsends

theorem balanced_of_run {l₀ : Link} (hfresh : l₀.Fresh) (hrun : Run ext marshalSize l₀ l) :
    Balanced marshalSize l := by
  induction hrun with
  | refl => exact balanced_of_fresh hfresh
  | tail _ hstep ih => exact ih.step hsize hstep

end Steps

/-- What the counter of one end stands for. The messages it has written are those whose
    confirmation it has read and the others, and the counter is the size of the others. A
    confirmation that was read is that of a message which asked for one. -/
def Accounts (marshalSize : LegacyMessage → Nat) (l : Link) (s : Side) : Prop :=
  ∃ confirmed unconfirmed, (l.stream s).Perm (confirmed ++ unconfirmed) ∧
    (∀ m ∈ confirmed, m.funcName ≠ .p2pAck) ∧
    wireSizes marshalSize confirmed = ackValues (l.received s) ∧
    (l.flow s).bytesSent.toNat = (wireSizes marshalSize unconfirmed).sum

theorem Balanced.exists_confirmed (h : Balanced marshalSize l) (s : Side) :
    ∃ confirmed rest, ((l.stream s).filter (fun m => ¬m.funcName = .p2pAck)).Perm
        (confirmed ++ rest) ∧
      wireSizes marshalSize confirmed = ackValues (l.received s) := by
  rcases h.confirmed s.other with ⟨lost, hperm, -⟩
  have hsplit := List.take_append_drop (l.read s) (l.stream s.other)
  have hread := List.take_append_drop (l.read s.other) (l.stream s)
  -- The other's confirmations are read, unread or queued, and stand for messages it has read.
  rw [← hsplit, List.append_assoc, ackValues_append, List.append_assoc] at hperm
  have hall : (dataSizes marshalSize (l.stream s)).Perm (ackValues (l.received s) ++
      (ackValues ((l.stream s.other).drop (l.read s) ++ (l.flow s.other).outgoingQueue) ++ lost ++
        dataSizes marshalSize ((l.stream s).drop (l.read s.other)))) := by
    rw [← List.append_assoc, ← hread, dataSizes_append, hread]
    refine List.Perm.append_right _ ?_
    unfold received at hperm
    rw [Side.other_other] at hperm
    exact hperm
  rcases exists_perm_map _ hall with ⟨messages, hmessages, hmap⟩
  rcases List.map_eq_append_iff.1 hmap with ⟨confirmed, rest, rfl, hconfirmed, -⟩
  exact ⟨confirmed, rest, hmessages, hconfirmed⟩

theorem Balanced.accounts (h : Balanced marshalSize l) (s : Side) : Accounts marshalSize l s := by
  rcases h.exists_confirmed s with ⟨confirmed, rest, hperm, hsizes⟩
  let acks := (l.stream s).filter (fun m => m.funcName = .p2pAck)
  have hall : (l.stream s).Perm (confirmed ++ (rest ++ acks)) := by
    have hfilter := List.filter_append_perm
      (fun m : LegacyMessage => decide (m.funcName = .p2pAck)) (l.stream s)
    simp only [← decide_not] at hfilter
    rw [← List.append_assoc]
    exact hfilter.symm.trans ((hperm.append_left acks).trans List.perm_append_comm)
  refine ⟨confirmed, rest ++ acks, hall, fun m hm => ?_, hsizes, ?_⟩
  · have hmem := hperm.mem_iff.2 (List.mem_append_left rest hm)
    simpa using (List.mem_filter.1 hmem).2
  · have hcounted := h.counted s
    have hsum := (hall.map (Flow.wireSize marshalSize)).sum_eq
    unfold wireSizes at *
    rw [List.map_append, List.sum_append, hsizes] at hsum
    omega

theorem Balanced.bytesSent_of_quiet (h : Balanced marshalSize l) (hquiet : l.Quiet) (s : Side) :
    (l.flow s).bytesSent.toNat = (ackSizes marshalSize (l.stream s)).sum := by
  rcases h.confirmed s.other with ⟨lost, hperm, hprompt⟩
  rcases hquiet s.other with ⟨hdis, hqueue, hreceived⟩
  rw [hprompt hdis, hqueue, List.append_nil, List.append_nil, hreceived, Side.other_other] at hperm
  have hcounted := h.counted s
  rw [(hquiet s).2.2, ← hperm.sum_eq, sum_wireSizes] at hcounted
  omega

theorem Balanced.ackValues_eq_nil_iff (h : Balanced marshalSize l) (hquiet : l.Quiet) (s : Side) :
    ackValues (l.stream s) = [] ↔ ∀ m ∈ l.stream s.other, m.funcName = .p2pAck := by
  rcases h.confirmed s with ⟨lost, hperm, hprompt⟩
  rcases hquiet s with ⟨hdis, hqueue, hreceived⟩
  rw [hprompt hdis, hqueue, List.append_nil, List.append_nil, hreceived] at hperm
  rw [← dataSizes_eq_nil marshalSize]
  constructor
  · intro hnil
    rw [hnil] at hperm
    exact hperm.eq_nil
  · intro hnil
    rw [hnil] at hperm
    exact hperm.symm.eq_nil

end Link

theorem Flow.settle_le_iff (f : Flow) (k : UInt32) :
    (f.settle k).bytesSent ≤ f.bytesSent ↔ k.toUInt64 ≤ f.bytesSent := by
  have hk : k.toUInt64.toNat < 2 ^ 32 := by
    rw [UInt32.toNat_toUInt64]
    exact k.toNat_lt
  have hbytes := f.bytesSent.toNat_lt
  unfold Flow.settle
  rw [UInt64.le_iff_toNat_le, UInt64.le_iff_toNat_le, UInt64.toNat_sub]
  constructor
  · intro hle
    by_contra hover
    rw [Nat.mod_eq_of_lt (by omega)] at hle
    omega
  · intro hle
    rw [show 2 ^ 64 - k.toUInt64.toNat + f.bytesSent.toNat
      = f.bytesSent.toNat - k.toUInt64.toNat + 2 ^ 64 by omega, Nat.add_mod_right]
    exact (Nat.mod_le _ _).trans (Nat.sub_le _ _)

/-- In every state of a connection the counter of each end is the size of the messages it
    has written and not been confirmed. In a state where nothing is queued or under way, an
    end's counter is zero, and the end free to send, exactly if nothing it was ever sent
    asked for a confirmation: its own confirmations are counted and never confirmed. And a
    confirmation leaves the counter no larger exactly if the counter covers it. -/
theorem bytesSent_accounts (ext : Externals) {marshalSize : LegacyMessage → Nat}
    (hsize : ∀ m, marshalSize m + 4 < 2 ^ 32) {l₀ l : Link} (hfresh : l₀.Fresh)
    (hrun : Link.Run ext marshalSize l₀ l) (s : Side) : Link.Accounts marshalSize l s ∧
      (l.Quiet → (((l.flow s).bytesSent = 0 ∧ (l.flow s).bytesSent < Config.maxBytesOut) ↔
        ∀ m ∈ l.stream s.other, m.funcName = .p2pAck)) ∧
      ∀ (f : Flow) (k : UInt32), (f.settle k).bytesSent ≤ f.bytesSent ↔
        k.toUInt64 ≤ f.bytesSent := by
  have hbalanced := Link.balanced_of_run hsize hfresh hrun
  refine ⟨hbalanced.accounts s, fun hquiet => ?_, Flow.settle_le_iff⟩
  have hzero : (l.flow s).bytesSent = 0 ↔ (l.flow s).bytesSent.toNat = 0 := by
    rw [← UInt64.toNat_inj]
    rfl
  rw [← hbalanced.ackValues_eq_nil_iff hquiet s, ← sum_ackSizes_eq_zero marshalSize,
    ← hbalanced.bytesSent_of_quiet hquiet s, ← hzero]
  refine ⟨fun h => h.1, fun h => ⟨h, ?_⟩⟩
  rw [h]
  decide

section Toy

def toyPeerNode : PeerNode :=
  { chain :=
      { db := Store.empty, tries := AssocMap.empty
        lastBlock := { header :=
            { hash := zeroHash, slotNumber := 0, timestampSeconds := 0, parentHash := zeroHash
              baseFee := 0, gasLimit := 0, gasUsed := 0, root := zeroHash
              protocolTxBloom := Bytes.zeros 256, txBloom := Bytes.zeros 256 }
                       protocolTransactions := [], transactions := [] } }
    txPool := createTransactionPool
    mr := .createMR }

def toyPeer (n : Nat) : Peer :=
  { id := n, ip := [], remotePeer := [], multiAddr := [], publicPort := [], isPLShared := false
    chainState := none, ebhRespInfo := none, flow := Flow.new }

def toyLink (left right : Flow) (readLeft readRight : Nat) : Link :=
  { peer := fun
      | .left => { toyPeer 0 with flow := left }
      | .right => { toyPeer 1 with flow := right }
    reading := fun _ => true
    read := fun
      | .left => readLeft
      | .right => readRight }

def toySize : LegacyMessage → Nat := fun _ => 10

def toyGreeting : LegacyMessage := { funcName := .sync, data := none }

def toyWrote (m : LegacyMessage) : Flow := { Flow.new with bytesSent := 14, written := [m] }

theorem Link.Step.to {ext : Externals} {marshalSize : LegacyMessage → Nat} {l'' : Link}
    (h : Step ext marshalSize l l') (hpeer : ∀ s, l'.peer s = l''.peer s)
    (hreading : ∀ s, l'.reading s = l''.reading s) (hread : ∀ s, l'.read s = l''.read s) :
    Step ext marshalSize l l'' := by
  rcases l' with ⟨peer, reading, read⟩
  rcases l'' with ⟨peer', reading', read'⟩
  cases funext hpeer
  cases funext hreading
  cases funext hread
  exact h

def toyGreeted : Link := toyLink (toyWrote toyGreeting) Flow.new 0 0

def toyConfirmed : Link :=
  toyLink (toyWrote toyGreeting) { toyWrote (ack 14) with inCounter := 1 } 0 1

def toySettled : Link :=
  toyLink { toyWrote toyGreeting with bytesSent := 0, inCounter := 1 }
    { toyWrote (ack 14) with inCounter := 1 } 1 1

theorem run_toySettled :
    Link.Run toyExternals toySize (toyLink Flow.new Flow.new 0 0) toySettled := by
  have hgreet : Link.Step toyExternals toySize (toyLink Flow.new Flow.new 0 0) toyGreeted := by
    refine Link.Step.to (.send .left 0 (m := toyGreeting) (by decide)) ?_ ?_ ?_ <;>
      rintro (_ | _) <;> rfl
  have hconfirm : Link.Step toyExternals toySize toyGreeted toyConfirmed := by
    refine Link.Step.to (.read .right 0 toyPeerNode rfl rfl rfl) ?_ ?_ ?_ <;>
      rintro (_ | _) <;> rfl
  have hsettle : Link.Step toyExternals toySize toyConfirmed toySettled := by
    refine Link.Step.to (.read .left 0 toyPeerNode rfl rfl rfl) ?_ ?_ ?_ <;>
      rintro (_ | _) <;> rfl
  exact ((Relation.ReflTransGen.single hgreet).tail hconfirm).tail hsettle

theorem quiet_toySettled : toySettled.Quiet := by
  rintro (_ | _)
  · exact ⟨rfl, rfl, rfl⟩
  · exact ⟨rfl, rfl, rfl⟩

theorem toySettled_accounts : (∀ m, toySize m + 4 < 2 ^ 32) ∧
    (toyLink Flow.new Flow.new 0 0).Fresh ∧
    Link.Run toyExternals toySize (toyLink Flow.new Flow.new 0 0) toySettled ∧
    toySettled.Quiet ∧ Link.Accounts toySize toySettled .left ∧
    (toySettled.flow .left).bytesSent = 0 := by
  have hsize : ∀ m, toySize m + 4 < 2 ^ 32 := fun _ => (by decide : 10 + 4 < 2 ^ 32)
  have hfresh : (toyLink Flow.new Flow.new 0 0).Fresh := by
    rintro (_ | _)
    · exact ⟨rfl, rfl⟩
    · exact ⟨rfl, rfl⟩
  have haccounts := bytesSent_accounts toyExternals hsize hfresh run_toySettled .left
  refine ⟨hsize, hfresh, run_toySettled, quiet_toySettled, haccounts.1, ?_⟩
  refine ((haccounts.2.1 quiet_toySettled).2 ?_).1
  intro m hm
  rw [List.mem_singleton.1 hm]
  rfl

/-- After one greeting nothing is queued and nothing under way, and the right node still
    counts fourteen bytes as sent: its confirmation, which nobody confirms. And where the
    counter is zero, a confirmation of one byte takes it to the largest number there is,
    with no protocol error. -/
theorem confirmation_leaks :
    Link.Run toyExternals toySize (toyLink Flow.new Flow.new 0 0) toySettled ∧
      toySettled.Quiet ∧ (toySettled.flow .right).bytesSent = 14 ∧
      (Flow.new.settle 1).bytesSent.toNat = 2 ^ 64 - 1 :=
  ⟨run_toySettled, quiet_toySettled, rfl, rfl⟩

end Toy

end Zond
