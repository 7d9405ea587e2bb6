import Zond.Core.Wire

/-!
# The Order of the Outgoing Queue

`SendNext` does not look at the numbers. It takes the message pushed last. The messages a
call takes are those in front of the part of the queue it leaves.

## Main definitions

* `Flow.MayLeave`: No other message has a smaller priority number, and none of the same number
  was pushed before.

## Theorems

* `Flow.takesInOrder_of_outranks`: The queue is right as long as every message that is pushed has
  a smaller number than all that wait.
-/

namespace Zond

namespace LegacyMessage

def priority (m : LegacyMessage) : UInt64 := (messagePriority m.funcName).getD 0

end LegacyMessage

namespace Flow

variable {marshalSize : LegacyMessage → Nat}

/-- Message number `i` of a queue may leave. What stands behind it was pushed before
    it. -/
def MayLeave (queue : List LegacyMessage) (i : Nat) : Prop :=
  ∀ m ∈ queue[i]?, ∀ j, ∀ m' ∈ queue[j]?,
    m.priority ≤ m'.priority ∧ (i < j → m.priority ≠ m'.priority)

/-- The calls that took everything in front of `left` from a queue took each message by
    the rule, from what the queue was then. -/
def TakesInOrder (queue left : List LegacyMessage) : Prop :=
  ∀ taken m rest, queue = taken ++ m :: (rest ++ left) → MayLeave (m :: (rest ++ left)) 0

/-- Every message has a smaller number than those behind it. -/
def Sorted (queue : List LegacyMessage) : Prop :=
  queue.Pairwise fun m m' => m.priority < m'.priority

theorem mayLeave_of_sorted {m : LegacyMessage} {rest : List LegacyMessage}
    (h : Sorted (m :: rest)) : MayLeave (m :: rest) 0 := by
  intro first hfirst j m' hm'
  cases hfirst
  cases j with
  | zero =>
    cases hm'
    exact ⟨UInt64.le_refl _, fun h => absurd h (Nat.lt_irrefl 0)⟩
  | succ j =>
    have hlt := (List.pairwise_cons.1 h).1 m' (List.mem_of_getElem? hm')
    exact ⟨UInt64.le_of_lt hlt, fun _ => UInt64.ne_of_lt hlt⟩

theorem Sorted.takesInOrder {queue left : List LegacyMessage} (h : Sorted queue) :
    TakesInOrder queue left := by
  intro taken m rest hqueue
  subst hqueue
  exact mayLeave_of_sorted (List.pairwise_append.1 h).2.1

theorem suffix_writeQueue (queue : List LegacyMessage) (f : Flow) :
    (writeQueue marshalSize queue f).1.outgoingQueue <:+ queue := by
  induction queue generalizing f with
  | nil =>
    unfold writeQueue
    split <;> exact List.suffix_refl []
  | cons m rest ih =>
    unfold writeQueue
    split
    · dsimp only
      split
      · exact (ih _).trans (List.suffix_cons m rest)
      · exact List.suffix_cons m rest
    · exact List.suffix_refl _

theorem outgoingQueue_updateCounters (f : Flow) (time : UInt64) :
    (f.updateCounters time).outgoingQueue = f.outgoingQueue := by
  unfold updateCounters
  split <;> rfl

theorem suffix_sendNext (time : UInt64) (f : Flow) :
    (sendNext marshalSize time f).1.outgoingQueue <:+ f.outgoingQueue := by
  unfold sendNext
  split
  · exact List.suffix_refl _
  · dsimp only
    split
    · simp only [outgoingQueue_updateCounters, List.suffix_refl]
    · rw [outgoingQueue_updateCounters]
      exact suffix_writeQueue _ _

end Flow

/-- What happens to the outgoing half of a connection: a `Send`, an acknowledgement from
    the other side, the stream failing or coming up, and a disconnect. -/
inductive FlowCall where
  | send (time : UInt64) (m : LegacyMessage)
  | acked (time : UInt64) (bytesProcessed : UInt32)
  | stream (up : Bool)
  | disconnect

namespace Flow

variable {marshalSize : LegacyMessage → Nat}

def Pushes (f : Flow) (m : LegacyMessage) : Prop :=
  m.funcName.IsNamed ∧ f.outgoingQueue.length ≤ Config.outgoingQueueSize

instance (f : Flow) (m : LegacyMessage) : Decidable (f.Pushes m) :=
  inferInstanceAs (Decidable (_ ∧ _))

def offered (f : Flow) : FlowCall → List LegacyMessage
  | .send _ m => if f.Pushes m then m :: f.outgoingQueue else f.outgoingQueue
  | _ => f.outgoingQueue

def after (marshalSize : LegacyMessage → Nat) (f : Flow) : FlowCall → Flow
  | .send time m => (f.send marshalSize time m).1
  | .acked time bytesProcessed => ((f.settle bytesProcessed).sendNext marshalSize time).1
  | .stream up => { f with streamUp := up }
  | .disconnect => f.disconnect

/-- A message that is pushed has a smaller number than every message that waits. -/
def Outranks (f : Flow) : FlowCall → Prop
  | .send _ m => f.Pushes m → ∀ m' ∈ f.outgoingQueue, m.priority < m'.priority
  | _ => True

/-- The states a run of calls goes through before each call, with the call. -/
def trace (marshalSize : LegacyMessage → Nat) : List FlowCall → Flow → List (FlowCall × Flow)
  | [], _ => []
  | call :: calls, f => (call, f) :: trace marshalSize calls (f.after marshalSize call)

theorem suffix_after (call : FlowCall) (f : Flow) :
    (f.after marshalSize call).outgoingQueue <:+ f.offered call := by
  cases call with
  | send time m =>
    rw [after, send, offered]
    by_cases hnamed : m.funcName.IsNamed
    · by_cases hfull : Config.outgoingQueueSize < f.outgoingQueue.length
      · have hfits : ¬f.Pushes m := fun h => absurd h.2 (Nat.not_le.2 hfull)
        simp only [if_pos hnamed, if_pos hfull, if_neg hfits, List.suffix_refl]
      · rw [if_pos hnamed, if_neg hfull, if_pos ⟨hnamed, Nat.le_of_not_lt hfull⟩]
        exact suffix_sendNext time _
    · have hpush : ¬f.Pushes m := fun h => hnamed h.1
      simp only [if_neg hnamed, if_neg hpush, List.suffix_refl]
  | acked time bytesProcessed => exact suffix_sendNext time _
  | stream | disconnect => exact List.suffix_refl _

theorem sorted_offered {call : FlowCall} {f : Flow} (h : f.Outranks call)
    (hsorted : Sorted f.outgoingQueue) : Sorted (f.offered call) := by
  cases call with
  | send time m =>
    rw [offered]
    split
    · rename_i hpushes
      exact List.pairwise_cons.2 ⟨h hpushes, hsorted⟩
    · exact hsorted
  | acked | stream | disconnect => exact hsorted

theorem step_sorted {call : FlowCall} {f : Flow} (h : f.Outranks call)
    (hsorted : Sorted f.outgoingQueue) :
    TakesInOrder (f.offered call) (f.after marshalSize call).outgoingQueue ∧
      Sorted (f.after marshalSize call).outgoingQueue := by
  have hoffered := sorted_offered h hsorted
  exact ⟨hoffered.takesInOrder, hoffered.sublist (suffix_after call f).sublist⟩

theorem takesInOrder_of_sorted (calls : List FlowCall) (f : Flow) (hsorted : Sorted f.outgoingQueue)
    (hcalls : ∀ s ∈ trace marshalSize calls f, s.2.Outranks s.1) : ∀ s ∈ trace marshalSize calls f,
      TakesInOrder (s.2.offered s.1) (s.2.after marshalSize s.1).outgoingQueue := by
  induction calls generalizing f with
  | nil => exact fun s hs => absurd hs List.not_mem_nil
  | cons call calls ih =>
    rcases @step_sorted marshalSize call f (hcalls _ List.mem_cons_self) hsorted with
      ⟨htakes, hafter⟩
    intro s hs
    rcases List.mem_cons.1 hs with rfl | hs
    · exact htakes
    · exact ih _ hafter (fun s hs => hcalls s (List.mem_cons_of_mem _ hs)) s hs

/-- From a new connection, if every message that is sent has a smaller priority number
    than all that wait at that time, then each call leaves the back of the queue and every
    message in front of it leaves by the rule. -/
theorem takesInOrder_of_outranks (marshalSize : LegacyMessage → Nat) (calls : List FlowCall)
    (hcalls : ∀ s ∈ trace marshalSize calls Flow.new, s.2.Outranks s.1) :
    ∀ s ∈ trace marshalSize calls Flow.new,
      (s.2.after marshalSize s.1).outgoingQueue <:+ s.2.offered s.1 ∧
      TakesInOrder (s.2.offered s.1) (s.2.after marshalSize s.1).outgoingQueue :=
  fun s hs => ⟨suffix_after s.1 s.2, takesInOrder_of_sorted calls Flow.new .nil hcalls s hs⟩

def toySize (m : LegacyMessage) : Nat := if m.funcName = .bk then 10 * 1024 * 1024 else 2

/-- A `SYNC` and an `MR` are sent while a block is on its way, and wait until it is
    confirmed. -/
def toyCalls : List FlowCall :=
  [.send 0 ⟨.bk, none⟩, .send 0 ⟨.sync, none⟩, .send 0 ⟨.mr, none⟩, .acked 0 10485764]

/-- The `MR` leaves first, though its number is 2 and that of the `SYNC` is 0. -/
theorem takes_out_of_order : ∃ s ∈ trace toySize toyCalls Flow.new,
      s.2.offered s.1 = [⟨.mr, none⟩, ⟨.sync, none⟩] ∧
      (s.2.after toySize s.1).written = [⟨.bk, none⟩, ⟨.mr, none⟩, ⟨.sync, none⟩] ∧
      ¬ TakesInOrder (s.2.offered s.1) (s.2.after toySize s.1).outgoingQueue := by
  refine ⟨_, List.mem_cons_of_mem _ (List.mem_cons_of_mem _ (List.mem_cons_of_mem _
    List.mem_cons_self)), rfl, rfl, fun h => ?_⟩
  have hmr := h [] ⟨.mr, none⟩ [⟨.sync, none⟩] rfl ⟨.mr, none⟩ rfl 1 ⟨.sync, none⟩ rfl
  exact absurd hmr.1 (by decide)

theorem takesInOrder_outranking : messagePriority .sync = some 0 ∧ messagePriority .mr = some 2 ∧
    ∀ s ∈ trace toySize [.send 0 ⟨.bk, none⟩, .send 0 ⟨.mr, none⟩, .send 0 ⟨.sync, none⟩,
        .acked 0 10485764] Flow.new,
      (s.2.after toySize s.1).outgoingQueue <:+ s.2.offered s.1 ∧
      TakesInOrder (s.2.offered s.1) (s.2.after toySize s.1).outgoingQueue := by
  refine ⟨rfl, rfl, takesInOrder_of_outranks toySize _ ?_⟩
  intro s hs
  simp only [trace, List.mem_cons, List.not_mem_nil, or_false] at hs
  rcases hs with rfl | rfl | rfl | rfl
  · exact fun _ m' hm' => absurd hm' List.not_mem_nil
  · exact fun _ m' hm' => absurd hm' List.not_mem_nil
  · intro _ m' hm'
    cases List.mem_singleton.1 hm'
    decide
  · trivial

end Flow

end Zond
