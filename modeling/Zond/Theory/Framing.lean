import Mathlib.Tactic.Ring
import Zond.Core.Wire
import Zond.Lib.Outcome

/-!
# Framing

The four bytes of a length come back as the number they were written for, so a frame in
front of any rest is read exactly to its end.

## Theorems

* `readMsgs_written`: A stream of frames is read frame by frame until nothing is left.
-/

namespace Zond

open Outcome

theorem toNat_convertBytesToLong (b0 b1 b2 b3 : UInt8) : (convertBytesToLong b0 b1 b2 b3).toNat =
      b0.toNat * 2 ^ 24 + b1.toNat * 2 ^ 16 + b2.toNat * 2 ^ 8 + b3.toNat := by
  have h0 := b0.toNat_lt
  have h1 := b1.toNat_lt
  have h2 := b2.toNat_lt
  have h3 := b3.toNat_lt
  have hshift : ∀ (b : UInt8) (s : UInt32), b.toNat * 2 ^ (s.toNat % 32) < 2 ^ 32 →
      (b.toUInt32 <<< s).toNat = b.toNat * 2 ^ (s.toNat % 32) := by
    intro b s hb
    rw [UInt32.toNat_shiftLeft, Nat.shiftLeft_eq, UInt8.toNat_toUInt32, Nat.mod_eq_of_lt hb]
  -- A part lies below the lowest bit of the parts before it, so `or` adds it to them.
  have hor : ∀ a k b : Nat, b < 2 ^ k → a * 2 ^ k ||| b = a * 2 ^ k + b := by
    intro a k b hb
    rw [mul_comm, Nat.two_pow_add_eq_or_of_lt hb]
  have h01 : b0.toNat * 2 ^ 24 + b1.toNat * 2 ^ 16 = (b0.toNat * 2 ^ 8 + b1.toNat) * 2 ^ 16 := by
    ring
  have h012 : (b0.toNat * 2 ^ 8 + b1.toNat) * 2 ^ 16 + b2.toNat * 2 ^ 8 =
      (b0.toNat * 2 ^ 16 + b1.toNat * 2 ^ 8 + b2.toNat) * 2 ^ 8 := by
    ring
  rw [convertBytesToLong, UInt32.toNat_or, UInt32.toNat_or, UInt32.toNat_or,
    hshift b0 24 (by simp; omega), hshift b1 16 (by simp; omega), hshift b2 8 (by simp; omega),
    UInt8.toNat_toUInt32]
  simp only [UInt32.reduceToNat, Nat.reduceMod]
  rw [hor b0.toNat 24 _ (by omega), h01, hor _ 16 _ (by omega), h012, hor _ 8 _ (by omega)]

theorem convertBytesToLong_putUint32 (v : UInt32) :
    convertBytesToLong (v >>> 24).toUInt8 (v >>> 16).toUInt8 (v >>> 8).toUInt8 v.toUInt8 = v := by
  have hv := v.toNat_lt
  apply UInt32.toNat_inj.mp
  rw [toNat_convertBytesToLong]
  simp [UInt32.toNat_shiftRight, Nat.shiftRight_eq_div_pow]
  omega

theorem readFull_append (data rest : List UInt8) :
    readFull data.length (data ++ rest) = .ok (data, rest) := by
  simp [readFull]

variable {codec : Codec}

/-- A message as `CreateOutgoingMessage` makes it, with an encoding whose size and the
    four bytes in front of it fit in 32 bits. -/
def OutgoingMessage.Framed (codec : Codec) (o : OutgoingMessage) : Prop :=
  createOutgoingMessage codec o.timestamp o.priority o.msg = some o ∧
    ∀ data, codec.marshal o.msg = some data → data.length < 2 ^ 32 - 4

namespace OutgoingMessage.Framed

variable {o : OutgoingMessage}

theorem exists_data (h : o.Framed codec) :
    ∃ data, codec.marshal o.msg = some data ∧ data.length < 2 ^ 32 - 4 ∧
      o.bytesMessage = putUint32 (UInt32.ofNat data.length) ++ data := by
  rcases h with ⟨hcreated, hsize⟩
  cases hdata : codec.marshal o.msg with
  | none => simp [createOutgoingMessage, hdata] at hcreated
  | some data =>
    simp only [createOutgoingMessage, hdata, Option.bind_eq_bind, Option.bind_some,
      Option.pure_def, Option.some.injEq] at hcreated
    exact ⟨data, rfl, hsize data hdata, by rw [← hcreated]⟩

theorem size_eq {data : List UInt8}
    (hbytes : o.bytesMessage = putUint32 (UInt32.ofNat data.length) ++ data) :
    UInt32.ofNat data.length + 4 = UInt32.ofNat o.bytesMessage.length := by
  apply UInt32.toNat_inj.mp
  simp [hbytes, putUint32]

theorem readMsg_append (h : o.Framed codec) (rest : List UInt8) :
    readMsg codec (o.bytesMessage ++ rest)
      = .ok ((o.msg, UInt32.ofNat o.bytesMessage.length), rest) := by
  rcases h.exists_data with ⟨data, hdata, hsize, hbytes⟩
  have hlen : (UInt32.ofNat data.length).toNat = data.length := by
    simp
    omega
  have hhead : readFull 4 (o.bytesMessage ++ rest)
      = .ok (putUint32 (UInt32.ofNat data.length), data ++ rest) := by
    rw [hbytes, List.append_assoc]
    exact readFull_append (putUint32 _) _
  rw [readMsg, hhead, ok_bind]
  simp only [putUint32, convertBytesToLong_putUint32, hlen]
  rw [readFull_append, ok_bind]
  simp only [codec.unmarshal_marshal _ _ hdata, size_eq hbytes]

end OutgoingMessage.Framed

/-- Reading what was written for a sequence of messages gives back the messages in their
    order, each with the number of bytes written for it, and the next call finds the end
    of the stream. -/
theorem readMsgs_written (codec : Codec) (written : List OutgoingMessage)
    (hframed : ∀ o ∈ written, o.Framed codec) : ∃ read : List (LegacyMessage × UInt32),
      readMsgs codec written.length (written.flatMap (·.bytesMessage)) = .ok (read, []) ∧
      read.map (·.1) = written.map (·.msg) ∧
      read.map (·.2.toNat) = written.map (·.bytesMessage.length) ∧
      readMsg codec [] = .error .eof := by
  refine ⟨written.map fun o => (o.msg, UInt32.ofNat o.bytesMessage.length), ?_, ?_, ?_, rfl⟩
  · -- By induction on the sequence, with one frame read off the front of the stream.
    induction written with
    | nil => rfl
    | cons o rest ih =>
      have hfirst := (hframed o List.mem_cons_self).readMsg_append
      have hrest := ih fun o' ho' => hframed o' (List.mem_cons_of_mem _ ho')
      simp only [List.length_cons, List.flatMap_cons, List.map_cons, readMsgs, hfirst, hrest,
        ok_bind]
      rfl
  · simp
  · simp only [List.map_map, List.map_inj_left, Function.comp_apply]
    intro o ho
    rcases (hframed o ho).exists_data with ⟨data, -, hsize, hbytes⟩
    simp [hbytes, putUint32]
    omega

def toyCodec : Codec where
  marshal
    | ⟨.sync, none⟩ => some []
    | ⟨.pong, none⟩ => some [7]
    | _ => none
  unmarshal
    | [] => some ⟨.sync, none⟩
    | _ => some ⟨.pong, none⟩
  unmarshal_marshal := by
    intro m data h
    split at h
    · cases h
      rfl
    · cases h
      rfl
    · cases h

def toyFrames : List OutgoingMessage :=
  [⟨⟨.pong, none⟩, 0, 5, [0, 0, 0, 1, 7]⟩, ⟨⟨.sync, none⟩, 0, 6, [0, 0, 0, 0]⟩,
    ⟨⟨.pong, none⟩, 0, 6, [0, 0, 0, 1, 7]⟩]

theorem framed_toyFrames : ∀ o ∈ toyFrames, o.Framed toyCodec := by
  intro o ho
  simp only [toyFrames, List.mem_cons, List.not_mem_nil, or_false] at ho
  rcases ho with rfl | rfl | rfl <;>
    exact ⟨rfl, fun data h => by cases h; decide⟩

theorem readMsgs_toyFrames : ∃ read : List (LegacyMessage × UInt32),
      readMsgs toyCodec toyFrames.length (toyFrames.flatMap (·.bytesMessage)) = .ok (read, []) ∧
      read.map (·.1) = toyFrames.map (·.msg) ∧
      read.map (·.2.toNat) = toyFrames.map (·.bytesMessage.length) ∧
      readMsg toyCodec [] = .error .eof :=
  readMsgs_written toyCodec toyFrames framed_toyFrames

end Zond
