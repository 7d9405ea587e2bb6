import Zond.Core.Filter
import Zond.Theory.Receipts

/-!
# Log Queries

A bloom filter only ever gains bits, so what was added to it passes its test from then on.
A log that is selected has an address and topics that were added.

## Theorems

* `logs_of_processBlock`: The answer to a query is what reading all logs of the block gives.
-/

namespace Zond

open Outcome

theorem and_or_eq {v x w : UInt8} (h : v = v &&& x ∨ v = v &&& w) : v = v &&& (x ||| w) := by
  have hbits (i : Nat) : (v &&& (x ||| w)).toNat.testBit i = v.toNat.testBit i := by
    simp only [UInt8.toNat_and, UInt8.toNat_or, Nat.testBit_and, Nat.testBit_or]
    rcases h with h | h
    all_goals
      have hi := congrArg (fun y => y.toNat.testBit i) h
      simp only [UInt8.toNat_and, Nat.testBit_and] at hi
      grind
  exact (UInt8.toNat_inj.1 (Nat.eq_of_testBit_eq hbits)).symm

namespace Bloom

variable {c : Crypto} {b : Bloom} {iv : Nat × UInt8} {d d' : List UInt8}

theorem testBit_setBit (jv : Nat × UInt8) (h : b.testBit iv = true ∨ iv = jv ∧ iv.1 < 256) :
    (b.setBit jv).testBit iv = true := by
  simp only [testBit, setBit, List.getD_eq_getElem?_getD, List.getElem?_modify, beq_iff_eq] at h ⊢
  cases hb : b.val[iv.1]? with
  | none =>
    have hlen := List.getElem?_eq_none_iff.1 hb
    rw [b.property] at hlen
    rw [hb] at h
    exact h.resolve_right (fun hiv => Nat.not_lt.2 hlen hiv.2)
  | some x =>
    simp only [hb, Option.map_eq_map, Option.map_some, Option.getD_some] at h ⊢
    split
    · exact and_or_eq (h.imp_right (fun hiv => by rw [hiv.1, UInt8.and_self]))
    · rename_i hne
      exact h.resolve_right (fun hiv => hne (by rw [hiv.1]))

theorem bloomValue_lt (hi lo : UInt8) : (bloomValue hi lo).1 < 256 := by
  unfold bloomValue
  dsimp only
  omega

theorem testBit_add (h : b.testBit iv = true) : (b.add c d).testBit iv = true := by
  unfold add
  split
  · exact testBit_setBit _ (.inl (testBit_setBit _ (.inl (testBit_setBit _ (.inl h)))))
  · exact h

theorem test_add (h : b.test c d = true ∨ d = d') : (b.add c d').test c d = true := by
  unfold test at h ⊢
  split
  · rename_i b0 b1 b2 b3 b4 b5 _ hd
    simp only [hd, Bool.and_eq_true] at h ⊢
    rcases h with h | rfl
    · exact ⟨⟨testBit_add h.1.1, testBit_add h.1.2⟩, testBit_add h.2⟩
    · have hset (hi lo : UInt8) (b : Bloom) :=
        testBit_setBit (b := b) _ (.inr ⟨rfl, bloomValue_lt hi lo⟩)
      simp only [add, hd]
      exact ⟨⟨testBit_setBit _ (.inl (testBit_setBit _ (.inl (hset b0 b1 b)))),
        testBit_setBit _ (.inl (hset b2 b3 _))⟩, hset b4 b5 _⟩
  · rfl

theorem test_foldl_add {ds : List (List UInt8)} (h : b.test c d = true ∨ d ∈ ds) :
    (ds.foldl (add c) b).test c d = true := by
  induction ds generalizing b with
  | nil => exact h.resolve_right List.not_mem_nil
  | cons d' rest ih =>
    refine ih ?_
    rw [List.mem_cons, ← or_assoc] at h
    exact h.imp_left test_add

end Bloom

section Matching

variable {c : Crypto} {logs : List (List Log)} {addresses : List Address}
variable {topics : List (List Hash)} {log : Log}

/-- What a log adds to a bloom filter. -/
def Log.bloomed (l : Log) : List (List UInt8) := l.address.val :: l.topics.map (fun t => t.val)

theorem createBloom_eq : createBloom c logs =
    (logs.flatten.flatMap Log.bloomed).foldl (Bloom.add c) Bloom.empty := by
  rw [List.foldl_flatMap, List.foldl_flatten]
  simp only [Log.bloomed, List.foldl_cons, List.foldl_map]
  rfl

theorem bloomFilter_of_selected (h : log.selected none none addresses topics = true)
    (hmem : ∃ l ∈ logs.flatten, l.bloomed = log.bloomed) :
    bloomFilter c (createBloom c logs) addresses topics = true := by
  have htest : ∀ d ∈ log.bloomed, (createBloom c logs).test c d = true := by
    intro d hd
    rcases hmem with ⟨l, hl, hsame⟩
    rw [createBloom_eq]
    exact Bloom.test_foldl_add (.inr (List.mem_flatMap.2 ⟨l, hl, hsame ▸ hd⟩))
  rcases of_decide_eq_true h with ⟨-, -, haddress, hlength, htopics⟩
  simp only [bloomFilter, Bool.and_eq_true, Bool.or_eq_true, List.isEmpty_iff, List.any_eq_true,
    List.all_eq_true, or_iff_not_imp_left]
  refine ⟨fun hne => ⟨_, haddress hne, htest _ List.mem_cons_self⟩, fun sub hsub hne => ?_⟩
  -- The alternatives stand opposite a topic of the log.
  rw [← List.map_fst_zip hlength] at hsub
  rcases List.mem_map.1 hsub with ⟨x, hx, rfl⟩
  have htopic := List.mem_map_of_mem (f := fun t : Hash => t.val) (List.of_mem_zip hx).2
  exact ⟨x.2, htopics x hx hne, htest _ (List.mem_cons_of_mem _ htopic)⟩

end Matching

section Processed

variable {vm : Machine} {c : Chain} {b parentBlock : Block} {p : Processed}

theorem block_of_processBlock {ext : Externals} (h : c.processBlock ext b parentBlock = .ok p) :
    p.db.blocks.get b.hash = some p.block ∧ p.block.hash = b.hash ∧
      p.block.header.txBloom = createBloom ext.toCrypto (p.txReceipts.map Receipt.logs) := by
  rcases Chain.processBlock_of_ok h with ⟨_, _, _, _, _, _, _, _, -, -, -, -, hprocess⟩
  rcases process_of_ok hprocess with ⟨_, _, _, -, -, -, -, -, hseal⟩
  rcases bind_eq_ok.1 hseal with ⟨_, hcommit, hseal⟩
  cases hseal
  exact ⟨(commit_stores hcommit).1, rfl, rfl⟩

variable (hfrugal : vm.Frugal) (hvm : vm.NumbersLogs)
variable (hok : c.processBlock vm.toExternals b parentBlock = .ok p)
variable (hdistinct : (transferHashes b.transactions).Nodup)
include hfrugal hvm hok hdistinct

/-- A query for a block that was processed answers with the logs of its user transactions that
    pass the filter, whatever the bloom filter in its header may hold besides. -/
theorem logs_of_processBlock (f : Filter) (hblock : f.block = b.hash) (hhash : b.hash ≠ zeroHash) :
    f.logs vm.toExternals p.db = .ok (filterLogs
      (p.txReceipts.flatMap (fun r => (r.asRead b.slotNumber).logs)) none none
      f.addresses f.topics) := by
  rcases receipted_of_processBlock hfrugal hvm hdistinct hok with ⟨⟨_, _, h⟩, -⟩
  rcases block_of_processBlock hok with ⟨hget, hself, hbloom⟩
  have hheader : p.block.header.hash = b.hash := hself
  unfold Filter.logs Filter.blockLogs Filter.checkMatches
  rw [if_pos (hblock ▸ hhash), hblock, hget]
  dsimp only
  rw [hheader, hbloom, h.logsRead, h.read]
  simp only [Option.getD_some, List.flatMap_map, ← List.flatMap_def]
  split
  · split
    · rename_i hnil
      rw [hnil]
    · rename_i hcons
      rw [hcons, ite_self]
  · -- A log of the answer would have let the query through.
    rename_i hstop
    refine congrArg Except.ok (List.filter_eq_nil_iff.2 fun log hlog hselected => hstop ?_).symm
    rcases List.mem_flatMap.1 hlog with ⟨r, hr, hlog⟩
    rcases List.mem_map.1 hlog with ⟨l, hl, rfl⟩
    refine bloomFilter_of_selected hselected ⟨l, ?_, rfl⟩
    exact List.mem_flatten.2 ⟨r.logs, List.mem_map_of_mem hr, hl⟩

end Processed

theorem toyDeploying_query : ∃ p : Processed, p.txReceipts.map (fun r => r.logs.length) = [1] ∧
    let addresses := (p.txReceipts.flatMap Receipt.logs).map Log.address
    Filter.logs toyLogger.toExternals p.db ⟨addresses, [], toyDeploying.hash, 0, 0⟩ = .ok (filterLogs
      (p.txReceipts.flatMap (fun r => (r.asRead toyDeploying.slotNumber).logs)) none none
      addresses []) := by
  rcases toyDeploying_logs with ⟨c₀, p, -, hp, hlogs⟩
  exact ⟨p, hlogs, logs_of_processBlock (fun _ _ _ _ _ => UInt64.le_refl _) toyLogger_numbersLogs hp
    (by decide +kernel) _ rfl (by decide +kernel)⟩

end Zond
