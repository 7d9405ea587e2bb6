import Mathlib.Data.List.Induction
import Zond.Core.Bucket

/-!
# One Bucket, Many Maps

The keys of different kinds, or of different identifiers of one kind, are different texts:
a label with the `0x` that follows it starts no other label, a slot number is the one key
that starts with a digit, and under one label the arguments can be read back from the
text. But not every writer prints the key its reader prints.

## Main definitions

* `Undisturbed`: No commit hides the record a reader is after.

## Theorems

* `reads_lastCommit`: When the bucket reads as one map for every kind of record.
-/

namespace Zond

variable {k : Kind} {c : Commit}

section Texts

theorem bytesToHexStr_inj {h h' : Hash} (heq : bytesToHexStr h = bytesToHexStr h') : h = h' := by
  injection heq with _ hrest
  injection hrest with _ hhex
  exact Subtype.ext (Text.hex_inj hhex)

theorem append_bytesToHexStr (l : List Char) (h : Hash) :
    l ++ bytesToHexStr h = (l ++ ['0', 'x']) ++ Text.hex h.val := by
  rw [List.append_assoc]
  rfl

theorem append_bytesToHexStr_append (l : List Char) (h : Hash) (y : List Char) :
    l ++ (bytesToHexStr h ++ y) = (l ++ ['0', 'x']) ++ (Text.hex h.val ++ y) := by
  rw [List.append_assoc]
  rfl

theorem formatUint_inj {a b : UInt64} (h : formatUint a = formatUint b) : a = b :=
  UInt64.toNat_inj.1 (Text.decimal_inj h)

end Texts

namespace Kind

/-- The fixed part a key starts with, with the `0x` of a hash right after it. -/
def label : Kind → List Char
  | mainChainMetaData => "MAIN-CHAIN-META-DATA".toList
  | blockMetaData => "BLOCK-META-DATA-".toList ++ ['0', 'x']
  | epochMetaData => "EPOCH-META-DATA-".toList
  | epochBlockHashes => "EPOCH-BLOCK-HASHES-META-DATA-".toList
  | transactionMetaData => "TX-META-DATA-".toList ++ ['0', 'x']
  | protocolTransactionMetaData => "PROTOCOL-TX-META-DATA-".toList ++ ['0', 'x']
  | block => "BLOCK-".toList ++ ['0', 'x']
  | blockReceipts true => "BLOCK-PROTOCOL-TX-RECEIPTS-".toList ++ ['0', 'x']
  | blockReceipts false => "BLOCK-TX-RECEIPTS-".toList ++ ['0', 'x']
  | blockHashBySlotNumber => []
  | mainChainHeadTrieRoot => "mainchain-head-trie-root".toList

def arguments : (k : Kind) → k.Ident → List Char
  | mainChainMetaData, _ | mainChainHeadTrieRoot, _ => []
  | blockMetaData, h | transactionMetaData, h | protocolTransactionMetaData, h | block, h =>
    Text.hex (Subtype.val h)
  | epochMetaData, (epoch, h) => formatUint epoch ++ '-' :: bytesToHexStr h
  | epochBlockHashes, n | blockHashBySlotNumber, n => formatUint n
  | blockReceipts _, (h, n) => Text.hex h.val ++ '-' :: formatUint n

theorem key_eq (k : Kind) (x : k.Ident) : k.key x = k.label ++ k.arguments x := by
  cases k with
  | mainChainMetaData | mainChainHeadTrieRoot => exact (List.append_nil _).symm
  | blockMetaData | transactionMetaData | protocolTransactionMetaData | block =>
    exact append_bytesToHexStr _ _
  | epochMetaData | epochBlockHashes | blockHashBySlotNumber => rfl
  | blockReceipts isProtocol =>
    cases isProtocol
    · exact append_bytesToHexStr_append _ _ _
    · exact append_bytesToHexStr_append _ _ _

/-- Every kind but the slot index, whose keys have no label. -/
def labelled : List Kind :=
  [mainChainMetaData, blockMetaData, epochMetaData, epochBlockHashes, transactionMetaData,
    protocolTransactionMetaData, block, blockReceipts true, blockReceipts false,
    mainChainHeadTrieRoot]

theorem mem_labelled (h : k ≠ blockHashBySlotNumber) : k ∈ labelled := by
  cases k with
  | blockHashBySlotNumber => exact absurd rfl h
  | blockReceipts isProtocol => cases isProtocol <;> decide
  | _ => decide

theorem labels_apart : ∀ k ∈ labelled, ∀ k' ∈ labelled, k ≠ k' → ¬k.label <+: k'.label := by
  decide +kernel

theorem label_head : ∀ k ∈ labelled, k.label.head?.map Char.isDigit = some false := by
  decide +kernel

theorem label_append_ne_formatUint (h : k ≠ blockHashBySlotNumber) (y : List Char)
    (n : UInt64) : k.label ++ y ≠ formatUint n := by
  intro heq
  rcases Option.map_eq_some_iff.1 (label_head k (mem_labelled h)) with ⟨c, hc, hletter⟩
  have hmem : c ∈ formatUint n := by
    rw [← heq]
    exact List.mem_append_left y (List.mem_of_head? hc)
  rw [Text.isDigit_of_mem_decimal hmem] at hletter
  cases hletter

theorem kind_of_key {k' : Kind} {x : k.Ident} {x' : k'.Ident} (h : k.key x = k'.key x') :
    k = k' := by
  by_contra hne
  rw [key_eq, key_eq] at h
  by_cases hk : k = blockHashBySlotNumber
  · subst hk
    exact label_append_ne_formatUint (Ne.symm hne) _ _ h.symm
  by_cases hk' : k' = blockHashBySlotNumber
  · subst hk'
    exact label_append_ne_formatUint hne _ _ h
  -- Both keys have a label, and neither label starts the other.
  have hmem := mem_labelled hk
  have hmem' := mem_labelled hk'
  exact Text.append_ne_of_labels (labels_apart k hmem k' hmem' hne)
    (labels_apart k' hmem' k hmem (Ne.symm hne)) h

theorem arguments_inj {x y : k.Ident} (h : k.arguments x = k.arguments y) : x = y := by
  cases k with
  | mainChainMetaData | mainChainHeadTrieRoot => rfl
  | blockMetaData | transactionMetaData | protocolTransactionMetaData | block =>
    exact Subtype.ext (Text.hex_inj h)
  | epochBlockHashes | blockHashBySlotNumber => exact formatUint_inj h
  | epochMetaData =>
    rcases Text.separator_inj (by decide) h with ⟨hepoch, hhash⟩
    exact Prod.ext (UInt64.toNat_inj.1 hepoch) (bytesToHexStr_inj hhash)
  | blockReceipts isProtocol =>
    -- The hash has a fixed width, so the separator stands at one place.
    have hwidth : (Text.hex x.1.val).length = (Text.hex y.1.val).length := by
      rw [Text.length_hex, Text.length_hex, x.1.property, y.1.property]
    rcases List.append_inj h hwidth with ⟨hhash, hrest⟩
    injection hrest with _ hnumber
    exact Prod.ext (Subtype.ext (Text.hex_inj hhash)) (formatUint_inj hnumber)

theorem key_inj {x y : k.Ident} (h : k.key x = k.key y) : x = y := by
  rw [key_eq, key_eq] at h
  exact arguments_inj (List.append_cancel_left h)

end Kind

namespace Commit

/-- The kind and identifier of the reader that looks where the commit writes. -/
def target : Commit → (k : Kind) × k.Ident
  | protocolTransactionMetaData t => ⟨.transactionMetaData, t.transaction.base.hash⟩
  | c => ⟨c.kind, c.ident⟩

theorem key_target (c : Commit) : c.key = c.target.1.key c.target.2 := by
  cases c <;> rfl

theorem target_of_ne (h : c.kind ≠ .protocolTransactionMetaData) :
    c.target = ⟨c.kind, c.ident⟩ := by
  cases c with
  | protocolTransactionMetaData t => exact absurd rfl h
  | _ => rfl

theorem key_eq_iff (c : Commit) (k : Kind) (x : k.Ident) : c.key = k.key x ↔ c.target = ⟨k, x⟩ := by
  rw [key_target]
  constructor
  · intro h
    generalize c.target = tgt at h ⊢
    rcases tgt with ⟨k', x'⟩
    change k'.key x' = k.key x at h
    have hkind := Kind.kind_of_key h
    subst hkind
    rw [Kind.key_inj h]
  · intro h
    rw [h]

theorem recordOf_of_kind (h : c.kind ≠ k) (x : k.Ident) : c.recordOf k x = none := dif_neg h

theorem recordOf_ident (c : Commit) (x : c.kind.Ident) :
    c.recordOf c.kind x = if c.ident = x then some c.value else none := dif_pos rfl

variable {D : Type} (f : Format D)

def dataFor (c : Commit) (k : Kind) (x : k.Ident) : Option D :=
  if c.key = k.key x then some (f.serialize c.kind c.value) else none

theorem dataFor_of_ne (hc : c.kind ≠ .protocolTransactionMetaData) (k : Kind)
    (x : k.Ident) : c.dataFor f k x = (c.recordOf k x).map (f.serialize k) := by
  have hiff := c.key_eq_iff k x
  rw [target_of_ne hc] at hiff
  by_cases hkind : c.kind = k
  · subst hkind
    rw [recordOf_ident]
    by_cases hident : c.ident = x
    · rw [dataFor, if_pos (hiff.2 (by rw [hident])), if_pos hident, Option.map_some]
    · rw [dataFor, if_neg (fun h => hident (eq_of_heq (Sigma.mk.inj (hiff.1 h)).2)),
        if_neg hident, Option.map_none]
  · rw [dataFor, if_neg (fun h => hkind (Sigma.mk.inj (hiff.1 h)).1), recordOf_of_kind hkind,
      Option.map_none]

theorem dataFor_protocol (t : TxRecord ProtocolTransaction)
    (hk : k ≠ .transactionMetaData) (x : k.Ident) :
    (protocolTransactionMetaData t).dataFor f k x = none := by
  refine if_neg (fun h => hk ?_)
  have htarget := (key_eq_iff (protocolTransactionMetaData t) k x).1 h
  exact (Sigma.mk.inj htarget).1.symm

theorem dataFor_of_kinds (c : Commit) (hk : k ≠ .transactionMetaData)
    (hk' : k ≠ .protocolTransactionMetaData) (x : k.Ident) :
    c.dataFor f k x = (c.recordOf k x).map (f.serialize k) := by
  by_cases hc : c.kind = .protocolTransactionMetaData
  · rw [recordOf_of_kind (fun h => hk' (h.symm.trans hc))]
    cases c with
    | protocolTransactionMetaData t => exact dataFor_protocol f t hk x
    | _ => cases hc
  · exact dataFor_of_ne f hc k x

end Commit

section Reading

open Bucket

variable {D : Type} (f : Format D) (cs : List Commit)

theorem get_ofCommits (k : Kind) (x : k.Ident) :
    (ofCommits f cs).get (k.key x) = cs.reverse.findSome? (fun c => c.dataFor f k x) := by
  have h := AssocMap.get_foldl_put (fun c : Commit => c.key)
    (fun c => f.serialize c.kind c.value) cs AssocMap.empty (k.key x)
  rw [AssocMap.get_empty, Option.or_none] at h
  exact h

theorem read_of_some {bk : Bucket D} {x : k.Ident} {d : D}
    (h : bk.get (k.key x) = some d) : Bucket.read f bk k x = .ofDecoded (f.deSerialize k d) := by
  rw [Bucket.read, h]

theorem read_of_get {bk : Bucket D} {x : k.Ident} {r : Option k.Value}
    (h : bk.get (k.key x) = r.map (f.serialize k)) :
    Bucket.read f bk k x = .ofOption (r.map k.stored) := by
  cases r with
  | none =>
    rw [Bucket.read, h]
    rfl
  | some v =>
    rw [read_of_some f h, f.deSerialize_serialize]
    rfl

theorem findSome?_map_serialize {x : k.Ident} {l : List Commit}
    (h : ∀ c ∈ l, c.dataFor f k x = (c.recordOf k x).map (f.serialize k)) :
    l.findSome? (fun c => c.dataFor f k x) =
      (l.findSome? (fun c => c.recordOf k x)).map (f.serialize k) := by
  induction l with
  | nil => rfl
  | cons c rest ih =>
    rw [List.findSome?_cons, List.findSome?_cons, h c List.mem_cons_self,
      ih (fun c' hc' => h c' (List.mem_cons_of_mem c hc'))]
    cases c.recordOf k x <;> rfl

/-- Every protocol transaction's record is followed by a user transaction's with the
    same transaction hash. -/
def Superseded (x : Hash) : Prop :=
  ∀ pre t post, cs = pre ++ Commit.protocolTransactionMetaData t :: post →
    t.transaction.base.hash = x →
    ∃ t', Commit.transactionMetaData t' ∈ post ∧ t'.transaction.base.hash = x

/-- No commit hides the record a reader is after. -/
def Undisturbed : (k : Kind) → k.Ident → Prop
  | .protocolTransactionMetaData, x =>
    ∀ t, Commit.protocolTransactionMetaData t ∈ cs → t.transaction.base.hash ≠ x
  | .transactionMetaData, x => Superseded cs x
  | .epochMetaData, x =>
    ∀ e : EpochMetaData, lastCommit cs .epochMetaData x = some e → none ∉ e.slotInfo
  | .mainChainMetaData, _ | .blockMetaData, _ | .epochBlockHashes, _ | .block, _
  | .blockReceipts _, _ | .blockHashBySlotNumber, _ | .mainChainHeadTrieRoot, _ => True

theorem get_ofCommits_of_kinds (hk : k ≠ .transactionMetaData)
    (hk' : k ≠ .protocolTransactionMetaData) (x : k.Ident) :
    (ofCommits f cs).get (k.key x) = (lastCommit cs k x).map (f.serialize k) := by
  rw [get_ofCommits, lastCommit]
  exact findSome?_map_serialize f (fun c _ => c.dataFor_of_kinds f hk hk' x)

theorem get_ofCommits_protocol (x : Kind.Ident .protocolTransactionMetaData) :
    (ofCommits f cs).get (Kind.key .protocolTransactionMetaData x) = none := by
  rw [get_ofCommits, List.findSome?_eq_none_iff]
  intro c _
  by_cases hc : c.kind = .protocolTransactionMetaData
  · cases c with
    | protocolTransactionMetaData t => exact Commit.dataFor_protocol f t (by decide) x
    | _ => cases hc
  · rw [Commit.dataFor_of_ne f hc, Commit.recordOf_of_kind hc, Option.map_none]

variable {cs}

theorem Superseded.init {x : Hash} (h : Superseded (cs ++ [c]) x)
    (hc : c.recordOf .transactionMetaData x = none) : Superseded cs x := by
  intro pre t post hcs hx
  rcases h pre t (post ++ [c]) (by rw [hcs, List.append_assoc, List.cons_append]) hx
    with ⟨t', hmem, hx'⟩
  rcases List.mem_append.1 hmem with hpost | hlast
  · exact ⟨t', hpost, hx'⟩
  · rw [List.mem_singleton] at hlast
    subst hlast
    have hsome : (Commit.transactionMetaData t').recordOf .transactionMetaData x = some t' :=
      if_pos hx'
    rw [hsome] at hc
    cases hc

theorem get_ofCommits_of_superseded {x : Kind.Ident .transactionMetaData}
    (h : Superseded cs x) : (ofCommits f cs).get (Kind.key .transactionMetaData x) =
      (lastCommit cs .transactionMetaData x).map (f.serialize .transactionMetaData) := by
  rw [get_ofCommits, lastCommit]
  -- From the newest commit back: the first that lands under the key is a user transaction's.
  induction cs using List.reverseRecOn with
  | nil => rfl
  | append_singleton cs c ih =>
    rw [List.reverse_append, List.reverse_singleton, List.singleton_append, List.findSome?_cons,
      List.findSome?_cons]
    by_cases hc : c.kind = .protocolTransactionMetaData
    · cases c with
      | protocolTransactionMetaData t =>
        have hx : t.transaction.base.hash ≠ x := by
          intro hx
          rcases h cs t [] rfl hx with ⟨t', hmem, _⟩
          exact List.not_mem_nil hmem
        have hdata : (Commit.protocolTransactionMetaData t).dataFor f
            .transactionMetaData x = none := by
          refine if_neg (fun hkey => hx ?_)
          exact eq_of_heq (Sigma.mk.inj ((Commit.key_eq_iff _ _ x).1 hkey)).2
        have hrec : (Commit.protocolTransactionMetaData t).recordOf
            .transactionMetaData x = none := rfl
        rw [hdata, hrec]
        exact ih (h.init hrec)
      | _ => cases hc
    · rw [Commit.dataFor_of_ne f hc]
      cases hrec : c.recordOf .transactionMetaData x with
      | none => exact ih (h.init hrec)
      | some t => rfl

theorem stored_eq_iff (e : EpochMetaData) : e.stored = e ↔ none ∉ e.slotInfo := by
  constructor
  · intro h hnone
    rw [← h] at hnone
    rcases List.mem_map.1 hnone with ⟨info, _, hinfo⟩
    cases hinfo
  · intro h
    have hmap : e.slotInfo.map (fun info =>
        some (info.getD { slotLeader := 0, attestors := [] })) = e.slotInfo := by
      refine (List.map_congr_left ?_).trans (List.map_id _)
      intro info hinfo
      cases info with
      | none => exact absurd hinfo h
      | some info => rfl
    rw [EpochMetaData.stored, hmap]

theorem Lookup.ofOption_inj {α : Type} {r r' : Option α} (h : ofOption r = ofOption r') :
    r = r' := by
  cases r <;> cases r' <;> cases h <;> rfl

theorem map_stored (h : k ≠ .epochMetaData) (r : Option k.Value) : r.map k.stored = r := by
  cases r with
  | none => rfl
  | some v =>
    cases k with
    | epochMetaData => exact absurd rfl h
    | _ => rfl

theorem read_of_kinds (hk : k ≠ .transactionMetaData)
    (hk' : k ≠ .protocolTransactionMetaData) (x : k.Ident) :
    Bucket.read f (ofCommits f cs) k x = .ofOption ((lastCommit cs k x).map k.stored) :=
  read_of_get f (get_ofCommits_of_kinds f cs hk hk' x)

theorem read_protocolTransactionMetaData (x : Kind.Ident .protocolTransactionMetaData) :
    Bucket.read f (ofCommits f cs) .protocolTransactionMetaData x = .notFound := by
  rw [Bucket.read, get_ofCommits_protocol]

theorem read_displaced (cs : List Commit) (t : TxRecord ProtocolTransaction) :
    Bucket.read f (ofCommits f (cs ++ [.protocolTransactionMetaData t])) .transactionMetaData
      t.transaction.base.hash =
    .ofDecoded (f.deSerialize .transactionMetaData
      (f.serialize .protocolTransactionMetaData t)) := by
  have hget : (ofCommits f (cs ++ [.protocolTransactionMetaData t])).get
      (Kind.key .transactionMetaData t.transaction.base.hash) =
      some (f.serialize .protocolTransactionMetaData t) := by
    rw [ofCommits, List.foldl_append]
    exact AssocMap.get_put_self _ _ _
  exact read_of_some f hget

theorem lastCommit_protocol_eq_none_iff (x : Kind.Ident .protocolTransactionMetaData) :
    lastCommit cs .protocolTransactionMetaData x = none ↔
      Undisturbed cs .protocolTransactionMetaData x := by
  rw [lastCommit, List.findSome?_eq_none_iff]
  constructor
  · intro h t ht hx
    have hnone := h _ (List.mem_reverse.2 ht)
    have hsome : (Commit.protocolTransactionMetaData t).recordOf
        .protocolTransactionMetaData x = some t := if_pos hx
    rw [hsome] at hnone
    cases hnone
  · intro h c hc
    by_cases hkind : c.kind = .protocolTransactionMetaData
    · cases c with
      | protocolTransactionMetaData t => exact if_neg (h t (List.mem_reverse.1 hc))
      | _ => cases hkind
    · exact Commit.recordOf_of_kind hkind x

theorem map_stored_epoch_iff (r : Option EpochMetaData) :
    r.map EpochMetaData.stored = r ↔ ∀ e, r = some e → none ∉ e.slotInfo := by
  cases r with
  | none => exact ⟨fun _ _ h => (nomatch h), fun _ => rfl⟩
  | some e =>
    rw [Option.map_some, Option.some_inj, stored_eq_iff]
    constructor
    · intro h e' he'
      rw [← Option.some_inj.1 he']
      exact h
    · intro h
      exact h e rfl

theorem read_epochMetaData_iff (x : Kind.Ident .epochMetaData) :
    Bucket.read f (ofCommits f cs) .epochMetaData x = .ofOption (lastCommit cs .epochMetaData x) ↔
      Undisturbed cs .epochMetaData x := by
  rw [read_of_kinds f (by decide) (by decide)]
  refine Iff.trans ⟨Lookup.ofOption_inj, congrArg _⟩ ?_
  exact map_stored_epoch_iff (lastCommit cs .epochMetaData x)

theorem read_of_undisturbed {x : k.Ident} (h : Undisturbed cs k x) :
    Bucket.read f (ofCommits f cs) k x = .ofOption (lastCommit cs k x) := by
  by_cases htx : k = .transactionMetaData
  · subst htx
    rw [read_of_get f (get_ofCommits_of_superseded f h), map_stored (by decide)]
  by_cases hprotocol : k = .protocolTransactionMetaData
  · subst hprotocol
    rw [read_protocolTransactionMetaData, (lastCommit_protocol_eq_none_iff x).2 h]
    rfl
  by_cases hepoch : k = .epochMetaData
  · subst hepoch
    exact (read_epochMetaData_iff f x).2 h
  -- The remaining kinds are written where they are read, and stored as they are.
  rw [read_of_kinds f htx hprotocol, map_stored hepoch]

theorem undisturbed_of_read {x : k.Ident} (hk : k ≠ .transactionMetaData)
    (h : Bucket.read f (ofCommits f cs) k x = .ofOption (lastCommit cs k x)) :
    Undisturbed cs k x := by
  cases k with
  | transactionMetaData => exact absurd rfl hk
  | protocolTransactionMetaData =>
    rw [read_protocolTransactionMetaData] at h
    refine (lastCommit_protocol_eq_none_iff x).1 ?_
    exact (Lookup.ofOption_inj (show Lookup.ofOption none = _ from h)).symm
  | epochMetaData => exact (read_epochMetaData_iff f x).1 h
  | _ => exact trivial

/-- The bucket as one typed map per kind. After any sequence of commits a reader that
    nothing disturbs is handed the last record of its kind and identifier; every reader
    but that of user transactions' records needs this; and all readers see the typed
    maps exactly when no `ProtocolTransactionMetaData` was committed and no epoch
    record in force lacks the entry of a slot. -/
theorem reads_lastCommit (f : Format D) (cs : List Commit) : (∀ k x, Undisturbed cs k x →
      Bucket.read f (ofCommits f cs) k x = .ofOption (lastCommit cs k x)) ∧
    (∀ k x, k ≠ .transactionMetaData →
      Bucket.read f (ofCommits f cs) k x = .ofOption (lastCommit cs k x) →
      Undisturbed cs k x) ∧
    ((∀ k x, Bucket.read f (ofCommits f cs) k x = .ofOption (lastCommit cs k x)) ↔
      (∀ c ∈ cs, c.kind ≠ .protocolTransactionMetaData) ∧
      ∀ x (e : EpochMetaData), lastCommit cs .epochMetaData x = some e → none ∉ e.slotInfo) := by
  refine ⟨fun k x h => read_of_undisturbed f h, fun k x hk h => undisturbed_of_read f hk h, ?_⟩
  constructor
  · intro h
    constructor
    · intro c hc hkind
      cases c with
      | protocolTransactionMetaData t =>
        have hnone : Undisturbed cs .protocolTransactionMetaData t.transaction.base.hash :=
          undisturbed_of_read f (by decide) (h _ _)
        exact hnone t hc rfl
      | _ => cases hkind
    · intro x
      exact (read_epochMetaData_iff f x).1 (h _ x)
  · rintro ⟨hprotocol, hepoch⟩ k x
    apply read_of_undisturbed
    cases k with
    | protocolTransactionMetaData => exact fun t ht _ => hprotocol _ ht rfl
    | transactionMetaData =>
      intro pre t post hcs _
      refine absurd rfl (hprotocol (.protocolTransactionMetaData t) ?_)
      rw [hcs]
      exact List.mem_append_right pre List.mem_cons_self
    | epochMetaData => exact hepoch x
    | _ => exact trivial

end Reading

def toyAttestRecord : TxRecord ProtocolTransaction :=
  { blockHash := zeroHash, blockNumber := 100, index := 1
    transaction := .attest { chainID := 0, nonce := 1, pk := [], signature := []
                             hash := zeroHash } }

def toyTxRecord : TxRecord Transaction :=
  { blockHash := zeroHash, blockNumber := 100, index := 0
    transaction := .stake { chainID := 0, nonce := 1, gas := 0, gasPrice := 0, pk := []
                            signature := [], hash := zeroHash, amount := 0 } }

theorem toyTxRecord_read : Bucket.read .tagged (Bucket.ofCommits .tagged
      [.protocolTransactionMetaData toyAttestRecord, .transactionMetaData toyTxRecord])
      .transactionMetaData zeroHash = .found toyTxRecord := by
  refine (reads_lastCommit .tagged [.protocolTransactionMetaData toyAttestRecord,
    .transactionMetaData toyTxRecord]).1 .transactionMetaData zeroHash ?_
  intro pre t post hcs _
  cases pre with
  | nil =>
    rcases List.cons.inj hcs with ⟨_, rfl⟩
    exact ⟨toyTxRecord, List.mem_singleton_self _, rfl⟩
  | cons c pre =>
    cases pre with
    | nil => cases (List.cons.inj (List.cons.inj hcs).2).1
    | cons c' pre => cases pre <;> cases (List.cons.inj (List.cons.inj hcs).2).2

/-- The record of a protocol transaction is committed and its reader does not find it,
    while the reader of user transactions' records, which found a record before, meets
    data of the other kind. -/
theorem protocolRecord_lost :
    lastCommit [.transactionMetaData toyTxRecord, .protocolTransactionMetaData toyAttestRecord]
      .protocolTransactionMetaData zeroHash = some toyAttestRecord ∧
    Bucket.read .tagged (Bucket.ofCommits .tagged
      [.transactionMetaData toyTxRecord, .protocolTransactionMetaData toyAttestRecord])
      .protocolTransactionMetaData zeroHash = .notFound ∧
    lastCommit [.transactionMetaData toyTxRecord, .protocolTransactionMetaData toyAttestRecord]
      .transactionMetaData zeroHash = some toyTxRecord ∧
    Bucket.read .tagged (Bucket.ofCommits .tagged
      [.transactionMetaData toyTxRecord, .protocolTransactionMetaData toyAttestRecord])
      .transactionMetaData zeroHash = .malformed := by
  refine ⟨rfl, ?_, rfl, ?_⟩
  · exact read_protocolTransactionMetaData .tagged zeroHash
  · exact read_displaced .tagged [.transactionMetaData toyTxRecord] toyAttestRecord

end Zond
