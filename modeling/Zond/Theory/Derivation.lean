import Mathlib.Data.List.Forall2
import Zond.Core.ReceiptStore

/-!
# Deriving Receipts

Storing receipts and reading them back, for any list of receipts that were placed one after
the other.

## Main definitions

* `Filed`: Receipts placed one after the other.
* `asRead`: What comes out: the number of the block and the gas of a stake may differ.

## Theorems

* `Filed.deriveFields`, `Filed.deriveLogs`: What is derived again.
-/

namespace Zond

open Outcome

def Log.unlocated (l : Log) : Log := unlocatedLog l.address l.topics l.data

/-- What is left of a receipt in the store. -/
def Receipt.stored (c : Crypto) (r : Receipt) : StoredReceipt :=
  { status := r.status, cumulativeGasUsed := r.cumulativeGasUsed
    bloom := createBloom c [r.logs.map Log.unlocated], logs := r.logs.map Log.unlocated
    txHash := zeroHash, contractAddress := zeroAddress, gasUsed := 0 }

section Storage

variable (c : Crypto)

theorem decodeLog_encodeRLP (l : Log) : decodeLog l.encodeRLP = some l.unlocated := by
  have htopics : (Rlp.Item.list (l.topics.map (fun t => .string t.val))).toListOf?
      (fun t => t.toArray? 32) = some l.topics :=
    Rlp.toListOf?_map Rlp.toArray?_val l.topics
  simp only [decodeLog, Log.encodeRLP, decodeLogHead, Rlp.toArray?_val, htopics,
    Rlp.Item.toBytes?, Option.bind_eq_bind, Option.bind_some]
  rfl

theorem setStatus_statusEncoding (status : Bool) :
    setStatus (statusEncoding status) = some status := by
  cases status
  · rfl
  · rfl

theorem decodeReceipt_encodeRLP (r : Receipt) :
    decodeReceipt c r.encodeRLP = some (r.stored c) := by
  have hlogs := Rlp.toListOf?_map_of decodeLog_encodeRLP r.logs
  have hnewest : decodeStoredReceiptRLP c r.encodeRLP = some (r.stored c) := by
    simp only [decodeStoredReceiptRLP, Receipt.encodeRLP, Rlp.Item.toBytes?,
      Option.bind_eq_bind, Option.bind_some, setStatus_statusEncoding, Rlp.toUint64?_ofNat, hlogs]
    rfl
  unfold decodeReceipt
  rw [hnewest, Option.some_or, Option.some_or]

theorem decodeReceiptLogs_encodeRLP (r : Receipt) :
    decodeReceiptLogs r.encodeRLP = some (r.logs.map Log.unlocated) := by
  simp only [decodeReceiptLogs, Receipt.encodeRLP, Rlp.Item.toBytes?, Option.bind_eq_bind,
    Option.bind_some, Rlp.toUint64?_ofNat]
  exact Rlp.toListOf?_map_of decodeLog_encodeRLP r.logs

theorem createBloom_unlocated (logs : List Log) :
    createBloom c [logs.map Log.unlocated] = createBloom c [logs] := by
  show (logs.map Log.unlocated).foldl (addLogToBloom c) _ = logs.foldl (addLogToBloom c) _
  rw [List.foldl_map]
  rfl

end Storage

namespace Receipt

/-- What a transaction adds to the sum: for a stake a fixed amount, whatever its receipt
    says. -/
def charge (r : Receipt) : UInt64 := if r.type = .stake then Config.stakeTxGas else r.gasUsed

/-- What comes out of the derivation for a receipt of block `number`. -/
def asRead (number : UInt64) (r : Receipt) : Receipt :=
  { r with
    gasUsed := r.charge
    blockNumber := number.toNat
    logs := r.logs.map (fun l => { l with blockNumber := number }) }

end Receipt

/-- A receipt that stands where its neighbours and its transaction say: `used` is the gas and
    `logSize` the number of logs before it. -/
structure Located (c : Crypto) (hash : Hash) (d : TxDescription) (i : Nat) (used : UInt64)
    (logSize : Nat) (r : Receipt) : Prop where
  type : r.type = d.type
  txHash : r.txHash = d.txHash
  contractAddress : r.contractAddress = d.created.getD zeroAddress
  blockHash : r.blockHash = hash
  index : r.transactionIndex = i
  bloom : r.bloom = createBloom c [r.logs]
  gas : r.cumulativeGasUsed = used + r.charge
  logs : ∀ k log, r.logs[k]? = some log →
    log.txHash = d.txHash ∧ log.txIndex = i ∧ log.blockHash = hash ∧ log.index = logSize + k

section Located

variable {c : Crypto} {hash : Hash} {number : UInt64} {d : TxDescription} {i logSize : Nat}
variable {used : UInt64} {r : Receipt}

theorem deriveLogs_unlocated (h : Located c hash d i used logSize r) :
    deriveLogs hash number d.txHash i logSize (r.logs.map Log.unlocated)
      = (r.asRead number).logs := by
  unfold deriveLogs
  refine List.ext_getElem? (fun k => ?_)
  rw [List.getElem?_mapIdx, List.getElem?_map, Receipt.asRead, List.getElem?_map]
  cases hk : r.logs[k]? with
  | none => rfl
  | some log =>
    rcases h.logs k log hk with ⟨htx, hindex, hblock, hplace⟩
    refine congrArg some ?_
    rw [← htx, ← hindex, ← hblock, ← hplace]
    rfl

theorem deriveReceipt_stored {done : Derivation} (h : Located c hash d i used logSize r)
    (hused : done.cumulativeGasUsed = used) (hlogs : done.logIndex = logSize)
    (hfirst : i = 0 → used = 0) :
    deriveReceipt hash number done i (r.stored c) d = r.asRead number := by
  have hgas : (if i = 0 then r.cumulativeGasUsed else r.cumulativeGasUsed - used)
      = r.charge := by
    rw [h.gas]
    by_cases hi : i = 0
    · rw [if_pos hi, hfirst hi, UInt64.zero_add]
    · rw [if_neg hi, UInt64.add_comm, UInt64.add_sub_cancel]
  have hderived := @deriveLogs_unlocated c hash number d i logSize used r h
  unfold deriveReceipt Receipt.stored
  rw [hused, hgas, hlogs, hderived, createBloom_unlocated, ← h.bloom, ← h.type, ← h.txHash,
    ← h.contractAddress, ← h.index, ← h.blockHash]
  rfl

end Located

def usedBefore (rs : List Receipt) : Nat → UInt64
  | 0 => 0
  | i + 1 => (rs[i]?.map Receipt.cumulativeGasUsed).getD 0

theorem usedBefore_append {rs : List Receipt} {i : Nat} (h : i ≤ rs.length)
    (more : List Receipt) : usedBefore (rs ++ more) i = usedBefore rs i := by
  cases i with
  | zero => rfl
  | succ i => rw [usedBefore, usedBefore, List.getElem?_append_left h]

theorem usedBefore_last (rs : List Receipt) (r : Receipt) :
    usedBefore (rs ++ [r]) (rs.length + 1) = r.cumulativeGasUsed := by
  rw [usedBefore, List.getElem?_concat_length]
  rfl

/-- Receipts that were placed one after the other, for the transactions `txs`. -/
structure Filed {α : Type} (c : Crypto) (hash : Hash) (describe : α → Go TxDescription)
    (txs : List α) (rs : List Receipt) (used : UInt64) (logSize : Nat) : Prop where
  types : List.Forall₂ (fun tx r => ∃ d, describe tx = .ok d ∧ r.type = d.type) txs rs
  last : used = usedBefore rs rs.length
  gas : ∀ i r, rs[i]? = some r → r.cumulativeGasUsed = usedBefore rs i + r.charge
  read : ∀ number, deriveLoop hash number describe ((rs.map (Receipt.stored c)).zip txs)
    = .ok { receipts := rs.map (Receipt.asRead number), cumulativeGasUsed := used
            logIndex := logSize }

namespace Filed

variable {α : Type} {c : Crypto} {hash : Hash} {describe : α → Go TxDescription}
variable {txs : List α} {rs : List Receipt} {used : UInt64} {logSize : Nat}

theorem nil : Filed c hash describe [] [] 0 0 :=
  ⟨.nil, rfl, fun _ _ h => (nomatch h), fun _ => rfl⟩

theorem length (h : Filed c hash describe txs rs used logSize) : txs.length = rs.length :=
  h.types.length_eq

theorem snoc {tx : α} {d : TxDescription} {r : Receipt}
    (h : Filed c hash describe txs rs used logSize) (htx : describe tx = .ok d)
    (hr : Located c hash d txs.length used logSize r) :
    Filed c hash describe (txs ++ [tx]) (rs ++ [r]) r.cumulativeGasUsed
      (logSize + r.logs.length) := by
  have hlength := h.length
  have hfirst : txs.length = 0 → used = 0 := by
    intro hzero
    rw [h.last, ← hlength, hzero]
    rfl
  refine ⟨?_, ?_, fun i r' hi => ?_, fun number => ?_⟩
  · exact List.rel_append h.types (.cons ⟨d, htx, hr.type⟩ .nil)
  · rw [List.length_append, List.length_singleton, usedBefore_last]
  · by_cases hlt : i < rs.length
    · rw [List.getElem?_append_left hlt] at hi
      rw [usedBefore_append (Nat.le_of_lt hlt)]
      exact h.gas i r' hi
    · rw [List.getElem?_append_right (Nat.not_lt.1 hlt)] at hi
      have hlast : i = rs.length := by
        have hlt' : i - rs.length < [r].length := (List.getElem?_eq_some_iff.1 hi).1
        rw [List.length_singleton] at hlt'
        omega
      subst hlast
      rw [Nat.sub_self] at hi
      cases hi
      rw [usedBefore_append (Nat.le_refl _), ← h.last]
      exact hr.gas
  · have hzip : ((rs ++ [r]).map (Receipt.stored c)).zip (txs ++ [tx])
        = (rs.map (Receipt.stored c)).zip txs ++ [(r.stored c, tx)] := by
      rw [List.map_append, List.zip_append (by rw [List.length_map, hlength])]
      rfl
    have hdone : ((rs.map (Receipt.stored c)).zip txs).length = txs.length := by
      rw [List.length_zip, List.length_map, hlength, Nat.min_self]
    have hread := h.read number
    unfold deriveLoop at hread ⊢
    rw [hzip, List.zipIdx_append, List.foldlM_append, hread, ok_bind, Nat.zero_add, hdone]
    show (deriveStep hash number describe _ _ >>= fun d => pure d) = _
    unfold deriveStep
    rw [htx, ok_bind, deriveReceipt_stored hr rfl rfl hfirst, List.map_append]
    simp only [Receipt.stored, List.length_map]
    rfl

theorem deriveFields (h : Filed c hash describe txs rs used logSize) (number : UInt64) :
    deriveFields hash number describe (rs.map (Receipt.stored c)) txs
      = .ok (some (rs.map (Receipt.asRead number))) := by
  unfold Zond.deriveFields
  rw [if_neg (by rw [List.length_map, h.length, ne_eq, not_not]), h.read number]
  rfl

end Filed

section Logs

variable {ext : Externals} {hash : Hash} {number : UInt64}

theorem txHash_of_describe {tx : Transaction} {d : TxDescription}
    (h : tx.describe ext = .ok d) : d.txHash = tx.base.hash := by
  cases tx with
  | transfer tx =>
    cases h
    rfl
  | stake tx =>
    cases h
    rfl
  | unknown base => cases h

theorem logs_of_deriveLoop (l : List (StoredReceipt × Transaction)) {d : Derivation}
    (h : deriveLoop hash number (Transaction.describe ext) l = .ok d) :
    (l.map (Prod.map StoredReceipt.logs id)).zipIdx.foldl (deriveLogStep hash number) ([], 0)
      = (d.receipts.map Receipt.logs, d.logIndex) := by
  unfold deriveLoop at h
  refine foldlM_zipIdx
    (fun (done : List (StoredReceipt × Transaction)) (d : Derivation) =>
      (done.map (Prod.map StoredReceipt.logs id)).zipIdx.foldl (deriveLogStep hash number) ([], 0)
        = (d.receipts.map Receipt.logs, d.logIndex)) l ?_ rfl h
  intro done x rest d d' _ hdone hstep
  unfold deriveStep at hstep
  rcases bind_eq_ok.1 hstep with ⟨tx, htx, hstep⟩
  rw [pure_eq_ok] at hstep
  rw [List.map_append, List.zipIdx_append, List.foldl_append, hdone, List.length_map,
    Nat.zero_add, ← hstep, List.map_append]
  simp only [deriveReceipt, txHash_of_describe htx]
  rfl

theorem Filed.deriveLogs {c : Crypto} {txs : List Transaction} {rs : List Receipt}
    {used : UInt64} {logSize : Nat}
    (h : Filed c hash (Transaction.describe ext) txs rs used logSize) (number : UInt64) :
    deriveLogFieldsForTransactions hash number
      (rs.map (fun r => r.logs.map Log.unlocated)) txs
        = some (rs.map (fun r => (r.asRead number).logs)) := by
  have hzip : (rs.map (fun r => r.logs.map Log.unlocated)).zip txs
      = ((rs.map (Receipt.stored c)).zip txs).map (Prod.map StoredReceipt.logs id) := by
    rw [← List.zip_map, List.map_map, List.map_id]
    rfl
  unfold deriveLogFieldsForTransactions
  rw [if_neg (by rw [List.length_map, h.length, ne_eq, not_not]), hzip,
    logs_of_deriveLoop _ (h.read number), List.map_map]
  rfl

end Logs

end Zond
