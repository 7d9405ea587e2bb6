import Zond.Core.Transaction

/-!
# What a Signature Binds

A user transaction is signed over a concatenation of its fields: eight bytes for
each number, twenty for the recipient when there is one, and the data at the end.
Nothing in the string tells the kind of the transaction, whether a recipient is
present or where the data starts.

## Main definitions

* `ReadsAs`: The two ways to be mistaken: a stake reads like a transfer without recipient
  and data, and a recipient reads like the value and the first data bytes of a transfer
  without recipient.

## Theorems

* `signingBytes_bind_iff`: There is no other.
-/

namespace Zond

inductive UserTx where
  | transfer (tx : Transfer)
  | stake (tx : Stake)

/-- What a signature is supposed to bind: the kind and every field that decides
    the effect. The recipient is the one `To` reports. -/
inductive Meaning where
  | transfer (chainID nonce gas gasPrice : UInt64) (recipient : Option Address)
      (value : UInt64) (data : List UInt8)
  | stake (chainID nonce gas gasPrice amount : UInt64)
deriving DecidableEq

namespace UserTx

def signingBytes : UserTx → List UInt8
  | transfer tx => tx.signingBytes
  | stake tx => tx.signingBytes

def meaning : UserTx → Meaning
  | transfer tx =>
    .transfer tx.chainID tx.nonce tx.gas tx.gasPrice tx.toAddr tx.value tx.data
  | stake tx => .stake tx.chainID tx.nonce tx.gas tx.gasPrice tx.amount

end UserTx

def SameHead (a b : TxBase) : Prop :=
  a.chainID = b.chainID ∧ a.nonce = b.nonce ∧ a.gas = b.gas ∧ a.gasPrice = b.gasPrice

/-- The first transaction's string is also a string of the second's shape, with
    the second's fields: a stake read as a transfer without recipient and data, or
    a recipient read as the value and the start of the data. -/
def ReadsAs : UserTx → UserTx → Prop
  | .stake s, .transfer t =>
    SameHead s.toTxBase t.toTxBase ∧ t.toAddr = none ∧ t.data = [] ∧ t.value = s.amount
  | .transfer t, .transfer u =>
    SameHead t.toTxBase u.toTxBase ∧ u.toAddr = none ∧ ∃ addr, t.toAddr = some addr ∧
      addr.val ++ (uint64Bytes t.value ++ t.data) = uint64Bytes u.value ++ u.data
  | _, _ => False

theorem SameHead.symm {a b : TxBase} (h : SameHead a b) : SameHead b a :=
  ⟨h.1.symm, h.2.1.symm, h.2.2.1.symm, h.2.2.2.symm⟩

theorem signingHead_append_inj {a b : TxBase} {x y : List UInt8}
    (h : a.signingHead ++ x = b.signingHead ++ y) : SameHead a b ∧ x = y := by
  unfold TxBase.signingHead at h
  simp only [List.append_assoc] at h
  obtain ⟨hchain, h⟩ := uint64Bytes_append_inj h
  obtain ⟨hnonce, h⟩ := uint64Bytes_append_inj h
  obtain ⟨hgas, h⟩ := uint64Bytes_append_inj h
  obtain ⟨hprice, h⟩ := uint64Bytes_append_inj h
  exact ⟨⟨hchain, hnonce, hgas, hprice⟩, h⟩

theorem signingHead_eq_of_sameHead {a b : TxBase} (h : SameHead a b) :
    a.signingHead = b.signingHead := by
  unfold TxBase.signingHead
  rw [h.1, h.2.1, h.2.2.1, h.2.2.2]

theorem Transfer.signingBytes_of_some {tx : Transfer} {addr : Address} (h : tx.toAddr = some addr) :
    tx.signingBytes = tx.signingHead ++ (addr.val ++ (uint64Bytes tx.value ++ tx.data)) := by
  unfold Transfer.signingBytes
  rw [h]

theorem Transfer.signingBytes_of_none {tx : Transfer} (h : tx.toAddr = none) :
    tx.signingBytes = tx.signingHead ++ (uint64Bytes tx.value ++ tx.data) := by
  unfold Transfer.signingBytes
  rw [h, List.nil_append]

theorem ReadsAs.signingBytes_eq {a b : UserTx} (h : ReadsAs a b) :
    a.signingBytes = b.signingBytes := by
  cases a with
  | stake s =>
    cases b with
    | stake s' => exact h.elim
    | transfer t =>
      obtain ⟨hhead, hto, hdata, hvalue⟩ := h
      simp only [UserTx.signingBytes, Stake.signingBytes, Transfer.signingBytes_of_none hto,
        signingHead_eq_of_sameHead hhead, hdata, hvalue, List.append_nil]
  | transfer t =>
    cases b with
    | stake s => exact h.elim
    | transfer u =>
      obtain ⟨hhead, hto, addr, haddr, hbytes⟩ := h
      simp only [UserTx.signingBytes, Transfer.signingBytes_of_some haddr,
        Transfer.signingBytes_of_none hto, signingHead_eq_of_sameHead hhead, hbytes]

theorem ReadsAs.meaning_ne {a b : UserTx} (h : ReadsAs a b) : a.meaning ≠ b.meaning := by
  cases a with
  | stake s =>
    cases b with
    | stake s' => exact h.elim
    | transfer t => exact fun heq => (nomatch heq)
  | transfer t =>
    cases b with
    | stake s => exact h.elim
    | transfer u =>
      obtain ⟨-, hto, addr, haddr, -⟩ := h
      simp only [UserTx.meaning, haddr, hto, ne_eq, Meaning.transfer.injEq, reduceCtorEq,
        false_and, and_false, not_false_eq_true]

theorem stake_readsAs_transfer {s : Stake} {t : Transfer}
    (h : s.signingBytes = t.signingBytes) : ReadsAs (.stake s) (.transfer t) := by
  unfold Stake.signingBytes at h
  cases hto : t.toAddr with
  | some addr =>
    rw [Transfer.signingBytes_of_some hto] at h
    have hlen := congrArg List.length (signingHead_append_inj h).2
    have haddr : addr.val.length = 20 := addr.property
    simp only [List.length_append, uint64Bytes_length, haddr] at hlen
    omega
  | none =>
    rw [Transfer.signingBytes_of_none hto] at h
    obtain ⟨hhead, hrest⟩ := signingHead_append_inj h
    rw [← List.append_nil (uint64Bytes s.amount)] at hrest
    obtain ⟨hvalue, hdata⟩ := uint64Bytes_append_inj hrest
    exact ⟨hhead, hto, hdata.symm, hvalue.symm⟩

theorem transfer_meaning_or_readsAs {t u : Transfer} (h : t.signingBytes = u.signingBytes) :
    (UserTx.transfer t).meaning = (UserTx.transfer u).meaning ∨
      ReadsAs (.transfer t) (.transfer u) ∨ ReadsAs (.transfer u) (.transfer t) := by
  cases ht : t.toAddr with
  | some addr =>
    rw [Transfer.signingBytes_of_some ht] at h
    cases hu : u.toAddr with
    | some addr' =>
      rw [Transfer.signingBytes_of_some hu] at h
      obtain ⟨⟨hc, hn, hg, hp⟩, hrest⟩ := signingHead_append_inj h
      obtain ⟨haddr, hrest⟩ := Bytes.append_inj_of_length 20 addr.property addr'.property hrest
      obtain ⟨hvalue, hdata⟩ := uint64Bytes_append_inj hrest
      have hto : addr = addr' := Subtype.ext haddr
      exact .inl (by simp only [UserTx.meaning, ht, hu, hc, hn, hg, hp, hto, hvalue, hdata])
    | none =>
      rw [Transfer.signingBytes_of_none hu] at h
      obtain ⟨hhead, hrest⟩ := signingHead_append_inj h
      exact .inr (.inl ⟨hhead, hu, addr, ht, hrest⟩)
  | none =>
    rw [Transfer.signingBytes_of_none ht] at h
    cases hu : u.toAddr with
    | some addr' =>
      rw [Transfer.signingBytes_of_some hu] at h
      obtain ⟨hhead, hrest⟩ := signingHead_append_inj h
      exact .inr (.inr ⟨hhead.symm, ht, addr', hu, hrest.symm⟩)
    | none =>
      rw [Transfer.signingBytes_of_none hu] at h
      obtain ⟨⟨hc, hn, hg, hp⟩, hrest⟩ := signingHead_append_inj h
      obtain ⟨hvalue, hdata⟩ := uint64Bytes_append_inj hrest
      exact .inl (by simp only [UserTx.meaning, ht, hu, hc, hn, hg, hp, hvalue, hdata])

theorem meaning_or_readsAs {a b : UserTx} (h : a.signingBytes = b.signingBytes) :
    a.meaning = b.meaning ∨ ReadsAs a b ∨ ReadsAs b a := by
  cases a with
  | stake s =>
    cases b with
    | stake s' =>
      obtain ⟨⟨hc, hn, hg, hp⟩, hrest⟩ := signingHead_append_inj (show
        s.signingHead ++ uint64Bytes s.amount = s'.signingHead ++ uint64Bytes s'.amount from h)
      rw [← List.append_nil (uint64Bytes s.amount),
        ← List.append_nil (uint64Bytes s'.amount)] at hrest
      have hamount := (uint64Bytes_append_inj hrest).1
      exact .inl (by simp only [UserTx.meaning, hc, hn, hg, hp, hamount])
    | transfer t => exact .inr (.inl (stake_readsAs_transfer h))
  | transfer t =>
    cases b with
    | stake s => exact .inr (.inr (stake_readsAs_transfer h.symm))
    | transfer u => exact transfer_meaning_or_readsAs h

/-- The signing strings of two transactions bind their meaning exactly when
    neither transaction reads as the other. -/
theorem signingBytes_bind_iff (a b : UserTx) :
    (a.signingBytes = b.signingBytes → a.meaning = b.meaning) ↔
      ¬ReadsAs a b ∧ ¬ReadsAs b a := by
  constructor
  · intro hbind
    refine ⟨fun hab => hab.meaning_ne (hbind hab.signingBytes_eq), fun hba => ?_⟩
    exact hba.meaning_ne (hbind hba.signingBytes_eq.symm).symm
  · rintro ⟨hab, hba⟩ heq
    rcases meaning_or_readsAs heq with h | h | h
    · exact h
    · exact absurd h hab
    · exact absurd h hba

/-- A stake of ten thousand quanta and the transfer it can be replayed as. -/
def sampleStake : Stake :=
  { chainID := 0, nonce := 1, gas := 30000, gasPrice := 10, pk := [], signature := []
    hash := zeroHash, amount := Config.stakeAmount }

/-- A contract creation without code that carries the amount of `sampleStake`. -/
def sampleCreation : Transfer :=
  { sampleStake.toTxBase with toBytes := [], value := Config.stakeAmount, data := [] }

/-- The stake and the contract creation are signed over one string. -/
theorem stake_signed_as_creation :
    (UserTx.stake sampleStake).signingBytes = (UserTx.transfer sampleCreation).signingBytes ∧
      (UserTx.stake sampleStake).meaning ≠ (UserTx.transfer sampleCreation).meaning := by
  decide

end Zond
