import Zond.Core.Apply
import Zond.Core.Producer
import Zond.Theory.Ledger

/-!
# Stake Transactions

The fee for all gas, the refund of the unused gas and the proposer's fixed fee are three
products, each taken modulo `2 ^ 64` and then read as a signed number, so they cancel up
to one wrap; and the amount is read as a signed number as well, so that `2 ^ 63` and more
is negative.

## Main definitions

* `StakeAccounted`: What a stake transaction has to do to the coins.

## Theorems

* `stakeAccounted_iff`: When it does.
-/

namespace Zond

open Postings

def Stake.paid (tx : Stake) : Int := int64 (tx.gas * tx.gasPrice)

/-- The fixed fee the proposer is credited, as the code reads it. -/
def Stake.tip (tx : Stake) : Int := int64 (Config.stakeTxGas * tx.gasPrice)

def Stake.fee (tx : Stake) : Nat := 1000 * tx.gasPrice.toNat

def Stake.refund (tx : Stake) : Int :=
  int64Mul (int64 (tx.gas - Config.stakeTxGas)) (int64 tx.gasPrice)

theorem Stake.refund_eq (tx : Stake) : tx.refund =
    if tx.paid - tx.tip < -2 ^ 63 then tx.paid - tx.tip + 2 ^ 64
    else if 2 ^ 63 ≤ tx.paid - tx.tip then tx.paid - tx.tip - 2 ^ 64
    else tx.paid - tx.tip := by
  unfold Stake.refund
  rw [int64Mul_int64, UInt64.sub_mul]
  exact int64_sub _ _

theorem Stake.tip_eq_fee {tx : Stake} (h : tx.fee < 2 ^ 63) : tx.tip = tx.fee := by
  have hnat : (Config.stakeTxGas * tx.gasPrice).toNat = tx.fee := by
    rw [UInt64.toNat_mul]
    exact Nat.mod_eq_of_lt (by unfold Stake.fee at h; change 1000 * _ < _; omega)
  unfold Stake.tip
  rw [int64_of_lt (by rw [hnat]; exact h), hnat]

theorem Stake.tip_lt (tx : Stake) : tx.tip < 2 ^ 63 := int64_lt _

namespace StateDB

variable (s : StateDB) (signer minter : Address) (tx : Stake)

theorem getBalance_moveStake : (moveStake s signer minter tx).getBalance = postAll s.getBalance
      [(signer, -tx.paid), (signer, s.getPendingStakeBalance signer),
        (signer, -int64 tx.amount), (signer, tx.refund), (minter, tx.tip)] := by
  simp only [moveStake, getBalance_addBalance, getBalance_subBalance, getBalance_setNonce,
    getBalance_setPendingStakeBalance, getPendingStakeBalance_subBalance,
    getPendingStakeBalance_setNonce, getBalance_getOrNewStateObject,
    getPendingStakeBalance_getOrNewStateObject]
  rfl

theorem getStakeBalance_moveStake :
    (moveStake s signer minter tx).getStakeBalance = s.getStakeBalance := by
  simp only [moveStake, getStakeBalance_addBalance, getStakeBalance_subBalance,
    getStakeBalance_setNonce, getStakeBalance_setPendingStakeBalance,
    getStakeBalance_getOrNewStateObject]

theorem getPendingStakeBalance_moveStake : (moveStake s signer minter tx).getPendingStakeBalance =
      Function.update s.getPendingStakeBalance signer (int64 tx.amount) := by
  simp only [moveStake, getPendingStakeBalance_addBalance, getPendingStakeBalance_subBalance,
    getPendingStakeBalance_setNonce, getPendingStakeBalance_setPendingStakeBalance,
    getPendingStakeBalance_getOrNewStateObject]

/-- The amount and the old pending stake cancel, so the coins move by the three
    fees alone. -/
theorem total_moveStake :
    (moveStake s signer minter tx).total = s.total - tx.paid + tx.refund + tx.tip := by
  rw [total_eq, total_eq, getBalance_moveStake, getStakeBalance_moveStake,
    getPendingStakeBalance_moveStake, sum_postAll, sum_update]
  simp only [List.map_cons, List.map_nil, List.sum_cons, List.sum_nil]
  omega

end StateDB

/-- A stake transaction is accounted for between two states: the coins are
    conserved, no amount is negative, the pending stake is the amount, and the
    balances move by the old pending stake, the amount and the fixed fee. -/
structure StakeAccounted (tx : Stake) (signer minter : Address) (s s' : StateDB) : Prop where
  total : s'.total = s.total
  nonNegative : s'.NonNegative
  pending : s'.getPendingStakeBalance signer = tx.amount.toNat
  balance : ∀ x, s'.getBalance x = s.getBalance x +
    (if signer = x then s.getPendingStakeBalance signer - tx.amount.toNat - tx.fee else 0) +
    (if minter = x then tx.fee else 0 : Int)

/-- The exact condition. The amount and the proposer's fee fit a signed word, the
    signer can pay, and the two fees differ by less than the refund can express.
    When they differ by more below, the wrapped refund is `2 ^ 64` too high, and
    the books still balance if finalising takes just that much from the signer. -/
structure StakeSound (tx : Stake) (signer minter : Address) (s : StateDB) : Prop where
  amount : tx.amount.toNat < 2 ^ 63
  fee : signer ≠ minter → tx.fee < 2 ^ 63
  upper : tx.paid - tx.tip < 2 ^ 63
  loses : s.LosesOnly signer (if tx.paid - tx.tip < -2 ^ 63 then 2 ^ 64 else 0)
  affordable : (tx.amount.toNat : Int) + (if signer = minter then 0 else tx.fee : Int) ≤
    s.getBalance signer + s.getPendingStakeBalance signer

section Accounting

variable {tx : Stake} {signer minter : Address} {s : StateDB}

theorem StakeSound.balance (hs : s.NonNegative) (h : StakeSound tx signer minter s) (x : Address) :
    (moveStake s.finalise signer minter tx).getBalance x = s.getBalance x +
      (if signer = x then s.getPendingStakeBalance signer - tx.amount.toNat - tx.fee else 0) +
      (if minter = x then tx.fee else 0 : Int) := by
  have hself := ((StateDB.losesOnly_iff hs signer _).1 h.loses).2
  have hrefund := tx.refund_eq
  have hupper := h.upper
  rw [StateDB.getBalance_moveStake, postAll_apply]
  simp only [share_cons, share_nil, int64_of_lt h.amount]
  by_cases hx : signer = x
  · subst hx
    by_cases hm : minter = signer
    · simp only [if_true, hm]
      split at hrefund <;> split at hself <;> omega
    · have htip := Stake.tip_eq_fee (h.fee (fun heq => hm heq.symm))
      simp only [if_true, if_neg hm]
      split at hrefund <;> split at hself <;> omega
  · have hsame := StateDB.getBalance_finalise_of_lost hs
      ((StateDB.lost_eq_zero_iff s x).2 (h.loses.1 x (fun hx' => hx hx'.symm)))
    by_cases hm : minter = x
    · have htip := Stake.tip_eq_fee (h.fee (fun heq => hx (heq.trans hm)))
      simp only [if_neg hx, if_pos hm, hsame, htip]
      omega
    · simp only [if_neg hx, if_neg hm, hsame]
      omega

theorem StakeSound.nonNegative (hs : s.NonNegative) (h : StakeSound tx signer minter s) :
    (moveStake s.finalise signer minter tx).NonNegative := by
  rw [StateDB.nonNegative_iff]
  intro x
  obtain ⟨hbal, hstake, hpend⟩ := StateDB.nonNegative_iff.1 hs.finalise x
  have hbal' := (StateDB.nonNegative_iff.1 hs x).1
  have haffordable := h.affordable
  refine ⟨?_, ?_, ?_⟩
  · rw [h.balance hs x]
    by_cases hx : signer = x
    · subst hx
      by_cases hm : minter = signer
      · simp only [if_true, hm] at haffordable ⊢
        omega
      · simp only [if_true, if_neg hm, if_neg (Ne.symm hm)] at haffordable ⊢
        omega
    · simp only [if_neg hx]
      split <;> omega
  · rw [StateDB.getStakeBalance_moveStake]
    exact hstake
  · rw [StateDB.getPendingStakeBalance_moveStake]
    by_cases hx : x = signer
    · rw [hx, Function.update_self, int64_of_lt h.amount]
      omega
    · rw [Function.update_of_ne hx]
      exact hpend

theorem StakeSound.accounted (hs : s.NonNegative) (h : StakeSound tx signer minter s) :
    StakeAccounted tx signer minter s (moveStake s.finalise signer minter tx) := by
  refine ⟨?_, h.nonNegative hs, ?_, h.balance hs⟩
  · have htotal := ((StateDB.losesOnly_iff hs signer _).1 h.loses).1
    have hrefund := tx.refund_eq
    have hupper := h.upper
    rw [StateDB.total_moveStake]
    split at hrefund <;> split at htotal <;> omega
  · rw [StateDB.getPendingStakeBalance_moveStake, Function.update_self, int64_of_lt h.amount]

theorem StakeAccounted.fee_lt (hs : s.NonNegative)
    (h : StakeAccounted tx signer minter s (moveStake s.finalise signer minter tx))
    (hne : signer ≠ minter) : tx.fee < 2 ^ 63 := by
  have hminter := h.balance minter
  have hle := StateDB.getBalance_finalise_le hs minter
  have htip := tx.tip_lt
  rw [StateDB.getBalance_moveStake, postAll_apply] at hminter
  simp only [share_cons, share_nil, if_neg hne, if_true] at hminter
  omega

theorem StakeAccounted.sound (hs : s.NonNegative)
    (h : StakeAccounted tx signer minter s (moveStake s.finalise signer minter tx)) :
    StakeSound tx signer minter s := by
  have hamount : tx.amount.toNat < 2 ^ 63 := by
    have hpending := h.pending
    rw [StateDB.getPendingStakeBalance_moveStake, Function.update_self] at hpending
    rw [← int64_nonneg_iff, hpending]
    exact Int.natCast_nonneg _
  have htotal := h.total
  have hle := StateDB.total_finalise_le hs
  have hrefund := tx.refund_eq
  rw [StateDB.total_moveStake] at htotal
  have hupper : tx.paid - tx.tip < 2 ^ 63 := by
    split at hrefund
    · omega
    · split at hrefund <;> omega
  have hfinal := (StateDB.nonNegative_iff.1 h.nonNegative signer).1
  have hsigner := h.balance signer
  rw [hsigner] at hfinal
  rw [StateDB.getBalance_moveStake, postAll_apply] at hsigner
  simp only [share_cons, share_nil, if_true, int64_of_lt hamount] at hsigner hfinal
  refine ⟨hamount, h.fee_lt hs, hupper, (StateDB.losesOnly_iff hs signer _).2 ?_, ?_⟩
  · by_cases hm : minter = signer
    · simp only [if_pos hm] at hsigner
      split at hrefund <;> split <;> omega
    · have htip := Stake.tip_eq_fee (h.fee_lt hs (fun heq => hm heq.symm))
      simp only [if_neg hm] at hsigner
      split at hrefund <;> split <;> omega
  · by_cases hm : minter = signer
    · simp only [if_pos hm, if_pos hm.symm] at hfinal ⊢
      omega
    · simp only [if_neg hm, if_neg (Ne.symm hm)] at hfinal ⊢
      omega

theorem StakeAccepted.sound {c : Crypto} (h : StakeAccepted c tx s signer)
    (hs : s.NonNegative) (hfit : tx.gas.toNat * tx.gasPrice.toNat + tx.amount.toNat < 2 ^ 63)
    (hlose : s.LosesOnly signer 0) : StakeSound tx signer minter s := by
  have hgas : 1000 ≤ tx.gas.toNat := UInt64.le_iff_toNat_le.1 h.gas
  have hfee : tx.fee ≤ tx.gas.toNat * tx.gasPrice.toNat := Nat.mul_le_mul_right _ hgas
  have hprod : (tx.gas * tx.gasPrice).toNat = tx.gas.toNat * tx.gasPrice.toNat := by
    rw [UInt64.toNat_mul]
    exact Nat.mod_eq_of_lt (by omega)
  have hpaid : tx.paid = (tx.gas.toNat * tx.gasPrice.toNat : Nat) := by
    unfold Stake.paid
    rw [int64_of_lt (by omega), hprod]
  have htip : tx.tip = tx.fee := Stake.tip_eq_fee (by omega)
  have hneed : (tx.gas.toNat * tx.gasPrice.toNat + tx.amount.toNat : Nat) ≤
      s.getBalance signer := by
    have hsum : (tx.gas * tx.gasPrice + tx.amount).toNat
        = tx.gas.toNat * tx.gasPrice.toNat + tx.amount.toNat := by
      rw [UInt64.toNat_add, hprod]
      exact Nat.mod_eq_of_lt (by omega)
    have hbal := h.balance
    rwa [int64_of_lt (by omega), hsum] at hbal
  have hpend : 0 ≤ s.getPendingStakeBalance signer := (hs signer).2.2
  refine ⟨by omega, fun _ => by omega, by omega, ?_, ?_⟩
  · rw [if_neg (by omega)]
    exact hlose
  · split <;> omega

end Accounting

/-- An accepted stake transaction is accounted for exactly when it is sound in the
    state it is applied to. -/
theorem stakeAccounted_iff (c : Crypto) {tx : Stake} {s s₁ : StateDB} {signer : Address}
    (hs : s.NonNegative) (haccept : validateStakeTxn c tx s = .ok s₁)
    (hsigner : tx.addrFrom c = .ok signer) (gp : UInt64) (blockNumber : Int) (blockHash : Hash)
    (usedGas : UInt64) (minter : Address) : StakeAccounted tx signer minter s₁
        (applyStakeTransaction c gp s₁ blockNumber blockHash tx usedGas minter).1 ↔
      StakeSound tx signer minter s₁ := by
  obtain ⟨addrFrom, haccepted, rfl⟩ := (validateStakeTxn_eq_ok c).1 haccept
  -- The length check makes the address charged the one the signature is checked for.
  have haddr : c.getDilithiumAddressFromUnSizedPK tx.pk = signer := by
    rw [← c.getAddressFromUnSizedPK_of_dilithium haccepted.pkSize]
    exact (TxBase.addrFrom_eq_ok.1 hsigner).1
  have hs₁ : (s.getOrNewStateObject addrFrom).NonNegative := by
    intro x
    rw [StateDB.account_getOrNewStateObject]
    exact hs x
  unfold applyStakeTransaction
  rw [haddr]
  exact ⟨StakeAccounted.sound hs₁, StakeSound.accounted hs₁⟩

def fundedState (addr : Address) : StateDB :=
  StateDB.new (AssocMap.empty.put addr { Account.new with balance := 1000000000000000 })

theorem fundedState_nonNegative (addr : Address) : (fundedState addr).NonNegative := by
  intro x
  unfold fundedState
  rw [StateDB.account_new, AssocMap.get_put]
  by_cases h : addr = x
  · rw [if_pos h]
    exact ⟨by decide, le_refl _, le_refl _⟩
  · rw [if_neg h]
    exact Account.new_encodable

def toyStake : Stake :=
  (newStake 0 Config.stakeAmount 1000 1 0 (toyKey 2).pk).signDilithium toyCrypto (toyKey 2)

theorem toyStake_accepted :
    StakeAccepted toyCrypto toyStake (fundedState (toyAddress 2)) (toyAddress 2) := by
  constructor <;> decide +kernel

theorem toyStake_accounted : StakeAccounted toyStake (toyAddress 2) zeroAddress
      ((fundedState (toyAddress 2)).getOrNewStateObject (toyAddress 2))
      (applyStakeTransaction toyCrypto 100000
        ((fundedState (toyAddress 2)).getOrNewStateObject (toyAddress 2)) 1 zeroHash toyStake 0
        zeroAddress).1 := by
  have hfunded := fundedState_nonNegative (toyAddress 2)
  refine (stakeAccounted_iff toyCrypto hfunded
    ((validateStakeTxn_eq_ok toyCrypto).2 ⟨_, toyStake_accepted, rfl⟩)
    toyStake_accepted.sender 100000 1 zeroHash 0 zeroAddress).2 ?_
  have hsame : (fundedState (toyAddress 2)).getOrNewStateObject (toyAddress 2)
      = fundedState (toyAddress 2) := rfl
  rw [hsame]
  exact toyStake_accepted.sound hfunded (by decide) (StateDB.losesOnly_of_dirties_nil rfl _)

def hugeStake : Stake :=
  (newStake 0 (2 ^ 63) 1000 0 0 (toyKey 2).pk).signDilithium toyCrypto (toyKey 2)

theorem hugeStake_accepted :
    StakeAccepted toyCrypto hugeStake (StateDB.new AssocMap.empty) (toyAddress 2) := by
  constructor <;> decide +kernel

/-- The validator accepts the stake of `2 ^ 63` from an empty account; applying it
    leaves a balance of `2 ^ 63` and a pending stake of the opposite sign. -/
theorem hugeStake_not_accounted : (StateDB.new AssocMap.empty).NonNegative ∧ ∃ s₁,
      validateStakeTxn toyCrypto hugeStake (StateDB.new AssocMap.empty) = .ok s₁ ∧
      hugeStake.addrFrom toyCrypto = .ok (toyAddress 2) ∧
      let s' := (applyStakeTransaction toyCrypto 100000 s₁ 1 zeroHash hugeStake 0 zeroAddress).1
      s'.getBalance (toyAddress 2) = 2 ^ 63 ∧ s'.getPendingStakeBalance (toyAddress 2) = -2 ^ 63 ∧
        ¬StakeAccounted hugeStake (toyAddress 2) zeroAddress s₁ s' := by
  have hpending : (applyStakeTransaction toyCrypto 100000
      ((StateDB.new AssocMap.empty).getOrNewStateObject (toyAddress 2)) 1 zeroHash hugeStake 0
      zeroAddress).1.getPendingStakeBalance (toyAddress 2) = -2 ^ 63 := by decide +kernel
  refine ⟨?_, _, (validateStakeTxn_eq_ok toyCrypto).2 ⟨_, hugeStake_accepted, rfl⟩,
    hugeStake_accepted.sender, by decide +kernel, hpending, fun h => ?_⟩
  · intro x
    exact Account.new_encodable
  · have hamount := h.pending
    omega

end Zond
