import Zond.Theory.Solvency
import Zond.Theory.Stake
import Zond.Theory.Step

/-!
# The Transactions of One Account

What the transactions of a block do to the account of a key, transaction by transaction.
A transaction signed by somebody else drifts it. One of its own carries its nonce and raises
it by one; a stake sets the pending stake, and a user transaction of an XMSS address marks
the one-time key it was signed with.

All of this is up to one thing: amounts are converted through `int64`, and an amount of
`2 ^ 63` or more turns negative on the way. A block without such amounts is *moderate*, and
leaves no key's account with a negative amount and all contracts solvent.

## Main definitions

* `Block.Moderate`: No amount of the block is read as negative.
* `Account.Steps`: What one transaction does to an account.
* `Account.Runs`: What a list of transactions does to it.

## Theorems

* `solvent_processUpTo`: A moderate block leaves contracts solvent.
* `runs_processUpTo`: What its transactions do to the account of a key.
-/

namespace Zond

open Outcome StateDB

/-- The fee reward is not read as negative. -/
def ProtocolTransaction.Moderate : ProtocolTransaction → Prop
  | .coinBase tx => tx.feeReward.toNat < 2 ^ 63
  | .attest _ => True
  | .unknown _ => True

/-- Value and gas price are not read as negative; what a stake asks for in all is not, and
    does not wrap either. -/
def Transaction.Moderate : Transaction → Prop
  | .transfer tx => tx.value.toNat < 2 ^ 63 ∧ tx.gasPrice.toNat < 2 ^ 63
  | .stake tx => tx.gas.toNat * tx.gasPrice.toNat + tx.amount.toNat < 2 ^ 63
  | .unknown _ => True

instance : DecidablePred ProtocolTransaction.Moderate
  | .coinBase _ => inferInstanceAs (Decidable (_ < _))
  | .attest _ => inferInstanceAs (Decidable True)
  | .unknown _ => inferInstanceAs (Decidable True)

instance : DecidablePred Transaction.Moderate
  | .transfer _ => inferInstanceAs (Decidable (_ ∧ _))
  | .stake _ => inferInstanceAs (Decidable (_ < _))
  | .unknown _ => inferInstanceAs (Decidable True)

structure Block.Moderate (b : Block) : Prop where
  baseFee : b.header.baseFee.toNat < 2 ^ 63
  protocol : ∀ tx ∈ b.protocolTransactions, tx.Moderate
  user : ∀ tx ∈ b.transactions, tx.Moderate

instance (b : Block) : Decidable b.Moderate :=
  decidable_of_iff (b.header.baseFee.toNat < 2 ^ 63 ∧
      (∀ tx ∈ b.protocolTransactions, tx.Moderate) ∧ ∀ tx ∈ b.transactions, tx.Moderate)
    ⟨fun h => ⟨h.1, h.2.1, h.2.2⟩, fun h => ⟨h.baseFee, h.protocol, h.user⟩⟩

section OneTimeKeys

def markByte (byte : List.Vector UInt8 8) (k : Nat) : List.Vector UInt8 8 :=
  ⟨byte.val.set k 1, (List.length_set ..).trans byte.property⟩

/-- The second field is the first with one more key marked. -/
def OTSMarked (x : Address) (i : Nat) (field field' : List (List.Vector UInt8 8)) : Prop :=
  ∃ byte, (otsField x field)[i / 8]? = some byte ∧
    field' = (otsField x field).set (i / 8) (markByte byte (i % 8))

/-- An XMSS signature comes with a key that the field does not have as used. -/
def TxBase.FreshKey (tx : TxBase) (i : Nat) (field : List (List.Vector UInt8 8)) : Prop :=
  tx.pk.length = Config.xmssExtendedPKSize → isUsedOTSIndex i field = false

/-- What a transaction of its own does to the field of an address. -/
def OTSAfter (c : Crypto) (x : Address) (field field' : List (List.Vector UInt8 8)) :
    AnyTransaction → Prop
  | .inl tx => if c.isValidXMSSAddress x = true
      then ∃ i, tx.base.otsIndex = .ok i ∧ tx.base.FreshKey i field ∧ OTSMarked x i field field'
      else field' = field
  | .inr _ => field' = field

theorem setOTSBitfield_of_ok {s s' : StateDB} {x : Address} {i : Nat}
    (h : s.setOTSBitfield x i = .ok s') : ∃ field, OTSMarked x i (s.account x).otsBitfield field ∧
      s' = s.modify x (fun a => { a with otsBitfield := field }) := by
  unfold StateDB.setOTSBitfield at h
  dsimp only at h
  split at h
  · cases h
  · rename_i byte hbyte
    rw [Except.ok.injEq] at h
    exact ⟨_, ⟨byte, hbyte, rfl⟩, h.symm⟩

theorem freshKey_of_checkOTSIndex {c : Crypto} {tx : Transfer} {x : Address} {s : StateDB} {i : Nat}
    (h : checkOTSIndex c tx x s = .ok ()) (hi : tx.otsIndex = .ok i) :
    tx.FreshKey i (s.account x).otsBitfield := by
  intro hsize
  unfold checkOTSIndex at h
  rw [if_pos hsize, hi, ok_bind, errorIf_eq_ok] at h
  exact Bool.not_eq_true _ ▸ h

theorem markOTSIndex_of_ok {ext : Externals} {tx : TxBase} {st st' : ExecState} {addr : Address}
    (hsender : tx.addrFrom ext.toCrypto = .ok addr) (hcode : st.statedb.getCode addr = [])
    (h : markOTSIndex ext tx st = .ok st') :
    ext.isValidXMSSAddress addr = true ∧ (∃ i field, tx.otsIndex = .ok i ∧
        OTSMarked addr i (st.statedb.account addr).otsBitfield field ∧
        st'.statedb = st.statedb.modify addr (fun a => { a with otsBitfield := field })) ∨
      ext.isValidXMSSAddress addr ≠ true ∧ st'.statedb = st.statedb := by
  have hsize : st.statedb.getCodeSize addr = 0 := by
    unfold StateDB.getCodeSize
    rw [hcode]
    rfl
  unfold markOTSIndex at h
  rw [hsender, ok_bind] at h
  by_cases hxmss : ext.isValidXMSSAddress addr = true
  · rw [if_pos ⟨hsize, hxmss⟩] at h
    rcases bind_eq_ok.1 h with ⟨i, hi, h⟩
    rcases bind_eq_ok.1 h with ⟨s, hset, h⟩
    rw [pure_eq_ok] at h
    rcases setOTSBitfield_of_ok hset with ⟨field, hmarked, hs⟩
    rw [← h]
    exact .inl ⟨hxmss, i, field, hi, hmarked, hs⟩
  · rw [if_neg (fun hboth => hxmss hboth.2), pure_eq_ok] at h
    rw [← h]
    exact .inr ⟨hxmss, rfl⟩

end OneTimeKeys

namespace Account

def pendingAfter (pending : Int) : AnyTransaction → Int
  | .inl (.stake tx) => int64 tx.amount
  | _ => pending

def Small (a : Account) : Prop := a.stakeBalance < 2 ^ 63 ∧ a.pendingStakeBalance < 2 ^ 63

instance (a : Account) : Decidable a.Small := inferInstanceAs (Decidable (_ ∧ _))

/-- What a transaction of its own does to an account, after what finalising may do to it:
    the nonce goes up by one, a stake sets the pending stake, a one-time key is marked, and
    the balance moves but is not overdrawn. -/
def Acts (c : Crypto) (x : Address) (tx : AnyTransaction) (a a' : Account) : Prop :=
  ∃ m : Account, a.Drifts m ∧
    a' = { m with
      nonce := m.nonce + 1
      balance := a'.balance
      pendingStakeBalance := pendingAfter m.pendingStakeBalance tx
      otsBitfield := a'.otsBitfield } ∧
    OTSAfter c x m.otsBitfield a'.otsBitfield tx ∧ (a.Encodable → a'.Encodable)

/-- What one transaction does to an account, whoever signed it. -/
structure Steps (c : Crypto) (x : Address) (tx : AnyTransaction) (a a' : Account) : Prop where
  other : tx.signer c ≠ x → a.Drifts a'
  own : tx.signer c = x → tx.nonce = a.nonce ∧ a.Acts c x tx a'

/-- What a list of transactions does to an account. -/
def Runs (c : Crypto) (x : Address) : List AnyTransaction → Account → Account → Prop
  | [], a, a' => a.Drifts a'
  | tx :: txs, a, a' => ∃ m, Steps c x tx a m ∧ Runs c x txs m a'

section Steps

variable {c : Crypto} {x : Address} {tx : AnyTransaction} {txs : List AnyTransaction}
variable {a m a' : Account}

theorem Acts.nonce (h : a.Acts c x tx a') : a'.nonce = a.nonce + 1 := by
  rcases h with ⟨m, hdrift, hrest, -⟩
  rw [hrest, ← hdrift.nonce]

theorem Acts.code (h : a.Acts c x tx a') : a'.code = a.code := by
  rcases h with ⟨m, hdrift, hrest, -⟩
  rw [hrest, ← hdrift.code]

theorem Acts.encodable (h : a.Acts c x tx a') (ha : a.Encodable) : a'.Encodable := by
  rcases h with ⟨m, -, -, -, hfit⟩
  exact hfit ha

theorem Drifts.small (h : a.Drifts a') (ha : a.Small) : a'.Small := by
  rcases h.rest with hrest | ⟨-, -, hrest⟩
  · rw [hrest]
    exact ha
  · rw [hrest]
    exact (by decide : Account.new.Small)

theorem Acts.small (h : a.Acts c x tx a') (ha : a.Small) : a'.Small := by
  rcases h with ⟨m, hdrift, hrest, -⟩
  have hm := hdrift.small ha
  rw [hrest]
  refine ⟨hm.1, ?_⟩
  show pendingAfter m.pendingStakeBalance tx < 2 ^ 63
  unfold pendingAfter
  split
  · exact int64_lt _
  · exact hm.2

theorem Drifts.acts (h : a.Drifts m) (h' : m.Acts c x tx a') : a.Acts c x tx a' := by
  rcases h' with ⟨m', hdrift, hrest, hfield, hfit⟩
  exact ⟨m', h.trans hdrift, hrest, hfield, fun ha => hfit (h.encodable ha)⟩

theorem Drifts.steps (h : a.Drifts m) (h' : Steps c x tx m a') : Steps c x tx a a' := by
  refine ⟨fun hne => h.trans (h'.other hne), fun hself => ?_⟩
  rcases h'.own hself with ⟨hnonce, hacts⟩
  exact ⟨hnonce.trans h.nonce, h.acts hacts⟩

theorem Steps.code (h : Steps c x tx a a') : a'.code = a.code := by
  by_cases hself : tx.signer c = x
  · exact (h.own hself).2.code
  · exact (h.other hself).code

theorem Steps.encodable (h : Steps c x tx a a') (ha : a.Encodable) : a'.Encodable := by
  by_cases hself : tx.signer c = x
  · exact (h.own hself).2.encodable ha
  · exact (h.other hself).encodable ha

theorem Steps.small (h : Steps c x tx a a') (ha : a.Small) : a'.Small := by
  by_cases hself : tx.signer c = x
  · exact (h.own hself).2.small ha
  · exact (h.other hself).small ha

theorem Steps.stake (h : Steps c x tx a a') (ha : a.nonce ≠ 0) (hlast : tx.nonce + 1 ≠ 0) :
    a'.stakeBalance = a.stakeBalance ∧ a'.nonce ≠ 0 := by
  by_cases hself : tx.signer c = x
  · rcases h.own hself with ⟨hnonce, hacts⟩
    refine ⟨?_, by rw [hacts.nonce, ← hnonce]; exact hlast⟩
    rcases hacts with ⟨m, hdrift, hrest, -⟩
    rw [hrest, hdrift.of_nonce ha]
  · have hdrift := h.other hself
    refine ⟨?_, by rw [hdrift.nonce]; exact ha⟩
    rw [hdrift.of_nonce ha]

theorem Drifts.runs (h : a.Drifts m) (h' : Runs c x txs m a') : Runs c x txs a a' := by
  cases txs with
  | nil => exact h.trans h'
  | cons tx txs =>
    rcases h' with ⟨m', hstep, hrest⟩
    exact ⟨m', h.steps hstep, hrest⟩

theorem Runs.append {txs' : List AnyTransaction} (h : Runs c x txs a m)
    (h' : Runs c x txs' m a') : Runs c x (txs ++ txs') a a' := by
  induction txs generalizing a with
  | nil => exact Drifts.runs h h'
  | cons tx txs ih =>
    rcases h with ⟨m', hstep, hrest⟩
    exact ⟨m', hstep, ih hrest⟩

theorem Runs.code (h : Runs c x txs a a') : a'.code = a.code := by
  induction txs generalizing a with
  | nil => exact Drifts.code h
  | cons tx txs ih =>
    rcases h with ⟨m, hstep, hrest⟩
    exact (ih hrest).trans hstep.code

theorem Runs.encodable (h : Runs c x txs a a') (ha : a.Encodable) : a'.Encodable := by
  induction txs generalizing a with
  | nil => exact Drifts.encodable h ha
  | cons tx txs ih =>
    rcases h with ⟨m, hstep, hrest⟩
    exact ih hrest (hstep.encodable ha)

theorem Runs.small (h : Runs c x txs a a') (ha : a.Small) : a'.Small := by
  induction txs generalizing a with
  | nil => exact Drifts.small h ha
  | cons tx txs ih =>
    rcases h with ⟨m, hstep, hrest⟩
    exact ih hrest (hstep.small ha)

theorem Runs.stake (h : Runs c x txs a a') (ha : a.nonce ≠ 0)
    (hlast : ∀ tx ∈ txs, tx.nonce + 1 ≠ 0) : a'.stakeBalance = a.stakeBalance ∧ a'.nonce ≠ 0 := by
  induction txs generalizing a with
  | nil =>
    refine ⟨?_, by rw [Drifts.nonce h]; exact ha⟩
    rw [Drifts.of_nonce h ha]
  | cons tx txs ih =>
    rcases h with ⟨m, hstep, hrest⟩
    rcases hstep.stake ha (hlast tx List.mem_cons_self) with ⟨hstake, hm⟩
    rcases ih hrest hm (fun t ht => hlast t (List.mem_cons_of_mem _ ht)) with ⟨hrest', ha'⟩
    exact ⟨hrest'.trans hstake, ha'⟩

end Steps

end Account

section Protocol

variable {ext : Externals} {env : ExecEnv} {st st' : ExecState} {x : Address}
variable {credits : List Int}

theorem StateContext.stake_of_processValidatorStakeAmount {c : Crypto} {ctx ctx' : StateContext}
    {pk : PublicKey} {stakeBalance : Int}
    (h : ctx.processValidatorStakeAmount c pk stakeBalance = .ok ctx') :
    int64 Config.stakeAmount ≤ stakeBalance := by
  exact Int.not_lt.1 (errorIf_bind_eq_ok.1 h).1

theorem getStakeBalance_payReward (s : StateDB) (signer : Address) (credits : List Int)
    (charge : Int) (x : Address) :
    (payReward s signer credits charge).getStakeBalance x = s.getStakeBalance x :=
  proj_payReward Account.stakeBalance (fun _ _ => rfl) (fun _ _ => rfl) x

theorem Rewarded.staked {tx : ProtocolTransaction} {i : Nat} (h : Rewarded ext env tx i st st')
    (hslot : st.ctx.slotNumber ≠ 0) : int64 Config.stakeAmount ≤
      st'.statedb.getStakeBalance (ext.getDilithiumAddressFromUnSizedPK tx.pk) := by
  rw [h.state, getStakeBalance_payReward]
  exact StateContext.stake_of_processValidatorStakeAmount
    (StateContext.processAttestorsFlag_of_ok hslot h.flag).2

theorem keeps_credits (s : StateDB) (signer : Address) (hcredits : ∀ v ∈ credits, 0 ≤ v) :
    Keeps x (Account.Pays 0) s
      (credits.foldl (fun s amount => s.addBalance signer amount) s) := by
  induction credits generalizing s with
  | nil => exact keeps_refl x s
  | cons v rest ih =>
    have hfirst := keeps_addBalance_of_nonneg x s signer (fun _ => hcredits v List.mem_cons_self)
    exact hfirst.pays (ih _ (fun w hw => hcredits w (List.mem_cons_of_mem _ hw)))

theorem keeps_payReward_ne (s : StateDB) {signer : Address} (charge : Int)
    (hcredits : ∀ v ∈ credits, 0 ≤ v) (hne : signer ≠ x) (hreserve : Config.coinBaseAddress ≠ x) :
    Keeps x (Account.Pays 0) s (payReward s signer credits charge) := by
  refine (((keeps_credits s signer hcredits).pays (keeps_setNonce_ne _ hne)).pays
    (keeps_subBalance x _ Config.coinBaseAddress charge)).mono (fun h => h.mono ?_)
  rw [cost_ne hreserve]
  omega

theorem keeps_payReward_self (s : StateDB) (charge : Int)
    (hcredits : ∀ v ∈ credits, 0 ≤ v) (hreserve : Config.coinBaseAddress ≠ x) :
    Keeps x (Account.Sends 0) s (payReward s x credits charge) := by
  refine (((keeps_credits s x hcredits).trans (keeps_setNonce_self x _) Account.Pays.sends).trans
    (keeps_subBalance x _ Config.coinBaseAddress charge) Account.Sends.pays).mono
    (fun h => Account.Pays.mono h ?_)
  rw [cost_ne hreserve]
  omega

theorem keeps_opened (x : Address) (s : StateDB) (addr : Address) (h : Hash) (i : Nat) :
    Keeps x Account.Drifts s
      (((s.getOrNewStateObject addr).prepare h i).finalise.getOrNewStateObject addr) := by
  have hbefore := ((keeps_getOrNewStateObject x s addr).pays (keeps_prepare x _ h i)).mono
    Account.Pays.drifts
  exact (hbefore.drifts (keeps_finalise x _)).drifts
    ((keeps_getOrNewStateObject x _ addr).mono Account.Pays.drifts)

theorem credits_nonneg {b : Block} {tx : ProtocolTransaction}
    (hmoderate : tx.Moderate) (hattest : b.attestorReward = Config.attestorReward)
    (hrewards : ∀ t, tx = .coinBase t → t.blockProposerReward = Config.blockReward ∧
      t.attestorReward = Config.attestorReward) : ∀ v ∈ tx.credits b, 0 ≤ v := by
  intro v hv
  cases tx with
  | coinBase t =>
    simp only [ProtocolTransaction.credits, List.mem_cons, List.not_mem_nil, or_false] at hv
    rcases hv with rfl | rfl
    · rw [(hrewards t rfl).1]
      decide
    · exact (int64_nonneg_iff _).2 hmoderate
  | attest t =>
    simp only [ProtocolTransaction.credits, List.mem_cons, List.not_mem_nil, or_false] at hv
    rw [hv, hattest]
    decide
  | unknown t => exact absurd hv List.not_mem_nil

theorem solvent_processProtocolTx {vm : Machine} {txi : ProtocolTransaction × Nat}
    (hvm : vm.Apart) (hmoderate : txi.1.Moderate)
    (hattest : env.block.attestorReward = Config.attestorReward)
    (hs : st.statedb.Solvent vm) (h : processProtocolTx vm env st txi = .ok st') :
    st'.statedb.Solvent vm := by
  have hr := rewarded_of_processProtocolTx h
  have hcredits := credits_nonneg hmoderate hattest hr.rewards
  rw [hr.state]
  refine StateDB.Solvent.subBalance (StateDB.Solvent.setNonce ?_ _ _)
    fun hc => absurd hc hvm.reserve
  refine List.foldlRecOn (motive := fun s : StateDB => s.Solvent vm) _ _ ?_
    fun s hs v hv => hs.addBalance _ fun _ => hcredits v hv
  exact (((hs.getOrNewStateObject _).prepare _ txi.2).finalise).getOrNewStateObject _

theorem steps_processProtocolTx {txi : ProtocolTransaction × Nat}
    (hreserve : Config.coinBaseAddress ≠ x) (hmoderate : txi.1.Moderate)
    (hattest : env.block.attestorReward = Config.attestorReward)
    (h : processProtocolTx ext env st txi = .ok st') :
    Keeps x (Account.Steps ext.toCrypto x (.inr txi.1)) st.statedb st'.statedb := by
  have hr := rewarded_of_processProtocolTx h
  have hcredits := credits_nonneg hmoderate hattest hr.rewards
  have hopened := keeps_opened x st.statedb (ext.getDilithiumAddressFromUnSizedPK txi.1.pk)
    txi.1.base.hash txi.2
  by_cases hself : ext.getDilithiumAddressFromUnSizedPK txi.1.pk = x
  · have hnonce := hr.nonce
    have hstate := hr.state
    rw [hself] at hopened hnonce hstate
    have hpaid := keeps_payReward_self (x := x)
      (((st.statedb.getOrNewStateObject x).prepare txi.1.base.hash
        txi.2).finalise.getOrNewStateObject x) (txi.1.charge env.block) hcredits hreserve
    rw [hstate]
    refine ⟨hpaid.trie.trans hopened.trie, fun hs => hpaid.steady (hopened.steady hs),
      fun hs => ⟨fun hne => absurd hself hne, fun _ => ⟨hnonce, ?_⟩⟩⟩
    have hdrift := hopened.account hs
    have hsends := hpaid.account (hopened.steady hs)
    refine ⟨_, hdrift, ?_, ?_, fun hfit => ?_⟩
    · have hrest := Account.Pays.rest hsends
      rw [hrest]
      rfl
    · have hrest := congrArg Account.otsBitfield (Account.Pays.rest hsends)
      exact hrest
    · have hbalance := Account.Pays.balance hsends
      have hrest := Account.Pays.rest hsends
      have hmid := hdrift.encodable hfit
      rw [hrest]
      exact ⟨by have := hmid.1; dsimp only at hbalance ⊢; omega, hmid.2⟩
  · rw [hr.state]
    have hpaid := (hopened.drifts ((keeps_payReward_ne _ (txi.1.charge env.block) hcredits hself
      hreserve).mono Account.Pays.drifts))
    exact hpaid.mono (fun hd => ⟨fun _ => hd, fun heq => absurd heq hself⟩)

end Protocol

section Stakes

variable {ext : Externals} {env : ExecEnv} {st st' : ExecState} {x : Address}
variable {tx : Stake} {addr : Address} {s : StateDB}

theorem account_moveStake_self (s : StateDB) (x minter : Address) (tx : Stake) :
    (moveStake s x minter tx).account x =
      { s.account x with
        nonce := (s.account x).nonce + 1
        balance := (s.account x).balance - tx.paid + (s.account x).pendingStakeBalance -
          int64 tx.amount + tx.refund + if minter = x then tx.tip else 0
        pendingStakeBalance := int64 tx.amount } := by
  unfold moveStake setNonce setPendingStakeBalance getNonce getPendingStakeBalance
  simp only [account_addBalance, account_subBalance, account_modify, account_getOrNewStateObject,
    if_true]
  by_cases hminter : minter = x
  · rw [if_pos hminter, if_pos hminter, hminter]
    simp only [if_true]
    rfl
  · rw [if_neg hminter, if_neg hminter, add_zero]
    rfl

theorem StateDB.Steady.moveStake (hs : s.Steady x) (signer minter : Address)
    (tx : Stake) : (moveStake s signer minter tx).Steady x := by
  exact ((((((hs.getOrNewStateObject signer).modify signer _).subBalance signer _).addBalance
    signer _).subBalance signer _).modify signer _).addBalance signer _ |>.addBalance minter _

theorem StateDB.Solvent.moveStake {vm : Machine} (hs : s.Solvent vm)
    {signer : Address} (hsigner : ¬vm.Creates signer) (minter : Address)
    (htip : 0 ≤ tx.tip) : (moveStake s signer minter tx).Solvent vm := by
  have hadd {s : StateDB} {v : Int} (hs : s.Solvent vm) : (s.addBalance signer v).Solvent vm :=
    hs.addBalance signer fun hc => absurd hc hsigner
  have hsub {s : StateDB} {v : Int} (hs : s.Solvent vm) : (s.subBalance signer v).Solvent vm :=
    hs.subBalance fun hc => absurd hc hsigner
  unfold Zond.moveStake StateDB.setPendingStakeBalance
  refine StateDB.Solvent.addBalance (hadd ?_) minter fun _ => htip
  refine StateDB.Solvent.modify (hsub (hadd (hsub ?_))) signer (fun _ => rfl) (fun _ => rfl)
  exact (hs.getOrNewStateObject signer).setNonce signer _

theorem trie_moveStake (s : StateDB) (signer minter : Address) (tx : Stake) :
    (moveStake s signer minter tx).trie = s.trie := by
  unfold moveStake
  simp only [trie_addBalance, trie_setPendingStakeBalance, trie_subBalance, trie_setNonce,
    trie_getOrNewStateObject]

theorem keeps_moveStake_ne (s : StateDB) {signer : Address} (minter : Address)
    (hne : signer ≠ x) (htip : minter = x → 0 ≤ tx.tip) :
    Keeps x (Account.Pays 0) s (moveStake s signer minter tx) := by
  refine ⟨trie_moveStake s signer minter tx, fun hs => hs.moveStake signer minter tx, fun _ => ?_⟩
  unfold moveStake setNonce setPendingStakeBalance
  rw [account_addBalance]
  simp only [account_addBalance_ne _ hne, account_subBalance_ne _ hne, account_modify_ne _ hne,
    account_getOrNewStateObject]
  by_cases hminter : minter = x
  · subst hminter
    rw [if_pos rfl, account_addBalance_ne _ hne, account_modify_ne _ hne,
      account_subBalance_ne _ hne, account_addBalance_ne _ hne, account_subBalance_ne _ hne,
      account_modify_ne _ hne, account_getOrNewStateObject]
    have hpaid := htip rfl
    exact ⟨by dsimp only; unfold Stake.tip at hpaid; omega, rfl⟩
  · rw [if_neg hminter]
    exact .refl _

theorem Stake.amounts (h : (Transaction.stake tx).Moderate) (hgas : Config.stakeTxGas ≤ tx.gas) :
    0 ≤ tx.tip ∧ 0 ≤ tx.refund ∧ 0 ≤ int64 tx.amount ∧
      int64 (tx.gas * tx.gasPrice + tx.amount) = tx.paid + int64 tx.amount := by
  have htotal : tx.gas.toNat * tx.gasPrice.toNat + tx.amount.toNat < 2 ^ 63 := h
  have hle : 1000 ≤ tx.gas.toNat := UInt64.le_iff_toNat_le.1 hgas
  have hfee : 1000 * tx.gasPrice.toNat ≤ tx.gas.toNat * tx.gasPrice.toNat :=
    Nat.mul_le_mul_right _ hle
  have hpaid : (tx.gas * tx.gasPrice).toNat = tx.gas.toNat * tx.gasPrice.toNat := by
    rw [UInt64.toNat_mul]
    exact Nat.mod_eq_of_lt (by omega)
  have htip : tx.tip = (1000 * tx.gasPrice.toNat : Nat) :=
    Stake.tip_eq_fee (by unfold Stake.fee; omega)
  have hamount : int64 tx.amount = tx.amount.toNat := int64_of_lt (by omega)
  have hpaid' : tx.paid = (tx.gas.toNat * tx.gasPrice.toNat : Nat) := by
    unfold Stake.paid
    rw [int64_of_lt (by omega), hpaid]
  have hrefund : tx.refund = tx.paid - tx.tip := by
    rw [Stake.refund_eq, if_neg (by omega), if_neg (by omega)]
  refine ⟨by omega, by omega, by omega, ?_⟩
  have hsum : (tx.gas * tx.gasPrice + tx.amount).toNat
      = tx.gas.toNat * tx.gasPrice.toNat + tx.amount.toNat := by
    rw [UInt64.toNat_add, hpaid]
    exact Nat.mod_eq_of_lt (by omega)
  rw [int64_of_lt (by omega), hsum, hpaid', hamount]
  omega

theorem processStake_of_ok {i : Nat} (h : processStake ext env st i tx = .ok st') :
    ∃ addr, StakeAccepted ext.toCrypto tx st.statedb addr ∧
      st'.statedb = moveStake ((st.statedb.prepare tx.hash i).getOrNewStateObject addr).finalise
        addr env.minter tx := by
  unfold processStake at h
  rcases bind_eq_ok.1 h with ⟨s, hvalid, h⟩
  rcases (validateStakeTxn_eq_ok ext.toCrypto).1 hvalid with ⟨addr, haccepted, rfl⟩
  rcases bind_eq_ok.1 h with ⟨⟨gp, usedGas, receipt⟩, -, h⟩
  rw [pure_eq_ok] at h
  subst h
  have haddr : ext.getDilithiumAddressFromUnSizedPK tx.pk = addr := by
    rw [← Crypto.getAddressFromUnSizedPK_of_dilithium _ haccepted.pkSize]
    exact (TxBase.addrFrom_eq_ok.1 haccepted.sender).1
  refine ⟨addr, ?_, ?_⟩
  · exact ⟨haccepted.sender, haccepted.hash, haccepted.nonce, haccepted.amount, haccepted.pkSize,
      haccepted.balance, haccepted.gas, haccepted.validAddr, haccepted.signature⟩
  · dsimp only
    rw [haddr]

theorem getBalance_finalise_of_unmarked (h : s.hasSuicided x = false) :
    s.finalise.getBalance x = s.getBalance x := by
  unfold getBalance
  rcases account_finalise_of_unmarked h with hsame | ⟨hempty, hnew⟩
  · rw [hsame]
  · rw [hnew]
    exact hempty.2.1.symm

theorem markOTSIndex_cases {tx : TxBase}
    (hsender : tx.addrFrom ext.toCrypto = .ok addr) (hok : markOTSIndex ext tx st = .ok st') :
    st'.statedb = st.statedb ∨ ∃ field, st'.statedb =
      st.statedb.modify addr (fun a => { a with otsBitfield := field }) := by
  unfold markOTSIndex at hok
  rw [hsender, ok_bind] at hok
  split at hok
  · rcases bind_eq_ok.1 hok with ⟨i, -, hok⟩
    rcases bind_eq_ok.1 hok with ⟨s, hset, hok⟩
    rw [pure_eq_ok] at hok
    rcases setOTSBitfield_of_ok hset with ⟨field, -, hs⟩
    rw [← hok]
    exact .inr ⟨field, hs⟩
  · rw [pure_eq_ok] at hok
    rw [← hok]
    exact .inl rfl

theorem solvent_markOTSIndex {vm : Machine} {tx : TxBase}
    (hsender : tx.addrFrom vm.toCrypto = .ok addr) (hs : st.statedb.Solvent vm)
    (h : markOTSIndex vm tx st = .ok st') : st'.statedb.Solvent vm := by
  rcases markOTSIndex_cases hsender h with hsame | ⟨field, hmarked⟩
  · exact hsame ▸ hs
  · exact hmarked ▸ hs.modify addr (fun _ => rfl) (fun _ => rfl)

theorem keeps_markOTSIndex_ne {tx : TxBase}
    (hsender : tx.addrFrom ext.toCrypto = .ok addr) (hne : addr ≠ x)
    (h : markOTSIndex ext tx st = .ok st') : Keeps x (Account.Pays 0) st.statedb st'.statedb := by
  rcases markOTSIndex_cases hsender h with hsame | ⟨field, hmarked⟩
  · rw [hsame]
    exact keeps_refl x _
  · rw [hmarked]
    exact keeps_modify_ne x st.statedb (fun a => { a with otsBitfield := field }) hne

theorem keeps_markOTSIndex_self (tx : Transaction)
    (hsender : tx.base.addrFrom ext.toCrypto = .ok x) (hcode : st.statedb.getCode x = [])
    (hfresh : ∀ i, tx.base.otsIndex = .ok i →
      tx.base.FreshKey i (st.statedb.account x).otsBitfield)
    (h : markOTSIndex ext tx.base st = .ok st') :
    Keeps x (fun a a' => a' = { a with otsBitfield := a'.otsBitfield } ∧
      OTSAfter ext.toCrypto x a.otsBitfield a'.otsBitfield (.inl tx)) st.statedb st'.statedb := by
  rcases markOTSIndex_of_ok hsender hcode h with ⟨hxmss, i, field, hi, hmarked, hs⟩ | ⟨hxmss, hs⟩
  · rw [hs]
    refine ⟨trie_modify .., fun hsteady => hsteady.modify x _, fun _ => ?_⟩
    rw [account_modify, if_pos rfl]
    refine ⟨rfl, ?_⟩
    simp only [OTSAfter, if_pos hxmss]
    exact ⟨i, hi, hfresh i hi, hmarked⟩
  · rw [hs]
    refine ⟨rfl, id, fun _ => ?_⟩
    refine ⟨rfl, ?_⟩
    simp only [OTSAfter, if_neg hxmss]

theorem keeps_openedStake (x : Address) (s : StateDB) (addr : Address) (h : Hash) (i : Nat) :
    Keeps x Account.Drifts s ((s.prepare h i).getOrNewStateObject addr).finalise :=
  (((keeps_prepare x s h i).pays (keeps_getOrNewStateObject x _ addr)).mono
    Account.Pays.drifts).drifts (keeps_finalise x _)

theorem keeps_processStake_ne {i : Nat} (hother : ext.getAddressFromUnSizedPK tx.pk ≠ x)
    (htip : env.minter = x → 0 ≤ tx.tip) (h : processTx ext env st (.stake tx, i) = .ok st') :
    Keeps x Account.Drifts st.statedb st'.statedb := by
  simp only [processTx] at h
  rcases bind_eq_ok.1 h with ⟨st₁, hstake, hmark⟩
  rcases processStake_of_ok hstake with ⟨addr, haccepted, hstate⟩
  have hsigner := (TxBase.addrFrom_eq_ok.1 haccepted.sender).1
  have hne : addr ≠ x := hsigner ▸ hother
  have hmarked := keeps_markOTSIndex_ne haccepted.sender hne hmark
  rw [hstate] at hmarked
  have hmoved := keeps_moveStake_ne (x := x)
    ((st.statedb.prepare tx.hash i).getOrNewStateObject addr).finalise env.minter hne htip
  exact (keeps_openedStake x st.statedb addr tx.hash i).drifts
    ((hmoved.pays hmarked).mono (fun h => Account.Pays.drifts h))

theorem steps_processStake {i : Nat} (hs : st.statedb.Steady x)
    (hcode : st.statedb.getCode x = []) (hmoderate : (Transaction.stake tx).Moderate)
    (h : processTx ext env st (.stake tx, i) = .ok st') :
    Keeps x (Account.Steps ext.toCrypto x (.inl (.stake tx))) st.statedb st'.statedb := by
  have hprocessed := h
  simp only [processTx] at h
  rcases bind_eq_ok.1 h with ⟨st₁, hstake, hmark⟩
  rcases processStake_of_ok hstake with ⟨addr, haccepted, hstate⟩
  rcases Stake.amounts hmoderate haccepted.gas with ⟨htip, hrefund, hamount, htotal⟩
  have hsigner := (TxBase.addrFrom_eq_ok.1 haccepted.sender).1
  have hbefore := keeps_openedStake x st.statedb addr tx.hash i
  have hbalance : ((st.statedb.prepare tx.hash i).getOrNewStateObject addr).finalise.getBalance x
      = st.statedb.getBalance x := by
    rw [getBalance_finalise_of_unmarked
      ((hs.prepare tx.hash i).getOrNewStateObject addr).unmarked, getBalance_getOrNewStateObject]
    rfl
  generalize ((st.statedb.prepare tx.hash i).getOrNewStateObject addr).finalise = opened
    at hstate hbefore hbalance
  by_cases hself : addr = x
  · subst hself
    have hmoved : (moveStake opened addr env.minter tx).getCode addr = [] := by
      unfold getCode
      rw [account_moveStake_self]
      exact (hbefore.account hs).code.trans hcode
    have hmarked := keeps_markOTSIndex_self (.stake tx) haccepted.sender (hstate ▸ hmoved)
      (fun i _ hsize => absurd (haccepted.pkSize.symm.trans hsize) (by decide)) hmark
    rw [hstate] at hmarked
    have hsteady := (hbefore.steady hs).moveStake addr env.minter tx
    refine ⟨hmarked.trie.trans ((trie_moveStake ..).trans hbefore.trie),
      fun _ => hmarked.steady hsteady, fun _ => ⟨fun hne => absurd hsigner hne, fun _ => ?_⟩⟩
    have hdrift := hbefore.account hs
    rcases hmarked.account hsteady with ⟨hrest, hfield⟩
    rw [account_moveStake_self] at hrest hfield
    refine ⟨haccepted.nonce, _, hdrift, hrest.trans ?_, hfield, fun hfit => ?_⟩
    · rw [hrest]
      rfl
    · -- The stake was covered by the balance, and the old pending stake comes on top.
      have hmid := hdrift.encodable hfit
      have hcovered := haccepted.balance
      rw [htotal, ← hbalance] at hcovered
      unfold getBalance at hcovered
      rw [hrest]
      have hpending := hmid.2.2
      refine ⟨?_, hmid.2.1, hamount⟩
      dsimp only
      split <;> omega
  · rw [← hsigner] at hself
    exact (keeps_processStake_ne hself (fun _ => htip) hprocessed).mono
      (fun hd => ⟨fun _ => hd, fun heq => absurd heq hself⟩)

end Stakes

section Transfers

variable {ext : Externals} {env : ExecEnv} {st st' : ExecState} {x : Address}

theorem processTransfer_of_ok {i : Nat} {tx : Transfer}
    (h : processTransfer ext env st i tx = .ok st') :
    ∃ addr s₁ gp result, TransferAccepted ext.toCrypto tx (st.statedb.prepare tx.hash i) addr ∧
      transitionDb ext env.blockContext
        { sender := addr, toAddr := tx.toAddr, nonce := tx.nonce, value := int64 tx.value
          gas := tx.gas
          gasPrice := min (int64 tx.gasPrice + env.block.header.bigBaseFee) (int64 tx.gasPrice)
          gasFeeCap := int64 tx.gasPrice, gasTipCap := int64 tx.gasPrice, data := tx.data }
        ((st.statedb.prepare tx.hash i).getOrNewStateObject addr) st.gp = .ok (s₁, gp, result) ∧
      st'.statedb = s₁.finalise := by
  unfold processTransfer at h
  rcases bind_eq_ok.1 h with ⟨s, hvalid, h⟩
  rcases (validateTransferTxn_eq_ok ext.toCrypto).1 hvalid with ⟨addr, haccepted, rfl⟩
  rcases bind_eq_ok.1 h with ⟨msg, hmsg, h⟩
  rcases bind_eq_ok.1 h with ⟨⟨s', gp, usedGas, receipt⟩, happly, h⟩
  rw [pure_eq_ok] at h
  subst h
  unfold transferTxAsMessage at hmsg
  rw [haccepted.sender, ok_bind, pure_eq_ok] at hmsg
  subst hmsg
  rcases applyTransaction_of_ok (wrapApply_eq_ok.1 happly) with ⟨s₁, result, htrans, hs, -⟩
  exact ⟨addr, s₁, _, result, haccepted, htrans, hs⟩

theorem nonce_succ_ne_zero {n : UInt64} (h : ¬n + 1 < n) : n + 1 ≠ 0 := by
  intro hzero
  rw [hzero] at h
  have hn : n = 0 := UInt64.le_antisymm (UInt64.not_lt.1 h) (UInt64.zero_le)
  rw [hn] at hzero
  exact absurd hzero (by decide)

variable {vm : Machine} (hvm : vm.Apart) (hx : ¬vm.Creates x)

/-- The message of a moderate transfer. The base fee does not lower its price. -/
theorem Transfer.plain {tx : Transfer} {addr : Address} {fee : UInt64} (hvm : vm.Apart)
    (hmoderate : (Transaction.transfer tx).Moderate) (hfee : fee.toNat < 2 ^ 63)
    (hsender : tx.addrFrom vm.toCrypto = .ok addr) :
    min (int64 tx.gasPrice + int64 fee) (int64 tx.gasPrice) = int64 tx.gasPrice ∧
    Message.Plain vm
      { sender := addr, toAddr := tx.toAddr, nonce := tx.nonce, value := int64 tx.value
        gas := tx.gas, gasPrice := int64 tx.gasPrice, gasFeeCap := int64 tx.gasPrice
        gasTipCap := int64 tx.gasPrice, data := tx.data } := by
  have hprice : 0 ≤ int64 tx.gasPrice := (int64_nonneg_iff _).2 hmoderate.2
  have hbase : 0 ≤ int64 fee := (int64_nonneg_iff _).2 hfee
  exact ⟨min_eq_right (by omega), hvm.keys addr (Crypto.keyAddress_of_addrFrom hsender),
    (int64_nonneg_iff _).2 hmoderate.1, hprice, le_refl _, le_refl _⟩

include hvm hx

theorem steps_processTransfer {tx : Transfer} {i : Nat} (hsolvent : st.statedb.Solvent vm)
    (hs : st.statedb.Steady x) (hmoderate : (Transaction.transfer tx).Moderate)
    (hbase : env.block.header.baseFee.toNat < 2 ^ 63)
    (h : processTx vm env st (.transfer tx, i) = .ok st') :
    Keeps x (Account.Steps vm.toCrypto x (.inl (.transfer tx))) st.statedb st'.statedb := by
  simp only [processTx] at h
  rcases bind_eq_ok.1 h with ⟨st₁, htransfer, hmark⟩
  rcases processTransfer_of_ok htransfer with ⟨addr, s₁, gp, result, haccepted, htrans, hstate⟩
  have hsigner := (TxBase.addrFrom_eq_ok.1 haccepted.sender).1
  rcases Transfer.plain hvm hmoderate hbase haccepted.sender with ⟨hprice, hplain⟩
  unfold Header.bigBaseFee at htrans
  rw [hprice] at htrans
  have hcode := hsolvent.code hx
  have hbefore := (keeps_prepare x st.statedb tx.hash i).pays (keeps_getOrNewStateObject x _ addr)
  have hlast := nonce_of_transitionDb htrans
  rcases transitionDb_of_ok htrans with ⟨-, -, -, hchecked, -, -⟩
  have hfunds := hchecked.funds
  have hkept := keeps_transitionDb hplain hx ((hsolvent.prepare tx.hash i).getOrNewStateObject addr)
    (hbefore.steady hs) htrans
  by_cases hself : addr = x
  · subst hself
    have hsent := hbefore.trans (hkept.2 rfl) Account.Pays.sends
    -- The raised nonce keeps the account from being deleted.
    have hraised : (s₁.account addr).nonce ≠ 0 := by
      unfold getNonce at hlast
      rw [account_getOrNewStateObject, account_prepare] at hlast
      rw [congrArg Account.nonce (Account.Pays.rest (hsent.account hs))]
      exact nonce_succ_ne_zero hlast
    have hended : Keeps addr (Account.Pays 0) s₁ s₁.finalise :=
      ⟨trie_finalise s₁, Steady.finalise, fun hs₁ =>
        have hdrift := (keeps_finalise addr s₁).account hs₁
        ⟨by have := hdrift.balance; omega, hdrift.of_nonce hraised⟩⟩
    have hdone := hsent.trans hended Account.Sends.pays
    have hsends := hdone.account hs
    have hrest := Account.Pays.rest hsends
    have hlow := Account.Pays.balance hsends
    have hfresh : ∀ i, tx.otsIndex = .ok i →
        tx.FreshKey i (st₁.statedb.account addr).otsBitfield := by
      intro i hi
      have hchecked := freshKey_of_checkOTSIndex haccepted.ots hi
      rw [account_getOrNewStateObject, account_prepare] at hchecked
      rw [hstate, congrArg Account.otsBitfield hrest]
      exact hchecked
    have hmarked := keeps_markOTSIndex_self (.transfer tx) haccepted.sender
      (hstate ▸ (congrArg Account.code hrest).trans hcode) hfresh hmark
    rw [hstate] at hmarked
    refine ⟨hmarked.trie.trans hdone.trie, fun _ => hmarked.steady (hdone.steady hs),
      fun _ => ⟨fun hne => absurd hsigner hne, fun _ => ⟨haccepted.nonce, ?_⟩⟩⟩
    rcases hmarked.account (hdone.steady hs) with ⟨hfinal, hfield⟩
    rw [hrest] at hfinal hfield
    refine ⟨_, .refl _, hfinal.trans ?_, hfield, fun hfit => ?_⟩
    · rw [hfinal]
      rfl
    · rw [hfinal]
      refine ⟨?_, hfit.2⟩
      unfold getBalance at hfunds
      rw [account_getOrNewStateObject, account_prepare] at hfunds
      dsimp only at hlow hfunds ⊢
      omega
  · have hmarked := keeps_markOTSIndex_ne haccepted.sender hself hmark
    rw [hstate] at hmarked
    refine ((((hbefore.pays (hkept.1 hself)).mono Account.Pays.drifts).drifts
      (keeps_finalise x s₁)).drifts (hmarked.mono Account.Pays.drifts)).mono ?_
    exact fun hdrift => ⟨fun _ => hdrift, fun heq => absurd (hsigner.symm.trans heq) hself⟩

theorem steps_processTx {txi : Transaction × Nat} (hsolvent : st.statedb.Solvent vm)
    (hs : st.statedb.Steady x) (hmoderate : txi.1.Moderate)
    (hbase : env.block.header.baseFee.toNat < 2 ^ 63) (h : processTx vm env st txi = .ok st') :
    Keeps x (Account.Steps vm.toCrypto x (.inl txi.1)) st.statedb st'.statedb := by
  rcases txi with ⟨tx, i⟩
  cases tx with
  | stake tx => exact steps_processStake hs (hsolvent.code hx) hmoderate h
  | transfer tx => exact steps_processTransfer hvm hx hsolvent hs hmoderate hbase h
  | unknown base => cases h

omit hx in
theorem solvent_processTx {txi : Transaction × Nat} (hsolvent : st.statedb.Solvent vm)
    (hmoderate : txi.1.Moderate) (hbase : env.block.header.baseFee.toNat < 2 ^ 63)
    (h : processTx vm env st txi = .ok st') : st'.statedb.Solvent vm := by
  rcases txi with ⟨tx, i⟩
  cases tx with
  | stake tx =>
    rcases bind_eq_ok.1 h with ⟨st₁, hstake, hmark⟩
    rcases processStake_of_ok hstake with ⟨addr, haccepted, hstate⟩
    refine solvent_markOTSIndex haccepted.sender ?_ hmark
    rw [hstate]
    exact ((hsolvent.prepare tx.hash i).getOrNewStateObject addr).finalise.moveStake
      (hvm.keys addr (Crypto.keyAddress_of_addrFrom haccepted.sender)) env.minter
      (Stake.amounts hmoderate haccepted.gas).1
  | transfer tx =>
    rcases bind_eq_ok.1 h with ⟨st₁, htransfer, hmark⟩
    rcases processTransfer_of_ok htransfer with ⟨addr, s₁, gp, result, haccepted, htrans, hstate⟩
    rcases Transfer.plain hvm hmoderate hbase haccepted.sender with ⟨hprice, hplain⟩
    unfold Header.bigBaseFee at htrans
    rw [hprice] at htrans
    refine solvent_markOTSIndex haccepted.sender ?_ hmark
    rw [hstate]
    exact (solvent_transitionDb hplain ((hsolvent.prepare tx.hash i).getOrNewStateObject addr)
      htrans).finalise
  | unknown base => cases h

end Transfers

section Blocks

variable {ext : Externals} {vm : Machine} {env : ExecEnv} {st st' : ExecState} {x : Address}

theorem map_zipIdx_fst {α β : Type} (f : α → β) (l : List α) :
    l.zipIdx.map (fun t => f t.1) = l.map f := by
  have hcomp : (fun t : α × Nat => f t.1) = f ∘ Prod.fst := rfl
  rw [hcomp, ← List.map_map, List.zipIdx_map_fst]

theorem runs_foldlM {α : Type} {f : ExecState → α → Go ExecState} (g : α → AnyTransaction)
    (l : List α) (hstep : ∀ t ∈ l, ∀ st st', f st t = .ok st' → st.statedb.Steady x →
      st.statedb.Solvent vm →
      Keeps x (Account.Steps vm.toCrypto x (g t)) st.statedb st'.statedb ∧ st'.statedb.Solvent vm)
    (hs : st.statedb.Steady x) (hsolvent : st.statedb.Solvent vm) (h : l.foldlM f st = .ok st') :
    Keeps x (Account.Runs vm.toCrypto x (l.map g)) st.statedb st'.statedb := by
  induction l generalizing st with
  | nil =>
    rw [List.foldlM_nil, pure_eq_ok] at h
    rw [h]
    exact (keeps_refl x _).mono (fun hp => hp.drifts)
  | cons t rest ih =>
    rw [List.foldlM_cons] at h
    rcases bind_eq_ok.1 h with ⟨mid, hfirst, h⟩
    rcases hstep t List.mem_cons_self st mid hfirst hs hsolvent with ⟨hone, hmid⟩
    have hrest := ih (fun u hu => hstep u (List.mem_cons_of_mem _ hu)) (hone.steady hs) hmid h
    exact hone.trans hrest (fun hfirst hlater => ⟨_, hfirst, hlater⟩)

theorem attestorReward_of_ok (h : processTransactions ext env st = .ok st') :
    env.block.attestorReward = Config.attestorReward := by
  rcases processTransactions_of_ok h with ⟨tx, rest, mid, hlist, hprotocol, -⟩
  rw [hlist, List.zipIdx_cons, List.foldlM_cons] at hprotocol
  rcases bind_eq_ok.1 hprotocol with ⟨st₁, hfirst, -⟩
  have hr := rewarded_of_processProtocolTx hfirst
  unfold Block.attestorReward
  rw [hlist]
  exact (hr.rewards tx rfl).2

/-- The two loops, stopped after some of the user transactions. -/
def processUpTo (ext : Externals) (env : ExecEnv) (st : ExecState) (n : Nat) : Go ExecState := do
  let st ← env.block.protocolTransactions.zipIdx.foldlM (processProtocolTx ext env) st
  (env.block.transactions.zipIdx.take n).foldlM (processTx ext env) st

def Block.transactionsUpTo (b : Block) (n : Nat) : List AnyTransaction :=
  b.protocolTransactions.map .inr ++ (b.transactions.take n).map .inl

theorem Block.transactionsUpTo_length (b : Block) :
    b.transactionsUpTo b.transactions.length = b.allTransactions := by
  unfold Block.transactionsUpTo Block.allTransactions
  rw [List.take_length]

theorem processUpTo_length (h : processTransactions ext env st = .ok st') :
    processUpTo ext env st env.block.transactions.length = .ok st' := by
  rcases processTransactions_of_ok h with ⟨-, -, mid, -, hprotocol, huser⟩
  unfold processUpTo
  rw [hprotocol, ok_bind, List.take_of_length_le (le_of_eq List.length_zipIdx)]
  exact huser

variable (hvm : vm.Apart) (hx : ¬vm.Creates x) (hreserve : Config.coinBaseAddress ≠ x)
variable (hmoderate : env.block.Moderate)
include hvm hmoderate

theorem solvent_protocol {l : List (ProtocolTransaction × Nat)}
    (hmem : ∀ txi ∈ l, txi.1 ∈ env.block.protocolTransactions)
    (hattest : env.block.attestorReward = Config.attestorReward) (hs : st.statedb.Solvent vm)
    (h : l.foldlM (processProtocolTx vm env) st = .ok st') : st'.statedb.Solvent vm :=
  foldlM_invariant (fun st => st.statedb.Solvent vm) _ (fun _ txi _ htxi hs hok =>
    solvent_processProtocolTx hvm (hmoderate.protocol _ (hmem txi htxi)) hattest hs hok) hs h

theorem solvent_processUpTo {n : Nat}
    (hattest : env.block.attestorReward = Config.attestorReward) (hs : st.statedb.Solvent vm)
    (h : processUpTo vm env st n = .ok st') : st'.statedb.Solvent vm := by
  rcases bind_eq_ok.1 h with ⟨mid, hprotocol, huser⟩
  have hmid := solvent_protocol hvm hmoderate (fun _ hmem => List.fst_mem_of_mem_zipIdx hmem)
    hattest hs hprotocol
  refine foldlM_invariant (fun st => st.statedb.Solvent vm) _ ?_ hmid huser
  intro st txi st' hmem hst hstep
  exact solvent_processTx hvm hst
    (hmoderate.user _ (List.fst_mem_of_mem_zipIdx (List.mem_of_mem_take hmem)))
    hmoderate.baseFee hstep

include hx hreserve

theorem runs_processUpTo {n : Nat} (hattest : env.block.attestorReward = Config.attestorReward)
    (hs : st.statedb.Steady x) (hsolvent : st.statedb.Solvent vm)
    (h : processUpTo vm env st n = .ok st') :
    Keeps x (Account.Runs vm.toCrypto x (env.block.transactionsUpTo n)) st.statedb
      st'.statedb := by
  rcases bind_eq_ok.1 h with ⟨mid, hprotocol, huser⟩
  have hfirst := @runs_foldlM vm st mid x _ _ (fun txi => .inr txi.1) _
    (fun txi hmem _ _ hok _ hsolvent =>
      have htxi := hmoderate.protocol _ (List.fst_mem_of_mem_zipIdx hmem)
      ⟨steps_processProtocolTx hreserve htxi hattest hok,
        solvent_processProtocolTx hvm htxi hattest hsolvent hok⟩) hs hsolvent hprotocol
  have hsecond := @runs_foldlM vm mid st' x _ _ (fun txi => .inl txi.1) _
    (fun txi hmem _ _ hok hs hsolvent =>
      have htxi := hmoderate.user _ (List.fst_mem_of_mem_zipIdx (List.mem_of_mem_take hmem))
      ⟨steps_processTx hvm hx hsolvent hs htxi hmoderate.baseFee hok,
        solvent_processTx hvm hsolvent htxi hmoderate.baseFee hok⟩)
    (hfirst.steady hs) (solvent_protocol hvm hmoderate
      (fun _ hmem => List.fst_mem_of_mem_zipIdx hmem) hattest hsolvent hprotocol) huser
  have hboth := hfirst.trans hsecond Account.Runs.append
  rwa [map_zipIdx_fst, List.map_take, map_zipIdx_fst, ← List.map_take] at hboth

theorem runs_processTransactions (hs : st.statedb.Steady x) (hsolvent : st.statedb.Solvent vm)
    (h : processTransactions vm env st = .ok st') :
    Keeps x (Account.Runs vm.toCrypto x env.block.allTransactions) st.statedb st'.statedb := by
  rw [← Block.transactionsUpTo_length]
  exact runs_processUpTo hvm hx hreserve hmoderate (attestorReward_of_ok h) hs hsolvent
    (processUpTo_length h)

end Blocks

end Zond
