import Zond.Theory.Frames
import Zond.Theory.OneTimeKeys
import Zond.Theory.Reserve

/-!
# Stakes and Contract Code

Creating an account over another, deleting an empty account and destroying a contract all
drop what is staked, what is pending and which one-time keys are used, and an account counts
as empty whatever it has staked. What protects an account is that one with a stake or a used
key has a nonce and no code: it is not empty, no contract is created over it and no frame runs
for it. Transfers check that no nonce wraps to zero; stakes, coinbases and attestations do not.

## Main definitions

* `Guarded`: What a state keeps of an address.

## Theorems

* `stake_out_of_reach`: Contract code does not reach a stake.
-/

namespace Zond

open Outcome StateDB

variable {addr x : Address} {c : Crypto} {tx : Transfer} {i : Nat} {e : EpochMetaData} {b : Block}
variable {st : ExecState}

namespace Account

/-- The stake, the pending stake and the used one-time keys. -/
def holding (a : Account) : Int × Int × List (List.Vector UInt8 8) :=
  (a.stakeBalance, a.pendingStakeBalance, a.otsBitfield)

def Bare (a : Account) : Prop := a.holding = Account.new.holding

/-- The account has no code, and if it holds anything, it has a nonce. -/
def Safe (a : Account) : Prop := a.code = [] ∧ (a.nonce = 0 → a.Bare)

def Same (a a' : Account) : Prop := a' = { a with balance := a'.balance }

section

variable {a m a' : Account}

theorem new_bare : Account.new.Bare := rfl

theorem new_safe : Account.new.Safe := ⟨rfl, fun _ => rfl⟩

theorem Same.refl (a : Account) : a.Same a := rfl

theorem Same.trans (h : a.Same m) (h' : m.Same a') : a.Same a' := by
  unfold Same at *
  rw [h] at h'
  exact h'

theorem Same.code (h : a.Same a') : a'.code = a.code := by rw [h]

theorem Same.nonce (h : a.Same a') : a'.nonce = a.nonce := by rw [h]

theorem Same.holding (h : a.Same a') : a'.holding = a.holding := by
  rw [h]
  rfl

theorem Same.safe (h : a.Same a') (ha : a.Safe) : a'.Safe := by
  refine ⟨h.code.trans ha.1, fun hzero => ?_⟩
  exact h.holding.trans (ha.2 (h.nonce ▸ hzero))

theorem Drifts.holding (h : a.Drifts a') (ha : a.Safe) : a'.holding = a.holding := by
  rcases h.rest with hrest | ⟨hzero, -, hrest⟩
  · rw [hrest]
    rfl
  · rw [hrest]
    exact (ha.2 hzero).symm

theorem Drifts.safe (h : a.Drifts a') (ha : a.Safe) : a'.Safe := by
  refine ⟨h.code.trans ha.1, fun hzero => ?_⟩
  exact (h.holding ha).trans (ha.2 (h.nonce ▸ hzero))

theorem safe_of_nonce (hcode : a.code = []) (hnonce : a.nonce ≠ 0) : a.Safe :=
  ⟨hcode, fun hzero => absurd hzero hnonce⟩

end

end Account

section Writes

variable {x : Address} {s : StateDB}

theorem holding_setNonce (s : StateDB) (addr : Address) (n : UInt64) :
    ((s.setNonce addr n).account x).holding = (s.account x).holding :=
  proj_modify Account.holding s addr (fun a => { a with nonce := n }) (fun _ => rfl) x

theorem holding_setCode (s : StateDB) (addr : Address) (code : List UInt8) :
    ((s.setCode addr code).account x).holding = (s.account x).holding :=
  proj_modify Account.holding s addr (fun a => { a with code := code }) (fun _ => rfl) x

theorem getNonce_setNonce_self (s : StateDB) (addr : Address) (n : UInt64) :
    (s.setNonce addr n).getNonce addr = n := by
  unfold StateDB.setNonce StateDB.getNonce
  rw [account_modify, if_pos rfl]

theorem nonce_finalise_succ_ne_zero (h : s.getNonce addr + 1 ≠ 0) :
    s.finalise.getNonce addr + 1 ≠ 0 := by
  unfold StateDB.getNonce at h ⊢
  rcases account_finalise_cases s addr with ⟨-, hx⟩ | ⟨-, hx⟩
  · rw [hx]
    decide
  · rw [hx]
    exact h

theorem holding_setState (addr : Address) (key value : Hash) :
    ((s.setState addr key value).account x).holding = (s.account x).holding := by
  rcases account_setState s addr key value x with ⟨storage, hset⟩
  rw [hset]
  split
  · rename_i hx
    rw [hx]
    rfl
  · rfl

theorem holding_suicide (addr : Address) :
    ((s.suicide addr).account x).holding = (s.account x).holding := by
  rw [account_suicide]
  split
  · rename_i hx
    rw [hx]
    rfl
  · rfl

theorem same_addBalance (addr : Address) (v : Int) :
    (s.account x).Same ((s.addBalance addr v).account x) := by
  rw [account_addBalance]
  by_cases hx : addr = x
  · rw [if_pos hx, hx]
    rfl
  · rw [if_neg hx]
    exact .refl _

theorem same_subBalance (addr : Address) (v : Int) :
    (s.account x).Same ((s.subBalance addr v).account x) := by
  rw [account_subBalance]
  by_cases hx : addr = x
  · rw [if_pos hx, hx]
    rfl
  · rw [if_neg hx]
    exact .refl _

theorem bare_createAccount (addr : Address) (h : (s.account x).Bare) :
    ((s.createAccount addr).account x).Bare := by
  rw [account_createAccount]
  by_cases hx : addr = x
  · rw [if_pos hx]
    rfl
  · rw [if_neg hx]
    exact h

theorem bare_finalise (h : (s.account x).Bare) : (s.finalise.account x).Bare := by
  rcases account_finalise_cases s x with ⟨-, hx⟩ | ⟨-, hx⟩
  · rw [hx]
    exact Account.new_bare
  · rw [hx]
    exact h

end Writes

theorem bare_invariant (vm : Machine) (x : Address) :
    vm.Invariant False (fun _ => True) (fun s => (s.account x).Bare) where
  congr := by
    intro s s' hs hobj htrie _ _
    rw [account_congr (congrArg (·.get x) hobj) htrie]
    exact hs
  addBalance addr _ hs := (same_addBalance addr _).holding.trans hs
  subBalance _ hs := (same_subBalance _ _).holding.trans hs
  worth h := h.elim
  raise _ hs := (holding_setNonce ..).trans hs
  appear _ hs := bare_createAccount _ hs
  found := by
    intro s addr _ _ _ hs
    refine ⟨trivial, ?_⟩
    exact (holding_setNonce _ addr 1).trans (bare_createAccount addr hs)
  setState key value _ hs := (holding_setState _ key value).trans hs
  setCode code _ hs := (holding_setCode _ _ code).trans hs
  suicide _ hs := (holding_suicide _).trans hs
  revert _ hs := hs
  host _ _ := trivial

theorem trie_invariant (vm : Machine) (trie : AssocMap Address Account) :
    vm.Invariant False (fun _ => True) (fun s => s.trie = trie) where
  congr hs _ htrie _ _ := htrie.trans hs
  addBalance addr _ hs := (trie_addBalance _ addr _).trans hs
  subBalance _ hs := (trie_subBalance ..).trans hs
  worth h := h.elim
  raise _ hs := (trie_setNonce ..).trans hs
  appear _ hs := (trie_createAccount ..).trans hs
  found _ _ _ hs := ⟨trivial, (trie_setNonce ..).trans ((trie_createAccount ..).trans hs)⟩
  setState key value _ hs := (trie_setState _ _ key value).trans hs
  setCode _ _ hs := (trie_modify ..).trans hs
  suicide _ hs := (trie_suicide ..).trans hs
  revert _ hs := hs
  host _ _ := trivial

/-- An account without code, at which no contract can be created, keeps everything but its
    balance in any run of the virtual machine. -/
theorem same_invariant (vm : Machine) {a : Account} (hcode : a.code = [])
    (hfree : a.nonce ≠ 0 ∨ ¬vm.Creates x) :
    vm.Invariant False (fun addr => addr ≠ x) (fun s => s.Steady x ∧ a.Same (s.account x)) where
  congr := by
    rintro s s' ⟨hs, hsame⟩ hobj htrie hdirty hpending
    have hget : s'.stateObjects.get x = s.stateObjects.get x := congrArg (·.get x) hobj
    refine ⟨hs.congr hget htrie (fun h => hdirty ▸ h) (fun h => hpending ▸ h), ?_⟩
    rw [account_congr hget htrie]
    exact hsame
  addBalance addr _ hs := ⟨hs.1.addBalance addr _, hs.2.trans (same_addBalance addr _)⟩
  subBalance _ hs := ⟨hs.1.subBalance _ _, hs.2.trans (same_subBalance _ _)⟩
  worth h := h.elim
  raise := by
    rintro s addr hne ⟨hs, hsame⟩
    refine ⟨hs.modify addr _, ?_⟩
    unfold StateDB.setNonce
    rw [account_modify, if_neg hne]
    exact hsame
  appear := by
    rintro s addr hnone ⟨hs, hsame⟩
    refine ⟨hs.createAccount addr (fun hx => hx ▸ hnone), ?_⟩
    rw [account_createAccount]
    by_cases hx : addr = x
    · subst hx
      rw [if_pos rfl, account_of_not_exist hnone]
      rw [account_of_not_exist hnone] at hsame
      exact hsame
    · rw [if_neg hx]
      exact hsame
  found := by
    rintro s addr hcreates hnonce - ⟨hs, hsame⟩
    have hne : addr ≠ x := by
      rintro rfl
      rcases hfree with hzero | hnot
      · exact hzero (hsame.nonce.symm.trans hnonce)
      · exact hnot hcreates
    refine ⟨hne, (hs.createAccount addr (fun hx => absurd hx hne)).modify addr _, ?_⟩
    unfold StateDB.setNonce
    rw [account_modify, if_neg hne, account_createAccount, if_neg hne]
    exact hsame
  setState := by
    rintro s addr key value hne ⟨hs, hsame⟩
    refine ⟨hs.setState addr key value, ?_⟩
    rcases account_setState s addr key value x with ⟨storage, hset⟩
    rw [hset, if_neg hne]
    exact hsame
  setCode := by
    rintro s addr code hne ⟨hs, hsame⟩
    refine ⟨hs.modify addr _, ?_⟩
    unfold StateDB.setCode
    rw [account_modify, if_neg hne]
    exact hsame
  suicide := by
    rintro s addr hne ⟨hs, hsame⟩
    refine ⟨hs.suicide hne, ?_⟩
    rw [account_suicide, if_neg hne]
    exact hsame
  revert s hs := ⟨hs.1.revertToSnapshot s, hs.2⟩
  host := by
    rintro s addr hhas ⟨-, hsame⟩ rfl
    exact hhas (hsame.code.trans hcode)

/-- The account of a key is safe; any other holds nothing. -/
structure Account.Proper (c : Crypto) (x : Address) (a : Account) : Prop where
  key : c.KeyAddress x → a.Safe
  other : ¬c.KeyAddress x → a.Bare

theorem Account.proper_new (c : Crypto) (x : Address) : Account.new.Proper c x :=
  ⟨fun _ => Account.new_safe, fun _ => Account.new_bare⟩

/-- What a state keeps of an address, and of what is stored for it. -/
structure Guarded (c : Crypto) (x : Address) (s : StateDB) : Prop where
  key : c.KeyAddress x → s.Steady x ∧ (s.account x).Safe
  other : ¬c.KeyAddress x → (s.account x).Bare
  stored : ((StateDB.new s.trie).account x).Proper c x

theorem Guarded.proper {s : StateDB} (h : Guarded c x s) : (s.account x).Proper c x :=
  ⟨fun hkey => (h.key hkey).2, h.other⟩

theorem guarded_new {trie : AssocMap Address Account}
    (h : ((StateDB.new trie).account x).Proper c x) : Guarded c x (StateDB.new trie) :=
  ⟨fun hkey => ⟨steady_new trie x, h.key hkey⟩, h.other, h⟩

/-- No nonce in the block wraps, those of transfers apart, which are checked. -/
structure Block.Counted (b : Block) : Prop where
  protocol : ∀ tx ∈ b.protocolTransactions, tx.base.nonce + 1 ≠ 0
  stake : ∀ tx : Stake, .stake tx ∈ b.transactions → tx.nonce + 1 ≠ 0

section Steps

variable {c : Crypto} {x : Address} {s s' : StateDB}

theorem Guarded.of_same (h : Guarded c x s) (htrie : s'.trie = s.trie)
    (hsteady : s.Steady x → s'.Steady x) (hsame : (s.account x).Same (s'.account x)) :
    Guarded c x s' :=
  ⟨fun hkey => ⟨hsteady (h.key hkey).1, hsame.safe (h.key hkey).2⟩,
    fun hother => hsame.holding.trans (h.other hother), htrie ▸ h.stored⟩

theorem Guarded.finalise (h : Guarded c x s) : Guarded c x s.finalise := by
  refine ⟨fun hkey => ?_, fun hother => bare_finalise (h.other hother),
    (trie_finalise s).symm ▸ h.stored⟩
  rcases h.key hkey with ⟨hsteady, hsafe⟩
  have hkept := keeps_finalise x s
  exact ⟨hkept.steady hsteady, (hkept.account hsteady).safe hsafe⟩

theorem Guarded.prepare (h : Guarded c x s) (thash : Hash) (i : Nat) :
    Guarded c x (s.prepare thash i) :=
  h.of_same rfl (fun hs => hs.prepare thash i) (.refl _)

theorem Guarded.getOrNewStateObject (h : Guarded c x s) (addr : Address) :
    Guarded c x (s.getOrNewStateObject addr) := by
  refine h.of_same (trie_getOrNewStateObject s addr) (fun hs => hs.getOrNewStateObject addr) ?_
  rw [account_getOrNewStateObject]
  exact .refl _

theorem Guarded.addBalance (h : Guarded c x s) (addr : Address) (v : Int) :
    Guarded c x (s.addBalance addr v) :=
  h.of_same (trie_addBalance s addr v) (fun hs => hs.addBalance addr v) (same_addBalance addr v)

theorem Guarded.subBalance (h : Guarded c x s) (addr : Address) (v : Int) :
    Guarded c x (s.subBalance addr v) :=
  h.of_same (trie_subBalance s addr v) (fun hs => hs.subBalance addr v) (same_subBalance addr v)

theorem Guarded.raise (h : Guarded c x s) (hlast : s.getNonce addr + 1 ≠ 0) :
    Guarded c x (s.setNonce addr (s.getNonce addr + 1)) := by
  refine ⟨fun hkey => ?_, fun hother => (holding_setNonce s addr _).trans (h.other hother),
    (trie_setNonce s addr _).symm ▸ h.stored⟩
  rcases h.key hkey with ⟨hsteady, hsafe⟩
  refine ⟨hsteady.modify addr _, ?_⟩
  unfold StateDB.setNonce
  rw [account_modify]
  by_cases hx : addr = x
  · subst hx
    rw [if_pos rfl]
    exact Account.safe_of_nonce hsafe.1 hlast
  · rw [if_neg hx]
    exact hsafe

theorem Guarded.hold (h : Guarded c x s) (hkey : c.KeyAddress addr)
    (hnonce : addr = x → s.getNonce addr ≠ 0) (f : Account → Account)
    (hf : ∀ a, (f a).nonce = a.nonce ∧ (f a).code = a.code) : Guarded c x (s.modify addr f) := by
  by_cases hx : addr = x
  · subst hx
    refine ⟨fun _ => ?_, fun hother => absurd hkey hother, (trie_modify s addr f).symm ▸ h.stored⟩
    rcases h.key hkey with ⟨hsteady, hsafe⟩
    refine ⟨hsteady.modify addr f, ?_⟩
    rw [account_modify, if_pos rfl]
    refine Account.safe_of_nonce ((hf _).2.trans hsafe.1) ?_
    rw [(hf _).1]
    exact hnonce rfl
  · refine h.of_same (trie_modify s addr f) (fun hs => hs.modify addr f) ?_
    rw [account_modify, if_neg hx]
    exact .refl _

theorem Guarded.prepareAccessList (h : Guarded c x s) (sender : Address) (dst : Option Address)
    (pre : List Address) : Guarded c x (s.prepareAccessList sender dst pre) :=
  h.of_same rfl (fun hs => hs.prepareAccessList sender dst pre) (.refl _)

theorem Guarded.credits (h : Guarded c x s) (signer : Address) (credits : List Int) :
    Guarded c x (credits.foldl (fun s amount => s.addBalance signer amount) s) := by
  induction credits generalizing s with
  | nil => exact h
  | cons amount rest ih => exact ih (h.addBalance signer amount)

theorem Guarded.payReward (h : Guarded c x s) {signer : Address}
    (hlast : s.getNonce signer + 1 ≠ 0) (credits : List Int) (charge : Int) :
    Guarded c x (payReward s signer credits charge) := by
  refine Guarded.subBalance ((h.credits signer credits).raise ?_) _ _
  have hnonce : ((credits.foldl (fun s amount => s.addBalance signer amount) s).account
      signer).nonce = (s.account signer).nonce :=
    proj_credits Account.nonce (fun _ _ => rfl) signer
  unfold StateDB.getNonce at hlast ⊢
  rw [hnonce]
  exact hlast

theorem Guarded.moveStake (h : Guarded c x s) {signer : Address} (hkey : c.KeyAddress signer)
    (hlast : s.getNonce signer + 1 ≠ 0) (minter : Address) (tx : Stake) :
    Guarded c x (moveStake s signer minter tx) := by
  have hopened : (s.getOrNewStateObject signer).getNonce signer = s.getNonce signer :=
    congrArg Account.nonce (account_getOrNewStateObject s signer signer)
  have hraised := (h.getOrNewStateObject signer).raise (hopened.symm ▸ hlast)
  have hnonce := getNonce_setNonce_self (s.getOrNewStateObject signer) signer
    ((s.getOrNewStateObject signer).getNonce signer + 1)
  rw [hopened] at hraised hnonce
  unfold Zond.moveStake
  dsimp only
  rw [hopened]
  generalize (s.getOrNewStateObject signer).setNonce signer (s.getNonce signer + 1) = raised
    at hraised hnonce
  -- The payments in between leave the nonce as it is.
  have hpaid (v w : Int) : Guarded c x (((raised.subBalance signer (int64 (tx.gas *
      tx.gasPrice))).addBalance signer v).subBalance signer w) :=
    ((hraised.subBalance signer _).addBalance signer v).subBalance signer w
  refine Guarded.addBalance (Guarded.addBalance ((hpaid _ _).hold hkey (fun _ => ?_)
    (fun a => { a with pendingStakeBalance := int64 tx.amount }) (fun _ => ⟨rfl, rfl⟩)) _ _) _ _
  unfold StateDB.getNonce at hnonce ⊢
  rw [proj_subBalance Account.nonce _ _ _ (fun _ _ => rfl),
    proj_addBalance Account.nonce _ _ _ (fun _ _ => rfl),
    proj_subBalance Account.nonce _ _ _ (fun _ _ => rfl), hnonce]
  exact hlast

end Steps

section Loops

variable {ext : Externals} {x : Address} {env : ExecEnv} {st st' : ExecState}

theorem guarded_processProtocolTx {txi : ProtocolTransaction × Nat}
    (h : Guarded ext.toCrypto x st.statedb) (hlast : txi.1.base.nonce + 1 ≠ 0)
    (hok : processProtocolTx ext env st txi = .ok st') : Guarded ext.toCrypto x st'.statedb := by
  have hr := rewarded_of_processProtocolTx hok
  rw [hr.state]
  have hopened := (((h.getOrNewStateObject (ext.getDilithiumAddressFromUnSizedPK txi.1.pk)).prepare
    txi.1.base.hash txi.2).finalise).getOrNewStateObject (ext.getDilithiumAddressFromUnSizedPK txi.1.pk)
  refine hopened.payReward ?_ _ _
  have hsigner : ((st.statedb.getOrNewStateObject (ext.getDilithiumAddressFromUnSizedPK
      txi.1.pk)).prepare txi.1.base.hash txi.2).getNonce (ext.getDilithiumAddressFromUnSizedPK txi.1.pk)
        = txi.1.base.nonce := by
    rw [hr.nonce]
    exact congrArg Account.nonce (account_getOrNewStateObject ..)
  rw [← hsigner] at hlast
  unfold StateDB.getNonce
  rw [account_getOrNewStateObject]
  exact nonce_finalise_succ_ne_zero hlast

theorem guarded_markOTSIndex {tx : TxBase} (hsender : tx.addrFrom ext.toCrypto = .ok addr)
    (hnonce : addr = x → st.statedb.getNonce addr ≠ 0)
    (h : Guarded ext.toCrypto x st.statedb) (hok : markOTSIndex ext tx st = .ok st') :
    Guarded ext.toCrypto x st'.statedb := by
  rcases markOTSIndex_cases hsender hok with hs | ⟨field, hs⟩
  · rw [hs]
    exact h
  · rw [hs]
    exact h.hold (Crypto.keyAddress_of_addrFrom hsender) hnonce
      (fun a => { a with otsBitfield := field }) (fun _ => ⟨rfl, rfl⟩)

theorem guarded_processStake {tx : Stake}
    (h : Guarded ext.toCrypto x st.statedb) (hlast : tx.nonce + 1 ≠ 0)
    (hsender : tx.addrFrom ext.toCrypto = .ok addr) (hok : processStake ext env st i tx = .ok st') :
    Guarded ext.toCrypto x st'.statedb ∧ st'.statedb.getNonce addr ≠ 0 := by
  rcases processStake_of_ok hok with ⟨addr', haccepted, hstate⟩
  have haddr := haccepted.sender
  rw [hsender, Except.ok.injEq] at haddr
  subst haddr
  have hnonce : ((st.statedb.prepare tx.hash i).getOrNewStateObject addr).getNonce addr
      = tx.nonce := by
    rw [haccepted.nonce]
    exact congrArg Account.nonce (account_getOrNewStateObject ..)
  rw [← hnonce] at hlast
  have hlast' := nonce_finalise_succ_ne_zero hlast
  have hopened := ((h.prepare tx.hash i).getOrNewStateObject addr).finalise
  rw [hstate]
  refine ⟨hopened.moveStake (Crypto.keyAddress_of_addrFrom hsender) hlast' env.minter tx, ?_⟩
  unfold StateDB.getNonce
  rw [account_moveStake_self]
  exact hlast'

end Loops

section Transfers

variable {vm : Machine} {x : Address} {s s' : StateDB} {ctx : BlockContext} {msg : Message}
variable {gp gp' : UInt64} {result : ExecutionResult}

theorem nonce_bought (msg : Message) (s : StateDB) :
    (s.subBalance msg.sender (msg.gas.toNat * msg.gasPrice)).getNonce msg.sender
      = s.getNonce msg.sender :=
  proj_subBalance Account.nonce s msg.sender _ (fun _ _ => rfl) msg.sender

theorem nonce_entered (msg : Message) (s : StateDB) :
    (msg.entered s).getNonce msg.sender = s.getNonce msg.sender + 1 :=
  (getNonce_setNonce_self ..).trans (congrArg (· + 1) (nonce_bought msg s))

theorem guarded_entered (h : Guarded vm.toCrypto x s)
    (hlast : ¬s.getNonce msg.sender + 1 < s.getNonce msg.sender) :
    Guarded vm.toCrypto x (msg.entered s) := by
  have hbought := (h.subBalance msg.sender (msg.gas.toNat * msg.gasPrice)).prepareAccessList
    msg.sender msg.toAddr precompiledContracts
  refine hbought.raise ?_
  exact (nonce_bought msg s).symm ▸ nonce_succ_ne_zero hlast

theorem holding_entered (msg : Message) (s : StateDB) :
    ((msg.entered s).account x).holding = (s.account x).holding :=
  (holding_setNonce _ _ _).trans (same_subBalance msg.sender _).holding

theorem guarded_transitionDb (hkeys : ∀ x, vm.KeyAddress x → ¬vm.Creates x)
    (hcap : msg.gasPrice ≤ msg.gasFeeCap) (h : Guarded vm.toCrypto x s)
    (hok : transitionDb vm.toExternals ctx msg s gp = .ok (s', gp', result)) :
    Guarded vm.toCrypto x s' ∧ (s'.account x).holding = (s.account x).holding ∧
      (vm.KeyAddress x → msg.sender = x → s'.getNonce x ≠ 0) := by
  have hlast := nonce_of_transitionDb hok
  have hentered := guarded_entered h hlast
  have hheld := holding_entered (x := x) msg s
  have hstored : ((StateDB.new s'.trie).account x).Proper vm.toCrypto x :=
    (trie_invariant vm (msg.entered s).trie).transitionDb_of_lax hcap hok rfl ▸ hentered.stored
  by_cases hkey : vm.KeyAddress x
  · rcases hentered.key hkey with ⟨hsteady, hsafe⟩
    have hkept := (same_invariant vm hsafe.1 (.inr (hkeys x hkey))).transitionDb_of_lax hcap hok
      ⟨hsteady, .refl _⟩
    refine ⟨⟨fun _ => ⟨hkept.1, hkept.2.safe hsafe⟩, fun hother => absurd hkey hother, hstored⟩,
      hkept.2.holding.trans hheld, fun _ hself => ?_⟩
    subst hself
    have hraised : ((msg.entered s).account msg.sender).nonce = s.getNonce msg.sender + 1 :=
      nonce_entered msg s
    unfold StateDB.getNonce
    rw [hkept.2.nonce, hraised]
    exact nonce_succ_ne_zero hlast
  · have hbare := (bare_invariant vm x).transitionDb_of_lax hcap hok (hentered.other hkey)
    exact ⟨⟨fun hkey' => absurd hkey' hkey, fun _ => hbare, hstored⟩,
      hbare.trans (h.other hkey).symm, fun hkey' => absurd hkey' hkey⟩

variable {env : ExecEnv} {st st' : ExecState}

/-- What a transfer of the signer leaves of a field of used keys: the key of an XMSS signer is
    marked. -/
def Transfer.Marks (c : Crypto) (tx : Transfer) (x : Address)
    (field field' : List (List.Vector UInt8 8)) : Prop :=
  if tx.addrFrom c = .ok x ∧ c.isValidXMSSAddress x = true
  then ∃ i, tx.otsIndex = .ok i ∧ OTSMarked x i field field' else field' = field

/-- What an accepted transfer leaves of an account: its stake, its pending stake and its used
    keys, but for the one it is signed with. -/
structure Transfer.Spares (c : Crypto) (tx : Transfer) (x : Address) (a a' : Account) : Prop where
  stakeBalance : a'.stakeBalance = a.stakeBalance
  pendingStakeBalance : a'.pendingStakeBalance = a.pendingStakeBalance
  otsBitfield : tx.Marks c x a.otsBitfield a'.otsBitfield

theorem Guarded.holding_finalise (h : Guarded c x s) :
    (s.finalise.account x).holding = (s.account x).holding := by
  by_cases hkey : c.KeyAddress x
  · rcases h.key hkey with ⟨hsteady, hsafe⟩
    exact ((keeps_finalise x s).account hsteady).holding hsafe
  · exact (bare_finalise (h.other hkey)).trans (h.other hkey).symm

theorem guarded_processTransfer (hkeys : ∀ x, vm.KeyAddress x → ¬vm.Creates x)
    (h : Guarded vm.toCrypto x st.statedb)
    (hok : processTransfer vm.toExternals env st i tx = .ok st') :
    Guarded vm.toCrypto x st'.statedb ∧
      (st'.statedb.account x).holding = (st.statedb.account x).holding ∧
      ∃ addr, tx.addrFrom vm.toCrypto = .ok addr ∧ (addr = x → st'.statedb.getNonce addr ≠ 0) := by
  rcases processTransfer_of_ok hok with ⟨addr, s₁, gp, result, haccepted, htrans, hstate⟩
  have hopened := (h.prepare tx.hash i).getOrNewStateObject addr
  rcases guarded_transitionDb hkeys (min_le_right _ _) hopened htrans with ⟨hs₁, hheld, hnonce⟩
  rw [hstate]
  refine ⟨hs₁.finalise, ?_, addr, haccepted.sender, ?_⟩
  · rw [hs₁.holding_finalise, hheld, account_getOrNewStateObject]
    rfl
  · rintro rfl
    have hkey := Crypto.keyAddress_of_addrFrom haccepted.sender
    have hdrift := (keeps_finalise addr s₁).account (hs₁.key hkey).1
    unfold StateDB.getNonce
    rw [hdrift.nonce]
    exact hnonce hkey rfl

theorem spares_markOTSIndex {st₁ : ExecState}
    (hsender : tx.addrFrom vm.toCrypto = .ok addr) (h : Guarded vm.toCrypto x st₁.statedb)
    (hheld : (st₁.statedb.account x).holding = (st.statedb.account x).holding)
    (hok : markOTSIndex vm.toExternals tx.toTxBase st₁ = .ok st') :
    tx.Spares vm.toCrypto x (st.statedb.account x) (st'.statedb.account x) := by
  simp only [Account.holding, Prod.mk.injEq] at hheld
  rcases hheld with ⟨hstake, hpending, hfield⟩
  by_cases hself : addr = x
  · subst hself
    have hcode := (h.key (Crypto.keyAddress_of_addrFrom hsender)).2.1
    rcases markOTSIndex_of_ok hsender hcode hok with ⟨hxmss, i, field, hi, hmarked, hs⟩ | ⟨hxmss, hs⟩
    · rw [hs]
      refine ⟨?_, ?_, ?_⟩
      · rw [account_modify, if_pos rfl]
        exact hstake
      · rw [account_modify, if_pos rfl]
        exact hpending
      · unfold Transfer.Marks
        rw [if_pos ⟨hsender, hxmss⟩, account_modify, if_pos rfl, ← hfield]
        exact ⟨i, hi, hmarked⟩
    · rw [hs]
      refine ⟨hstake, hpending, ?_⟩
      unfold Transfer.Marks
      rw [if_neg (fun hboth => hxmss hboth.2)]
      exact hfield
  · have hsame : st'.statedb.account x = st₁.statedb.account x := by
      rcases markOTSIndex_cases hsender hok with hs | ⟨field, hs⟩
      · rw [hs]
      · rw [hs, account_modify, if_neg hself]
    rw [hsame]
    refine ⟨hstake, hpending, ?_⟩
    unfold Transfer.Marks
    rw [if_neg (fun hboth => hself (Except.ok.inj (hsender.symm.trans hboth.1)))]
    exact hfield

theorem guarded_processTx (hkeys : ∀ x, vm.KeyAddress x → ¬vm.Creates x)
    {txi : Transaction × Nat} (h : Guarded vm.toCrypto x st.statedb)
    (hlast : ∀ tx : Stake, txi.1 = .stake tx → tx.nonce + 1 ≠ 0)
    (hok : processTx vm.toExternals env st txi = .ok st') : Guarded vm.toCrypto x st'.statedb := by
  rcases txi with ⟨tx, i⟩
  cases tx with
  | stake tx =>
    rcases bind_eq_ok.1 hok with ⟨st₁, hstake, hmark⟩
    rcases processStake_of_ok hstake with ⟨addr, haccepted, -⟩
    rcases guarded_processStake h (hlast tx rfl) haccepted.sender hstake with ⟨hs₁, hnonce⟩
    exact guarded_markOTSIndex haccepted.sender (fun _ => hnonce) hs₁ hmark
  | transfer tx =>
    rcases bind_eq_ok.1 hok with ⟨st₁, htransfer, hmark⟩
    rcases guarded_processTransfer hkeys h htransfer with ⟨hs₁, -, addr, hsender, hnonce⟩
    exact guarded_markOTSIndex hsender hnonce hs₁ hmark
  | unknown base => cases hok

theorem spares_processTx (hkeys : ∀ x, vm.KeyAddress x → ¬vm.Creates x)
    (h : Guarded vm.toCrypto x st.statedb)
    (hok : processTx vm.toExternals env st (.transfer tx, i) = .ok st') :
    tx.Spares vm.toCrypto x (st.statedb.account x) (st'.statedb.account x) := by
  rcases bind_eq_ok.1 hok with ⟨st₁, htransfer, hmark⟩
  rcases guarded_processTransfer hkeys h htransfer with ⟨hs₁, hheld, addr, hsender, -⟩
  exact spares_markOTSIndex hsender hs₁ hheld hmark

end Transfers

section Bookkeeping

variable {ext : Externals} {x : Address} {s s' : StateDB}

theorem bare_updateStakeValidator {se : StateDB × EpochMetaData} (pk : PublicKey)
    (h : (se.1.account x).Bare) : ((updateStakeValidator ext se pk).1.account x).Bare := by
  rcases se with ⟨s, e⟩
  have hopened := account_getOrNewStateObject s (ext.getAddressFromUnSizedPK pk) x
  unfold updateStakeValidator
  dsimp only at h ⊢
  rw [← hopened] at h
  generalize s.getOrNewStateObject (ext.getAddressFromUnSizedPK pk) = opened at h
  generalize ext.getAddressFromUnSizedPK pk = addr
  unfold Account.Bare Account.holding at h
  simp only [Prod.mk.injEq] at h
  by_cases hx : addr = x
  · subst hx
    have hpending : bigUint64 (opened.getPendingStakeBalance addr) = 0 := by
      unfold StateDB.getPendingStakeBalance
      rw [h.2.1]
      rfl
    rw [if_pos hpending]
    unfold StateDB.setStakeBalance
    rw [account_modify, if_pos rfl, account_addBalance, if_pos rfl]
    unfold Account.Bare Account.holding
    dsimp only
    rw [h.2.1, h.2.2]
    rfl
  · have hbare : (opened.account x).Bare := by
      unfold Account.Bare Account.holding
      rw [h.1, h.2.1, h.2.2]
    unfold StateDB.setStakeBalance StateDB.setPendingStakeBalance
    split
    · rw [account_modify, if_neg hx, account_addBalance, if_neg hx]
      exact hbare
    · rw [account_modify, if_neg hx, account_modify, if_neg hx, account_addBalance, if_neg hx]
      exact hbare

theorem Guarded.booked (h : Guarded ext.toCrypto x s) (hbooked : Booked ext s s') :
    Guarded ext.toCrypto x s' := by
  have hbare : (s.account x).Bare → (s'.account x).Bare := hbooked.induction
    (fun s => (s.account x).Bare) (fun _ pk hse => bare_updateStakeValidator pk hse)
  have hkept := hbooked.keeps (x := x)
  refine ⟨fun hkey => ?_, fun hother => hbare (h.other hother), hkept.trie.symm ▸ h.stored⟩
  rcases h.key hkey with ⟨hsteady, hsafe⟩
  have hmoves := hkept.account hsteady
  exact ⟨hkept.steady hsteady, hmoves.code.trans hsafe.1,
    fun hzero => hbare (hsafe.2 (hmoves.nonce ▸ hzero))⟩

end Bookkeeping

section Blocks

variable {vm : Machine} {x : Address} {env : ExecEnv} {st₀ st : ExecState}

theorem guarded_processUpTo (hkeys : ∀ x, vm.KeyAddress x → ¬vm.Creates x) {n : Nat}
    (hcounted : env.block.Counted) (h : Guarded vm.toCrypto x st₀.statedb)
    (hok : processUpTo vm.toExternals env st₀ n = .ok st) : Guarded vm.toCrypto x st.statedb := by
  rcases bind_eq_ok.1 hok with ⟨mid, hprotocol, huser⟩
  have hmid : Guarded vm.toCrypto x mid.statedb := by
    refine foldlM_invariant (fun st => Guarded vm.toCrypto x st.statedb) _ ?_ h hprotocol
    intro st txi st' hmem hst hstep
    exact guarded_processProtocolTx hst
      (hcounted.protocol txi.1 (List.fst_mem_of_mem_zipIdx hmem)) hstep
  refine foldlM_invariant (fun st => Guarded vm.toCrypto x st.statedb) _ ?_ hmid huser
  intro st txi st' hmem hst hstep
  refine guarded_processTx hkeys hst (fun tx htx => hcounted.stake tx ?_) hstep
  exact htx ▸ List.fst_mem_of_mem_zipIdx (List.mem_of_mem_take hmem)

theorem Guarded.commit {s : StateDB} (h : Guarded c x s) :
    ((StateDB.new s.commit).account x).Proper c x := by
  rcases account_commit_cases s x with hnew | hnew | hnew
  · rw [hnew]
    exact h.finalise.proper
  · rw [hnew]
    exact h.stored
  · rw [hnew]
    exact Account.proper_new c x

end Blocks

def ProperTrie (c : Crypto) (trie : AssocMap Address Account) : Prop :=
  ∀ x, ((StateDB.new trie).account x).Proper c x

/-- While genesis is processed, a user transaction of it takes one state to the next. -/
def Block.Opens (ext : Externals) (g : Block) (preState : List (List UInt8 × UInt64))
    (tx : Transaction) (st st' : ExecState) : Prop :=
  ∃ c pre first ctx env st₀ last s' e p n,
    Loaded ext g preState c pre first ctx env st₀ last s' e p ∧ g.transactions[n]? = some tx ∧
    processUpTo ext env st₀ n = .ok st ∧ processTx ext env st (tx, n) = .ok st'

section Run

variable {vm : Machine} {g : Block} {preState : List (List UInt8 × UInt64)} {c₀ c : Chain}
variable {x : Address}

theorem guarded_of_prepared {parent : Block} {w : Pending} {pm : BlockMetaData}
    {opened moved : StateDB} {env : ExecEnv} {st₀ : ExecState}
    (htries : ∀ r trie, c.tries.get r = some trie → ProperTrie vm.toCrypto trie)
    (hp : Prepared vm.toExternals c b parent w pm opened moved e env st₀ st) :
    Guarded vm.toCrypto x st₀.statedb := by
  rw [hp.start]
  rcases trie_of_openState (fun y => Account.proper_new _ y) htries hp.opens with
    ⟨trie, rfl, hproper⟩
  exact (guarded_new (hproper x)).booked (booked_of_calculateEpochMetaData hp.moves)

theorem guarded_of_loaded {pre : StateDB} {first : ProtocolTransaction} {ctx : StateContext}
    {env : ExecEnv} {st₀ : ExecState} {s' : StateDB} {p : Processed}
    (hl : Loaded vm.toExternals g preState c pre first ctx env st₀ st s' e p) :
    Guarded vm.toCrypto x st₀.statedb := by
  have hborn : Born x pre := born_of_genesisPreState hl.balances
  rcases hborn.account with ⟨v, hv⟩
  rw [hl.start]
  refine ⟨fun _ => ⟨hborn.steady, ?_⟩, fun _ => ?_, ?_⟩
  · rw [hv]
    exact ⟨rfl, fun _ => rfl⟩
  · rw [hv]
    rfl
  · rw [hborn.trie]
    exact Account.proper_new _ x

variable (hkeys : ∀ x, vm.KeyAddress x → ¬vm.Creates x)
include hkeys

theorem proper_of_prepareBlock {parent : Block} {w : Pending}
    (htries : ∀ r trie, c.tries.get r = some trie → ProperTrie vm.toCrypto trie)
    (hcounted : b.Counted) (hw : c.prepareBlock vm.toExternals b parent = .ok w) :
    ProperTrie vm.toCrypto w.trie := by
  intro x
  rcases prepareBlock_stages hw with ⟨pm, opened, moved, e, env, st₀, st, hp⟩
  rw [hp.trie]
  exact (guarded_processUpTo hkeys (hp.block ▸ hcounted) (guarded_of_prepared htries hp)
    (processUpTo_length hp.loops)).finalise.commit

theorem proper_of_genesisChain (hcounted : g.Counted)
    (h₀ : genesisChain vm.toExternals g preState = .ok c₀) :
    ∀ r trie, c₀.tries.get r = some trie → ProperTrie vm.toCrypto trie := by
  rcases loaded_of_genesisChain h₀ with ⟨pre, first, ctx, env, st₀, st, s', e, q, hl⟩
  have hstored : ProperTrie vm.toCrypto s'.finalise.commit := by
    intro x
    have hst := guarded_processUpTo hkeys (x := x) (hl.block ▸ hcounted) (guarded_of_loaded hl)
      (processUpTo_length hl.loops)
    exact (hst.booked (booked_of_genesisEpoch hl.epoch)).finalise.commit
  exact hl.tries_all hstored

theorem spares_of_executes {st' : ExecState}
    (htries : ∀ r trie, c.tries.get r = some trie → ProperTrie vm.toCrypto trie)
    (hcounted : b.Counted) (h : b.Executes vm.toExternals c (.transfer tx) st st') (x : Address) :
    tx.Spares vm.toCrypto x (st.statedb.account x) (st'.statedb.account x) := by
  rcases h with ⟨parent, w, pm, opened, moved, e, env, st₀, last, n, hp, -, hst, hstep⟩
  exact spares_processTx hkeys (guarded_processUpTo hkeys (hp.block ▸ hcounted)
    (guarded_of_prepared htries hp) hst) hstep

/-- While no nonce wraps, an accepted transfer leaves every account's stake, pending stake and
    used one-time keys as they were, the key it is signed with apart: in genesis, and in every
    block on every state a run has stored. -/
theorem stake_out_of_reach (hcounted : g.Counted)
    (h₀ : genesisChain vm.toExternals g preState = .ok c₀)
    (hrun : Run vm.toExternals (fun _ b => b.Counted) c₀ c) :
    (∀ (b : Block) (tx : Transfer) (st st' : ExecState), b.Counted →
      b.Executes vm.toExternals c (.transfer tx) st st' →
      ∀ x, tx.Spares vm.toCrypto x (st.statedb.account x) (st'.statedb.account x)) ∧
    ∀ (tx : Transfer) (st st' : ExecState),
      g.Opens vm.toExternals preState (.transfer tx) st st' →
      ∀ x, tx.Spares vm.toCrypto x (st.statedb.account x) (st'.statedb.account x) := by
  refine ⟨fun b tx st st' hb h => ?_, fun tx st st' h x => ?_⟩
  · have htries := hrun.tries_all (proper_of_genesisChain hkeys hcounted h₀)
      (fun _ _ _ _ hb htries hw => proper_of_prepareBlock hkeys htries hb hw)
    exact spares_of_executes hkeys htries hb h
  · rcases h with ⟨c', pre, first, ctx, env, st₀, last, s', e, p, n, hl, -, hst, hstep⟩
    exact spares_processTx hkeys (guarded_processUpTo hkeys (hl.block ▸ hcounted)
      (guarded_of_loaded hl) hst) hstep

end Run

theorem exists_executes {ext : Externals} {c c' : Chain} {now : UInt64} {n : Nat}
    {tx : Transaction} (hadd : c.addBlock ext now b = .ok (true, c'))
    (htx : b.transactions[n]? = some tx) : ∃ st st', b.Executes ext c tx st st' := by
  rcases readBlock_of_addBlock hadd with ⟨w, hread, -⟩
  rcases prepareBlock_stages (readBlock_of_some hread).1 with
    ⟨pm, opened, moved, e, env, st₀, last, hp⟩
  rcases processTransactions_of_ok hp.loops with ⟨-, -, mid, -, hprotocol, huser⟩
  rw [← hp.block] at htx
  have hget : env.block.transactions.zipIdx[n]? = some (tx, n) := by
    rw [List.getElem?_zipIdx, htx, Option.map_some, Nat.zero_add]
  -- The second loop, stopped before the transaction and after it.
  have hsplit : env.block.transactions.zipIdx = env.block.transactions.zipIdx.take n ++
      (tx, n) :: env.block.transactions.zipIdx.drop (n + 1) := by
    rcases List.getElem?_eq_some_iff.1 hget with ⟨hlt, hval⟩
    rw [← hval, ← List.drop_eq_getElem_cons hlt, List.take_append_drop]
  rw [hsplit, List.foldlM_append] at huser
  rcases bind_eq_ok.1 huser with ⟨st, hbefore, huser⟩
  rw [List.foldlM_cons] at huser
  rcases bind_eq_ok.1 huser with ⟨st', hstep, -⟩
  refine ⟨st, st', _, w, pm, opened, moved, e, env, st₀, last, n, hp, hp.block ▸ htx, ?_, hstep⟩
  unfold processUpTo
  rw [hprotocol, ok_bind]
  exact hbefore

/-- The toy network with one contract, which pays key 2 what it has and is gone. -/
def toyMachine : Machine :=
  { toyExternals with
    interpreterRun := fun _ _ s contract _ =>
      { state := (s.addBalance (toyAddress 2) (s.getBalance contract.self)).suicide contract.self
        gas := contract.gas, ret := [], err := none }
    createAddress := fun _ _ => toyContract
    createAddress2 := fun _ _ _ => toyContract
    interprets := fun _ _ s _ _ => .step (.start s) (.selfdestruct s (toyAddress 2)) }

theorem toyMachine_keys (x : Address) (hkey : toyMachine.KeyAddress x) : ¬toyMachine.Creates x :=
  toyVm_apart.keys x hkey

def toyDeployTx : Transfer :=
  (newTransfer 0 [] 7 100000 1 [1] 1 (toyKey 2).pk).signDilithium toyCrypto (toyKey 2)

def toyDeploying : Block := toyBlock 1 100 toyGenesis.hash [.transfer toyDeployTx] 2

theorem counted_of_nonces (h : (∀ tx ∈ b.protocolTransactions, tx.base.nonce + 1 ≠ 0) ∧
      ∀ tx ∈ b.transactions, tx.base.nonce + 1 ≠ 0) : b.Counted :=
  ⟨h.1, fun _ htx => h.2 _ htx⟩

theorem toyRun_out_of_reach : ∃ c₀ c st st',
    genesisChain toyMachine.toExternals toyGenesis toyPreState = .ok c₀ ∧
    Run toyMachine.toExternals (fun _ b => b.Counted) c₀ c ∧
    toyDeploying.Executes toyMachine.toExternals c (.transfer toyDeployTx) st st' ∧
    ∀ x, toyDeployTx.Spares toyMachine.toCrypto x (st.statedb.account x)
      (st'.statedb.account x) := by
  have hcheck : (genesisChain toyMachine.toExternals toyGenesis toyPreState >>= fun c₀ =>
      c₀.addBlock toyMachine.toExternals toyNow toyFirst >>= fun r =>
        r.2.addBlock toyMachine.toExternals toyNow toyDeploying >>= fun r' =>
          pure (r.1 && r'.1)) = .ok true := by
    decide +kernel
  rcases bind_eq_ok.1 hcheck with ⟨c₀, h₀, hcheck⟩
  rcases bind_eq_ok.1 hcheck with ⟨⟨first, c⟩, hfirst, hcheck⟩
  rcases bind_eq_ok.1 hcheck with ⟨⟨added, c'⟩, hadd, hcheck⟩
  rw [pure_eq_ok, Bool.and_eq_true] at hcheck
  have hrun : Run toyMachine.toExternals (fun _ b => b.Counted) c₀ c :=
    .single ⟨toyNow, toyFirst, first, counted_of_nonces (by decide +kernel), hfirst⟩
  have hadded : added = true := hcheck.2
  rw [hadded] at hadd
  have htx : toyDeploying.transactions[0]? = some (.transfer toyDeployTx) := by decide +kernel
  rcases exists_executes hadd htx with ⟨st, st', hexecutes⟩
  have hreach := stake_out_of_reach toyMachine_keys (counted_of_nonces (by decide +kernel)) h₀ hrun
  exact ⟨c₀, c, st, st', h₀, hrun, hexecutes,
    hreach.1 toyDeploying _ st st' (counted_of_nonces (by decide +kernel)) hexecutes⟩

end Zond
