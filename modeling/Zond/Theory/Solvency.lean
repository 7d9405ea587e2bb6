import Zond.Theory.Frames
import Zond.Theory.Tracking

/-!
# Solvent Contracts

Contract code passes on what a contract holds, and a contract that held less than nothing would
pass on that. While amounts are what they are read as, no contract comes to hold less than
nothing: what is paid to it is not negative, and what it pays is there. In such a state a message
does to the account of a key what its sender and its receiver can do: it pays it, and it takes
from its sender no more than the value and the price of all gas.

## Main definitions

* `StateDB.Solvent`: Code is at addresses of contracts only, and no contract is in debt.

## Theorems

* `solvent_transitionDb`: A message leaves contracts solvent.
* `keeps_transitionDb`: What a message does to an address that is no contract's.
-/

namespace Zond

open StateDB

variable {vm : Machine} {x addr : Address} {s s' : StateDB} {v : Int}

/-- Code is at addresses of contracts only, and no contract is in debt. -/
def Machine.Sound (vm : Machine) (y : Address) (a : Account) : Prop :=
  (a.code ≠ [] → vm.Creates y) ∧ (vm.Creates y → 0 ≤ a.balance)

/-- All accounts are sound, and what is stored for them. -/
structure StateDB.Solvent (vm : Machine) (s : StateDB) : Prop where
  account : ∀ y, vm.Sound y (s.account y)
  stored : ∀ y, vm.Sound y ((StateDB.new s.trie).account y)

theorem Machine.sound_new (vm : Machine) (y : Address) : vm.Sound y Account.new :=
  ⟨fun h => absurd rfl h, fun _ => le_refl _⟩

section Writes

theorem account_setState (s : StateDB) (addr : Address) (key value : Hash) (x : Address) :
    ∃ storage, (s.setState addr key value).account x =
      if addr = x then { s.account addr with storage := storage } else s.account x := by
  unfold StateDB.setState
  dsimp only
  split
  · refine ⟨(s.account addr).storage, ?_⟩
    rw [account_getOrNewStateObject]
    split
    · rename_i hx
      rw [hx]
    · rfl
  · exact ⟨_, by rw [account_modify, account_getOrNewStateObject, account_getOrNewStateObject]⟩

theorem StateDB.Steady.setState (h : s.Steady x) (addr : Address) (key value : Hash) :
    (s.setState addr key value).Steady x := by
  unfold StateDB.setState
  dsimp only
  split
  · exact h.getOrNewStateObject addr
  · exact (h.getOrNewStateObject addr).modify addr _

theorem trie_setState (s : StateDB) (addr : Address) (key value : Hash) :
    (s.setState addr key value).trie = s.trie := by
  unfold StateDB.setState
  dsimp only
  split
  · exact trie_getOrNewStateObject s addr
  · exact (trie_modify ..).trans (trie_getOrNewStateObject s addr)

theorem trie_suicide (s : StateDB) (addr : Address) : (s.suicide addr).trie = s.trie := by
  unfold StateDB.suicide
  split <;> rfl

theorem account_suicide (s : StateDB) (addr x : Address) : (s.suicide addr).account x =
      if addr = x then { s.account addr with balance := 0 } else s.account x := by
  unfold StateDB.suicide
  split
  · rename_i hnone
    split
    · rename_i hx
      rw [← hx, account_of_not_exist hnone]
      rfl
    · rfl
  · rename_i obj hget
    by_cases hx : addr = x
    · subst hx
      rw [if_pos rfl, account_of_getStateObject hget]
      have hdel : obj.deleted = false := getStateObject_not_deleted hget
      let marked : StateObject :=
        { obj with data := { obj.data with balance := 0 }, suicided := true }
      have hput : (s.stateObjects.put addr marked).get addr = some marked :=
        AssocMap.get_put_self ..
      have hmarked : StateDB.account { s with
          stateObjects := s.stateObjects.put addr marked
          dirties := insertNew addr s.dirties } addr = marked.data :=
        account_of_getStateObject (StateDB.getStateObject_of_get hput hdel)
      exact hmarked
    · rw [if_neg hx]
      exact account_congr (AssocMap.get_put_ne _ _ hx) rfl

theorem StateDB.Steady.suicide (h : s.Steady x) (hne : addr ≠ x) : (s.suicide addr).Steady x := by
  unfold StateDB.suicide
  split
  · exact h
  · exact h.congr (AssocMap.get_put_ne _ _ hne) rfl
      (fun hd => (mem_insertNew ..).2 (.inr hd)) id

theorem account_commit_cases (s : StateDB) (x : Address) :
    (StateDB.new s.commit).account x = s.finalise.account x ∨
      (StateDB.new s.commit).account x = (StateDB.new s.trie).account x ∨
      (StateDB.new s.commit).account x = Account.new := by
  rw [account_new, account_new, get_commit]
  split
  · cases hobj : s.finalise.stateObjects.get x with
    | none => exact .inr (.inl rfl)
    | some obj =>
      rw [written_some]
      by_cases hdeleted : obj.deleted = true
      · rw [if_pos hdeleted]
        exact .inr (.inr rfl)
      · rw [if_neg hdeleted]
        split
        · exact .inl (account_of_getStateObject
            (StateDB.getStateObject_of_get hobj (Bool.eq_false_iff.2 hdeleted))).symm
        · exact .inr (.inl rfl)
  · exact .inr (.inl rfl)

end Writes

namespace StateDB.Solvent

theorem code (h : s.Solvent vm) (hx : ¬vm.Creates x) : s.getCode x = [] :=
  Classical.not_not.1 fun hne => hx ((h.account x).1 hne)

theorem of_account (h : s.Solvent vm) (htrie : s'.trie = s.trie)
    (hsound : ∀ y, vm.Sound y (s.account y) → vm.Sound y (s'.account y)) : s'.Solvent vm :=
  ⟨fun y => hsound y (h.account y), htrie ▸ h.stored⟩

/-- A write to one account leaves the others as they are. -/
theorem update (h : s.Solvent vm) (f : Account → Account) (htrie : s'.trie = s.trie)
    (haccount : ∀ y, s'.account y = if addr = y then f (s.account addr) else s.account y)
    (hf : vm.Sound addr (s.account addr) → vm.Sound addr (f (s.account addr))) : s'.Solvent vm := by
  refine h.of_account htrie fun y hy => ?_
  rw [haccount]
  split
  · rename_i heq
    exact heq ▸ hf (heq ▸ hy)
  · exact hy

theorem new {trie : AssocMap Address Account}
    (h : ∀ y, vm.Sound y ((StateDB.new trie).account y)) : (StateDB.new trie).Solvent vm := ⟨h, h⟩

theorem getOrNewStateObject (h : s.Solvent vm) (addr : Address) :
    (s.getOrNewStateObject addr).Solvent vm :=
  h.of_account (trie_getOrNewStateObject s addr) fun y hy =>
    (account_getOrNewStateObject s addr y).symm ▸ hy

theorem prepare (h : s.Solvent vm) (thash : Hash) (i : Nat) : (s.prepare thash i).Solvent vm :=
  h.of_account rfl fun _ => id

theorem finalise (h : s.Solvent vm) : s.finalise.Solvent vm := by
  refine h.of_account (trie_finalise s) fun y hy => ?_
  rcases account_finalise_cases s y with ⟨-, hnew⟩ | ⟨-, hsame⟩
  · exact hnew ▸ vm.sound_new y
  · exact hsame ▸ hy

theorem modify (h : s.Solvent vm) (addr : Address) {f : Account → Account}
    (hcode : ∀ a, (f a).code = a.code) (hbalance : ∀ a, (f a).balance = a.balance) :
    (s.modify addr f).Solvent vm :=
  h.update f (trie_modify s addr f) (account_modify s addr f) fun ha =>
    ⟨fun hne => ha.1 ((hcode _) ▸ hne), fun hc => (hbalance _).symm ▸ ha.2 hc⟩

theorem setNonce (h : s.Solvent vm) (addr : Address) (n : UInt64) :
    (s.setNonce addr n).Solvent vm :=
  h.modify addr (f := fun a => { a with nonce := n }) (fun _ => rfl) (fun _ => rfl)

theorem addBalance (h : s.Solvent vm) (addr : Address) (hv : vm.Creates addr → 0 ≤ v) :
    (s.addBalance addr v).Solvent vm :=
  h.update (fun a => { a with balance := a.balance + v }) (trie_addBalance s addr v)
    (account_addBalance s addr v) fun ha => ⟨ha.1, fun hc => Int.add_nonneg (ha.2 hc) (hv hc)⟩

theorem subBalance (h : s.Solvent vm) (hv : vm.Creates addr → v ≠ 0 → v ≤ s.getBalance addr) :
    (s.subBalance addr v).Solvent vm := by
  refine h.update (fun a => { a with balance := a.balance - v }) (trie_subBalance s addr v)
    (account_subBalance s addr v) fun ha => ⟨ha.1, fun hc => ?_⟩
  have hbalance := ha.2 hc
  have hcovered := hv hc
  unfold StateDB.getBalance at hcovered
  dsimp only
  omega

theorem commit (h : s.Solvent vm) : (StateDB.new s.commit).Solvent vm := by
  refine new fun y => ?_
  rcases account_commit_cases s y with hnew | hnew | hnew
  · exact hnew ▸ h.finalise.account y
  · exact hnew ▸ h.stored y
  · exact hnew ▸ vm.sound_new y

end StateDB.Solvent

theorem solvent_invariant (vm : Machine) : vm.Invariant True vm.Creates (StateDB.Solvent vm) where
  congr h hobj htrie _ _ := h.of_account htrie fun y hy =>
    (account_congr (congrArg (·.get y) hobj) htrie).symm ▸ hy
  addBalance addr hv h := h.addBalance addr fun _ => hv trivial
  subBalance hv h := h.subBalance fun _ => (hv trivial).2
  worth _ hhost h := (h.account _).2 hhost
  raise _ h := h.setNonce _ _
  appear _ h := h.update (fun a => { Account.new with balance := a.balance })
    (trie_createAccount ..) (account_createAccount _ _) fun ha =>
      ⟨fun hne => absurd rfl hne, ha.2⟩
  found hcreates _ _ h := ⟨hcreates, (h.update (fun a => { Account.new with balance := a.balance })
    (trie_createAccount ..) (account_createAccount _ _) fun ha =>
      ⟨fun _ => hcreates, ha.2⟩).setNonce _ _⟩
  setState := by
    intro s addr key value _ h
    refine h.of_account (trie_setState s addr key value) fun y hy => ?_
    rcases account_setState s addr key value y with ⟨storage, haccount⟩
    rw [haccount]
    split
    · rename_i heq
      exact heq ▸ hy
    · exact hy
  setCode code hhost h := h.update (fun a => { a with code := code }) (trie_modify ..)
    (account_modify _ _ fun a => { a with code := code }) fun ha => ⟨fun _ => hhost, ha.2⟩
  suicide _ h := h.update (fun a => { a with balance := 0 }) (trie_suicide ..)
    (account_suicide _ _) fun ha => ⟨ha.1, fun _ => le_refl _⟩
  revert _ h := ⟨h.account, h.stored⟩
  host hne h := (h.account _).1 hne

/-- Seen from an address that is no contract's, while frames run for contracts: the account
    has paid no more than what was allowed. -/
structure Spent (vm : Machine) (x : Address) (trie : AssocMap Address Account) (v : Int)
    (a : Account) (s : StateDB) : Prop where
  solvent : s.Solvent vm
  trie : s.trie = trie
  steady : s.Steady x
  account : a.Pays v (s.account x)

section Spent

variable {trie : AssocMap Address Account} {a : Account}

theorem Spent.keeps {w : Int} (h : Spent vm x trie v a s) (hs' : s'.Solvent vm)
    (hkeeps : Keeps x (Account.Pays w) s s') (hw : v + w ≤ v) : Spent vm x trie v a s' :=
  ⟨hs', hkeeps.trie.trans h.trie, hkeeps.steady h.steady,
    (h.account.trans (hkeeps.account h.steady)).mono hw⟩

theorem Spent.keeps_zero (h : Spent vm x trie v a s) (hs' : s'.Solvent vm)
    (hkeeps : Keeps x (Account.Pays 0) s s') : Spent vm x trie v a s' :=
  h.keeps hs' hkeeps (by omega)

theorem spent_invariant (hx : ¬vm.Creates x) :
    vm.Invariant True vm.Creates (Spent vm x trie v a) where
  congr := by
    intro s s' h hobj htrie hdirty hpending
    have hget : s'.stateObjects.get x = s.stateObjects.get x := congrArg (·.get x) hobj
    refine h.keeps_zero ((solvent_invariant vm).congr h.solvent hobj htrie hdirty hpending)
      ⟨htrie, fun hs => hs.congr hget htrie (fun h => hdirty ▸ h) (fun h => hpending ▸ h),
        fun _ => ?_⟩
    rw [account_congr hget htrie]
    exact .refl _
  addBalance addr hv h := h.keeps_zero ((solvent_invariant vm).addBalance addr hv h.solvent)
    (keeps_addBalance_of_nonneg x _ addr fun _ => hv trivial)
  subBalance := by
    intro s addr w hw h
    have hne : addr ≠ x := fun heq => hx (heq ▸ (hw trivial).1)
    refine h.keeps ((solvent_invariant vm).subBalance hw h.solvent) (keeps_subBalance x s addr w) ?_
    rw [cost_ne hne]
    omega
  worth hstrict hhost h := (solvent_invariant vm).worth hstrict hhost h.solvent
  raise hhost h := h.keeps_zero ((solvent_invariant vm).raise hhost h.solvent)
    (keeps_modify_ne x _ _ fun heq => hx (heq ▸ hhost))
  appear hnone h := h.keeps_zero ((solvent_invariant vm).appear hnone h.solvent)
    (keeps_createAccount x _ _ fun heq => heq ▸ hnone)
  found := by
    intro s addr hcreates hnonce hcode h
    have hne : addr ≠ x := fun heq => hx (heq ▸ hcreates)
    rcases (solvent_invariant vm).found hcreates hnonce hcode h.solvent with ⟨hhost, hsolvent⟩
    exact ⟨hhost, h.keeps_zero hsolvent ((keeps_createAccount x s addr fun heq =>
      absurd heq hne).pays (keeps_modify_ne x _ _ hne))⟩
  setState := by
    intro s addr key value hhost h
    have hne : addr ≠ x := fun heq => hx (heq ▸ hhost)
    refine h.keeps_zero ((solvent_invariant vm).setState key value hhost h.solvent)
      ⟨trie_setState .., fun hs => hs.setState .., fun _ => ?_⟩
    rcases account_setState s addr key value x with ⟨storage, haccount⟩
    rw [haccount, if_neg hne]
    exact .refl _
  setCode code hhost h := h.keeps_zero ((solvent_invariant vm).setCode code hhost h.solvent)
    (keeps_modify_ne x _ _ fun heq => hx (heq ▸ hhost))
  suicide := by
    intro s addr hhost h
    have hne : addr ≠ x := fun heq => hx (heq ▸ hhost)
    refine h.keeps_zero ((solvent_invariant vm).suicide hhost h.solvent)
      ⟨trie_suicide .., fun hs => hs.suicide hne, fun _ => ?_⟩
    rw [account_suicide, if_neg hne]
    exact .refl _
  revert m h := ⟨(solvent_invariant vm).revert m h.solvent, h.trie, h.steady.revertToSnapshot m,
    h.account⟩
  host hne h := (solvent_invariant vm).host hne h.solvent

end Spent

section Messages

variable {ctx : BlockContext} {msg : Message} {gp gp' : UInt64} {result : ExecutionResult}

/-- A message that was let through: its sender has no contract's address, and its amounts are not
    negative. -/
structure Message.Plain (vm : Machine) (msg : Message) : Prop where
  sender : ¬vm.Creates msg.sender
  value : 0 ≤ msg.value
  price : 0 ≤ msg.gasPrice
  cap : msg.gasPrice ≤ msg.gasFeeCap
  tip : msg.gasPrice ≤ msg.gasTipCap

theorem solvent_entered (hmsg : msg.Plain vm) (hs : s.Solvent vm) : (msg.entered s).Solvent vm := by
  have hbought : (s.subBalance msg.sender (msg.gas.toNat * msg.gasPrice)).Solvent vm :=
    hs.subBalance fun hc => absurd hc hmsg.sender
  refine StateDB.Solvent.setNonce ?_ _ _
  exact hbought.of_account rfl fun _ => id

theorem solvent_transfer {m : StateDB} (hmsg : msg.Plain vm) (hm : m.Solvent vm) (addr : Address) :
    (Vm.transfer m msg.sender addr msg.value).Solvent vm :=
  (hm.subBalance fun hc => absurd hc hmsg.sender).addBalance addr fun _ => hmsg.value

/-- A message leaves contracts solvent. -/
theorem solvent_transitionDb (hmsg : msg.Plain vm) (hs : s.Solvent vm)
    (h : transitionDb vm.toExternals ctx msg s gp = .ok (s', gp', result)) : s'.Solvent vm :=
  (solvent_invariant vm).transitionDb hmsg.cap (fun _ => ⟨hmsg.price, hmsg.tip⟩)
    (fun addr _ hm => solvent_transfer hmsg hm addr) h (solvent_entered hmsg hs)

theorem keeps_transfer (x : Address) (s : StateDB) (caller addr : Address) (hv : 0 ≤ v) :
    Keeps x (Account.Pays (cost x caller v)) s (Vm.transfer s caller addr v) := by
  refine ((keeps_subBalance x s caller v).pays (keeps_addBalance_of_nonneg x _ addr
    fun _ => hv)).mono fun h => h.mono ?_
  omega

/-- A message that went through: the sender's nonce is raised, the sender pays for no more
    than all the gas and the value, and nobody else pays anything. -/
theorem keeps_transitionDb (hmsg : msg.Plain vm) (hx : ¬vm.Creates x) (hsolvent : s.Solvent vm)
    (hs : s.Steady x) (h : transitionDb vm.toExternals ctx msg s gp = .ok (s', gp', result)) :
    (msg.sender ≠ x → Keeps x (Account.Pays 0) s s') ∧
      (msg.sender = x →
        Keeps x (Account.Sends (msg.gas.toNat * msg.gasPrice + msg.value)) s s') := by
  have hbought := (keeps_subBalance x s msg.sender (msg.gas.toNat * msg.gasPrice)).pays
    (keeps_prepareAccessList x _ msg.sender msg.toAddr precompiledContracts)
  have hentered : (msg.entered s).Steady x := by
    unfold Message.entered StateDB.setNonce
    exact (hbought.steady hs).modify msg.sender _
  have hcost : 0 ≤ cost x msg.sender msg.value := cost_nonneg x msg.sender fun _ => hmsg.value
  -- The value is paid out of what was there when the message was entered.
  have hpays : Machine.Invariant.Pays (Spent vm x (msg.entered s).trie
      (cost x msg.sender msg.value) ((msg.entered s).account x)) (msg.entered s) msg.sender
      msg.value := by
    intro m addr hbalance hm
    have hpaid := keeps_transfer x m msg.sender addr hmsg.value
    refine ⟨solvent_transfer hmsg hm.solvent addr, hpaid.trie.trans hm.trie,
      hpaid.steady hm.steady, ?_⟩
    have hlow := (hpaid.account hm.steady).balance
    refine ⟨?_, (hm.account.trans (hpaid.account hm.steady)).rest⟩
    by_cases hself : msg.sender = x
    · subst hself
      unfold StateDB.getBalance at hbalance
      rw [hbalance] at hlow
      exact hlow
    · have hkept := hm.account.balance
      rw [cost_ne hself] at hlow hkept ⊢
      omega
  have hspent := (spent_invariant hx).transitionDb hmsg.cap (fun _ => ⟨hmsg.price, hmsg.tip⟩) hpays
    h ⟨solvent_entered hmsg hsolvent, rfl, hentered, (Account.Pays.refl _).mono hcost⟩
  have hrun : Keeps x (Account.Pays (cost x msg.sender msg.value)) (msg.entered s) s' :=
    ⟨hspent.trie, fun _ => hspent.steady, fun _ => hspent.account⟩
  refine ⟨fun hne => ?_, ?_⟩
  · refine ((hbought.pays (keeps_setNonce_ne _ hne)).pays hrun).mono (fun h => h.mono ?_)
    rw [cost_ne hne, cost_ne hne]
    omega
  · rintro rfl
    refine ((hbought.trans (keeps_setNonce_self msg.sender _) Account.Pays.sends).trans hrun
      Account.Sends.pays).mono (fun h => Account.Pays.mono h ?_)
    rw [cost_self, cost_self]
    omega

end Messages

end Zond
