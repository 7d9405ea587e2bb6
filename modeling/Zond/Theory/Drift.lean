import Zond.Theory.Tracking
import Zond.Theory.Transition

/-!
# What Others Do to an Account

What is done to an account by others: it is paid, and finalising may delete it when nothing
but stake is in it. A message of its own raises the nonce by one and takes some of the
balance. The writes to a state are told apart by what they are to one address.

## Main definitions

* `Account.Pays`: The account has lost at most so much, and is the same otherwise.
* `Account.Drifts`: What others can do to an account.
* `StateDB.Keeps`: A relation between two states, seen from one address.
-/

namespace Zond

variable {v w : Int} {a m a' : Account} {addr : Address}

namespace Account

/-- The account has lost at most `v` of its balance, and nothing else of it has changed. -/
structure Pays (v : Int) (a a' : Account) : Prop where
  balance : a.balance - v ≤ a'.balance
  rest : a' = { a with balance := a'.balance }

theorem Pays.refl (a : Account) : Pays 0 a a := ⟨by omega, rfl⟩

theorem Pays.trans (h : Pays v a m) (h' : Pays w m a') : Pays (v + w) a a' := by
  have hm := h.balance
  have ha := h'.balance
  refine ⟨by omega, ?_⟩
  have hrest := h'.rest
  rw [h.rest] at hrest
  exact hrest

theorem Pays.mono (h : Pays v a a') (hle : v ≤ w) : Pays w a a' := by
  have ha := h.balance
  exact ⟨by omega, h.rest⟩

/-- What others can do to an account: pay it, and delete it while it has neither nonce nor
    code nor balance. -/
structure Drifts (a a' : Account) : Prop where
  balance : a.balance ≤ a'.balance
  rest : a' = { a with balance := a'.balance } ∨
    a.nonce = 0 ∧ a.code = [] ∧ a' = { Account.new with balance := a'.balance }

theorem Drifts.refl (a : Account) : Drifts a a := ⟨le_refl _, .inl rfl⟩

theorem Pays.drifts (h : Pays 0 a a') : a.Drifts a' := by
  have ha := h.balance
  exact ⟨by omega, .inl h.rest⟩

section Drifts

variable {a m a' : Account}

theorem Drifts.nonce (h : a.Drifts a') : a'.nonce = a.nonce := by
  rcases h.rest with hrest | ⟨hnonce, -, hrest⟩
  · rw [hrest]
  · rw [hrest, hnonce]
    rfl

theorem Drifts.code (h : a.Drifts a') : a'.code = a.code := by
  rcases h.rest with hrest | ⟨-, hcode, hrest⟩
  · rw [hrest]
  · rw [hrest, hcode]
    rfl

theorem Drifts.trans (h : a.Drifts m) (h' : m.Drifts a') : a.Drifts a' := by
  refine ⟨h.balance.trans h'.balance, ?_⟩
  rcases h'.rest with hrest' | ⟨hnonce, hcode, hrest'⟩
  · rcases h.rest with hrest | ⟨hnonce, hcode, hrest⟩
    · rw [hrest] at hrest'
      exact .inl hrest'
    · rw [hrest] at hrest'
      exact .inr ⟨hnonce, hcode, hrest'⟩
  · exact .inr ⟨h.nonce ▸ hnonce, h.code ▸ hcode, hrest'⟩

theorem Drifts.encodable (h : a.Drifts a') (ha : a.Encodable) : a'.Encodable := by
  have hbalance : 0 ≤ a'.balance := ha.1.trans h.balance
  rcases h.rest with hrest | ⟨-, -, hrest⟩
  · rw [hrest]
    exact ⟨hbalance, ha.2⟩
  · rw [hrest]
    exact ⟨hbalance, le_refl _, le_refl _⟩

theorem Drifts.of_nonce (h : a.Drifts a') (hnonce : a.nonce ≠ 0) :
    a' = { a with balance := a'.balance } := by
  rcases h.rest with hrest | ⟨hzero, -, -⟩
  · exact hrest
  · exact absurd hzero hnonce

theorem Drifts.otsBitfield (h : a.Drifts a') (hfield : a.nonce = 0 → a.otsBitfield = []) :
    a'.otsBitfield = a.otsBitfield := by
  rcases h.rest with hrest | ⟨hzero, -, hrest⟩
  · rw [hrest]
  · rw [hrest, hfield hzero]
    rfl

end Drifts

end Account

namespace StateDB

/-- Seen from one address, the second state is reached from the first: it is laid over the
    same trie, the address stays steady, and its accounts are related. -/
structure Keeps (x : Address) (R : Account → Account → Prop) (s s' : StateDB) : Prop where
  trie : s'.trie = s.trie
  steady : s.Steady x → s'.Steady x
  account : s.Steady x → R (s.account x) (s'.account x)

/-- What it costs the address when an amount is taken from another, or from itself. -/
def cost (x addr : Address) (v : Int) : Int := if addr = x then v else 0

@[simp] theorem cost_self (x : Address) (v : Int) : cost x x v = v := if_pos rfl

theorem cost_ne {x : Address} (h : addr ≠ x) (v : Int) : cost x addr v = 0 := if_neg h

theorem cost_nonneg (x addr : Address) (h : addr = x → 0 ≤ v) : 0 ≤ cost x addr v := by
  unfold cost
  split
  · rename_i heq
    exact h heq
  · exact le_refl _

section Keeps

variable {x : Address} {R R' R'' : Account → Account → Prop} {s s' s'' : StateDB}

theorem Keeps.trans (h : Keeps x R s s') (h' : Keeps x R' s' s'')
    (hR : ∀ {a m a'}, R a m → R' m a' → R'' a a') : Keeps x R'' s s'' :=
  ⟨h'.trie.trans h.trie, fun hs => h'.steady (h.steady hs),
    fun hs => hR (h.account hs) (h'.account (h.steady hs))⟩

theorem Keeps.mono (h : Keeps x R s s') (hR : ∀ {a a'}, R a a' → R' a a') : Keeps x R' s s' :=
  ⟨h.trie, h.steady, fun hs => hR (h.account hs)⟩

theorem Keeps.pays (h : Keeps x (Account.Pays v) s s')
    (h' : Keeps x (Account.Pays w) s' s'') : Keeps x (Account.Pays (v + w)) s s'' :=
  h.trans h' Account.Pays.trans

theorem Keeps.drifts (h : Keeps x Account.Drifts s s') (h' : Keeps x Account.Drifts s' s'') :
    Keeps x Account.Drifts s s'' :=
  h.trans h' Account.Drifts.trans

variable (x s)

theorem keeps_refl : Keeps x (Account.Pays 0) s s := ⟨rfl, id, fun _ => .refl _⟩

theorem keeps_prepare (thash : Hash) (i : Nat) : Keeps x (Account.Pays 0) s (s.prepare thash i) :=
  ⟨rfl, fun hs => hs.prepare thash i, fun _ => .refl _⟩

theorem keeps_prepareAccessList (sender : Address) (dst : Option Address) (pre : List Address) :
    Keeps x (Account.Pays 0) s (s.prepareAccessList sender dst pre) :=
  ⟨rfl, fun hs => hs.prepareAccessList sender dst pre, fun _ => .refl _⟩

theorem keeps_getOrNewStateObject (addr : Address) :
    Keeps x (Account.Pays 0) s (s.getOrNewStateObject addr) := by
  refine ⟨trie_getOrNewStateObject s addr, fun hs => hs.getOrNewStateObject addr, fun _ => ?_⟩
  rw [account_getOrNewStateObject]
  exact .refl _

theorem keeps_addBalance (addr : Address) (v : Int) :
    Keeps x (Account.Pays (cost x addr (-v))) s (s.addBalance addr v) := by
  refine ⟨trie_addBalance s addr v, fun hs => hs.addBalance addr v, fun _ => ?_⟩
  rw [account_addBalance]
  by_cases hx : addr = x
  · subst hx
    rw [if_pos rfl, cost_self]
    exact ⟨by dsimp only; omega, rfl⟩
  · rw [if_neg hx, cost_ne hx]
    exact .refl _

theorem keeps_addBalance_of_nonneg (addr : Address) (hv : addr = x → 0 ≤ v) :
    Keeps x (Account.Pays 0) s (s.addBalance addr v) := by
  refine (keeps_addBalance x s addr v).mono (fun h => h.mono ?_)
  by_cases hx : addr = x
  · have hpaid := hv hx
    rw [hx, cost_self]
    omega
  · rw [cost_ne hx]

theorem keeps_subBalance (addr : Address) (v : Int) :
    Keeps x (Account.Pays (cost x addr v)) s (s.subBalance addr v) := by
  refine ⟨trie_subBalance s addr v, fun hs => hs.subBalance addr v, fun _ => ?_⟩
  rw [account_subBalance]
  by_cases hx : addr = x
  · subst hx
    rw [if_pos rfl, cost_self]
    exact ⟨by dsimp only; omega, rfl⟩
  · rw [if_neg hx, cost_ne hx]
    exact .refl _

theorem keeps_modify_ne (f : Account → Account) (hne : addr ≠ x) :
    Keeps x (Account.Pays 0) s (s.modify addr f) := by
  refine ⟨trie_modify s addr f, fun hs => hs.modify addr f, fun _ => ?_⟩
  rw [account_modify, if_neg hne]
  exact .refl _

theorem keeps_createAccount (addr : Address) (habsent : addr = x → s.getStateObject x = none) :
    Keeps x (Account.Pays 0) s (s.createAccount addr) := by
  refine ⟨trie_createAccount s addr, fun hs => hs.createAccount addr habsent, fun _ => ?_⟩
  rw [account_createAccount]
  by_cases hx : addr = x
  · subst hx
    rw [if_pos rfl, account_of_not_exist (habsent rfl)]
    exact .refl _
  · rw [if_neg hx]
    exact .refl _

theorem keeps_finalise : Keeps x Account.Drifts s s.finalise := by
  refine ⟨trie_finalise s, Steady.finalise, fun hs => ?_⟩
  rcases account_finalise_of_unmarked hs.unmarked with hsame | ⟨⟨hnonce, hbalance, hcode⟩, hnew⟩
  · rw [hsame]
    exact .refl _
  · rw [hnew]
    exact ⟨by rw [hbalance]; rfl, .inr ⟨hnonce, hcode, rfl⟩⟩

end Keeps

end StateDB

open StateDB

/-- An account whose nonce went up by one and that has paid at most `v`. -/
def Account.Sends (v : Int) (a a' : Account) : Prop :=
  Account.Pays v { a with nonce := a.nonce + 1 } a'

section Messages

variable {ext : Externals} {x : Address} {ctx : BlockContext} {msg : Message} {s s' : StateDB}
variable {gp gp' : UInt64} {result : ExecutionResult}

theorem nonce_of_preCheck {s₁ : StateDB} (h : preCheck ctx msg s gp = .ok (s₁, gp')) :
    ¬s.getNonce msg.sender + 1 < s.getNonce msg.sender := by
  unfold preCheck at h
  simp only [Outcome.bind_eq_ok, errorIf_eq_ok, exists_const] at h
  exact h.2.2.1

theorem nonce_of_transitionDb (h : transitionDb ext ctx msg s gp = .ok (s', gp', result)) :
    ¬s.getNonce msg.sender + 1 < s.getNonce msg.sender := by
  rcases Outcome.bind_eq_ok.1 h with ⟨⟨s₁, gp₁⟩, hpre, -⟩
  exact nonce_of_preCheck hpre

theorem keeps_setNonce_ne (s : StateDB) (hne : addr ≠ x) :
    Keeps x (Account.Pays 0) s (s.setNonce addr (s.getNonce addr + 1)) :=
  keeps_modify_ne x s _ hne

theorem keeps_setNonce_self (x : Address) (s : StateDB) :
    Keeps x (Account.Sends 0) s (s.setNonce x (s.getNonce x + 1)) := by
  refine ⟨trie_setNonce s x _, fun hs => hs.modify x _, fun _ => ?_⟩
  unfold setNonce
  rw [account_modify, if_pos rfl]
  exact Account.Pays.refl _

theorem Account.Sends.pays (h : Account.Sends v a m)
    (h' : Account.Pays w m a') : Account.Sends (v + w) a a' := Account.Pays.trans h h'

theorem Account.Pays.sends (h : Account.Pays v a m)
    (h' : Account.Sends w m a') : Account.Sends (v + w) a a' := by
  have hm := h.balance
  have hrest := h.rest
  unfold Account.Sends at h' ⊢
  rw [hrest] at h'
  have ha := h'.balance
  exact ⟨by dsimp only at ha ⊢; omega, h'.rest⟩

end Messages

end Zond
