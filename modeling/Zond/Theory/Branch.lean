import Mathlib.Tactic.Linarith
import Zond.Theory.Chronicle
import Zond.Theory.Conduct
import Zond.Theory.Writes

/-!
# Along a Branch

The blocks from genesis to a stored block, and the states they left. Each block is executed
on the state of its parent, which was written when the parent was added and is opened by its
root. So whatever the blocks of a branch do one after the other holds of the state the last
of them left, as long as blocks come under hashes of their own and roots tell states apart.

For the account of a key this gives its history: the balance it was born with, and for each
block of the branch the bookkeeping of the epoch and the transactions.

## Main definitions

* `Store.Branch`: The blocks from genesis to a stored block.
* `Regular`: A block that arrives as blocks should.
* `Account.History`: The life of an account along a branch.

## Theorems

* `branch_invariant`: What every added block keeps holds of every branch and its state.
* `history_of_branch`: The account of a key has a history, and contracts are solvent.
-/

namespace Zond

open Outcome StateDB

variable {db : Store} {k : Hash} {bs : List Block} {b : Block} {c : Chain} {s pre : StateDB}
variable {trie : AssocMap Address Account} {w : Pending} {e : EpochMetaData} {env : ExecEnv}
variable {st₀ st : ExecState}

inductive Store.Branch (db : Store) (genesis : Hash) : Hash → List Block → Prop
  | root {b : Block} (h : db.blocks.get genesis = some b) : Branch db genesis genesis [b]
  | grow {k : Hash} {b : Block} {bs : List Block} (hk : k ≠ genesis)
      (h : db.blocks.get k = some b) (hbefore : Branch db genesis b.parentHash bs) :
      Branch db genesis k (bs ++ [b])

/-- Collecting the blocks of a branch, at most as many as the first number says. -/
def Store.branchTo (db : Store) (genesis : Hash) : Nat → Hash → Option (List Block)
  | 0, _ => none
  | n + 1, k => do
      let b ← db.blocks.get k
      if k = genesis then some [b]
      else do
        let bs ← db.branchTo genesis n b.parentHash
        some (bs ++ [b])

theorem Store.branch_of_branchTo {genesis : Hash} {n : Nat}
    (h : db.branchTo genesis n k = some bs) : db.Branch genesis k bs := by
  induction n generalizing k bs with
  | zero => cases h
  | succ n ih =>
    rcases Option.bind_eq_some_iff.1 h with ⟨b, hb, h⟩
    split at h
    · rename_i hk
      cases h
      rw [hk] at hb ⊢
      exact .root hb
    · rename_i hk
      rcases Option.bind_eq_some_iff.1 h with ⟨before, hbefore, h⟩
      cases h
      exact .grow hk hb (ih hbefore)

theorem Store.Branch.unique {genesis : Hash} {bs' : List Block}
    (h : db.Branch genesis k bs) (h' : db.Branch genesis k bs') : bs = bs' := by
  induction h generalizing bs' with
  | root hb =>
    cases h' with
    | root hb' =>
      rw [hb, Option.some.injEq] at hb'
      rw [hb']
    | grow hk _ _ => exact absurd rfl hk
  | grow hk hb _ ih =>
    cases h' with
    | root _ => exact absurd rfl hk
    | grow _ hb' hbefore =>
      rw [hb, Option.some.injEq] at hb'
      subst hb'
      rw [ih hbefore]

theorem SlotsIncrease.exists_branch {g : Block} (hslots : SlotsIncrease g db)
    (hk : db.blocks.get k = some b) : ∃ bs, db.Branch g.hash k (bs ++ [b]) := by
  -- Slots grow along a branch, so the walk to genesis ends.
  induction hn : b.slotNumber.toNat using Nat.strong_induction_on generalizing k b with
  | _ n ih =>
    by_cases hgenesis : k = g.hash
    · rw [hgenesis] at hk ⊢
      exact ⟨[], .root hk⟩
    · rcases hslots k b hk hgenesis with ⟨p, hp, hlt⟩
      have hless := UInt64.lt_iff_toNat_lt.1 hlt
      rcases ih _ (hn ▸ hless) hp rfl with ⟨bs, hbefore⟩
      exact ⟨bs ++ [p], .grow hgenesis hk hbefore⟩

/-- The root of the state a block leaves is not the zero hash, which opens the empty state,
    and not the root of another state that is stored. -/
def Uncollided (ext : Externals) (c : Chain) (b : Block) : Prop :=
  ∀ parent w, c.db.blocks.get b.parentHash = some parent → c.prepareBlock ext b parent = .ok w →
    w.trieRoot ≠ zeroHash ∧ ∀ trie, c.tries.get w.trieRoot = some trie → trie.get = w.trie.get

/-- A block under a hash that is not in the store, past the slot of genesis, whose state gets
    a root of its own. -/
structure Unseen (ext : Externals) (c : Chain) (b : Block) : Prop where
  unseen : c.db.core b.hash = none
  slot : b.slotNumber ≠ 0
  root : Uncollided ext c b

/-- The root of the state a block leaves is new, and not the zero hash. -/
def newRoot (ext : Externals) (c : Chain) (b : Block) : Bool :=
  match c.db.blocks.get b.parentHash with
  | none => true
  | some parent => match c.prepareBlock ext b parent with
    | .error _ => true
    | .ok w => decide (w.trieRoot ≠ zeroHash) && (c.tries.get w.trieRoot).isNone

theorem uncollided_of_newRoot {ext : Externals}
    (h : newRoot ext c b = true) : Uncollided ext c b := by
  intro parent w hparent hw
  unfold newRoot at h
  rw [hparent] at h
  dsimp only at h
  rw [hw] at h
  dsimp only at h
  rw [Bool.and_eq_true] at h
  refine ⟨of_decide_eq_true h.1, fun trie htrie => ?_⟩
  rw [htrie] at h
  cases h.2

theorem Unseen.undisputed {ext : Externals} (h : Unseen ext c b) : Undisputed c b := by
  intro r hr
  rw [h.unseen] at hr
  cases hr

section Growth

variable {ext : Externals} {g : Block} {c c' : Chain} {b : Block} {now : UInt64}

theorem Chain.stateAt_eq_ok : c.stateAt k = .ok s ↔
    ∃ r, c.db.core k = some r ∧ Chain.openState c.tries r.trieRoot = .ok s := by
  unfold Chain.stateAt Store.getBlockMetaData Store.core
  rw [bind_eq_ok]
  simp only [orFail_eq_ok, Option.map_eq_some_iff]
  constructor
  · rintro ⟨bm, hget, hopen⟩
    exact ⟨bm.core, ⟨bm, hget, rfl⟩, hopen⟩
  · rintro ⟨r, ⟨bm, hget, rfl⟩, hopen⟩
    exact ⟨bm, hget, hopen⟩

/-- A store that has genesis, and the parent of every other block. -/
structure Parented (g : Block) (c : Chain) : Prop where
  sound : c.db.Sound
  genesis : ∃ x, c.db.blocks.get g.hash = some x
  parent : ∀ k x, c.db.blocks.get k = some x → k ≠ g.hash →
    ∃ p, c.db.blocks.get x.parentHash = some p

theorem Parented.ne_of_stored (hp : Parented g c) (hu : Unseen ext c b) {x : Block}
    (hx : c.db.blocks.get k = some x) : k ≠ b.hash := by
  rintro rfl
  rcases hp.sound.recorded _ x hx with ⟨r, hr, -⟩
  rw [hu.unseen] at hr
  cases hr

/-- What an added block leaves: itself over the old blocks, and a state that reads as the one
    it computed. -/
structure Grown (ext : Externals) (c c' : Chain) (b : Block) (w : Pending) : Prop where
  stored : ∃ pbloom bloom, c'.db.blocks.get b.hash = some (b.updateRoots w.trieRoot pbloom bloom)
  others : ∀ k, k ≠ b.hash → c'.db.blocks.get k = c.db.blocks.get k
  cores : ∀ k, k ≠ b.hash → c'.db.core k = c.db.core k
  tries : c'.tries = c.tries.putNew w.trieRoot w.trie
  state : ∃ trie, c'.stateAt b.hash = .ok (StateDB.new trie) ∧ trie.get = w.trie.get

theorem openState_new {tries : Tries} {root : Hash}
    (hroot : root ≠ zeroHash) (hsame : ∀ t, tries.get root = some t → t.get = trie.get) :
    ∃ t, Chain.openState (tries.putNew root trie) root = .ok (StateDB.new t) ∧
      t.get = trie.get := by
  unfold Chain.openState
  rw [if_neg hroot, AssocMap.get_putNew]
  cases hget : tries.get root with
  | none =>
    refine ⟨trie, ?_, rfl⟩
    simp only [if_true]
    rfl
  | some t =>
    refine ⟨t, ?_, hsame t hget⟩
    simp only [if_true]
    rfl

theorem grown_of_addBlock (hp : Parented g c) (hu : Unseen ext c b)
    (h : c.addBlock ext now b = .ok (true, c')) :
    ∃ parentBlock w, c.db.blocks.get b.parentHash = some parentBlock ∧
      c.prepareBlock ext b parentBlock = .ok w ∧ Grown ext c c' b w := by
  rcases added_of_addBlock hp.sound hu.slot h with ⟨a, ha⟩
  rcases readBlock_of_addBlock h with ⟨w, hread, hwrite⟩
  rcases readBlock_of_some hread with ⟨hw, hparent⟩
  have hrelinked := (relinked_of_writeBlock hp.sound.keyed hwrite).2
  have htries := tries_of_writeBlock hwrite
  rcases ha.blocks with ⟨pbloom, bloom, hblocks⟩
  rw [← ha.sameTree.blocks] at hblocks
  -- The block is stored once, so the two accounts of its root agree.
  have hroot : a.trieRoot = w.trieRoot := by
    rcases (prepareBlock_of_ok hw).2.1 with ⟨pbloom', bloom', hblock⟩
    have hstored : c'.db.blocks.get b.hash = some w.block := by
      rw [hrelinked.blocks, w.write_eq c.db]
      rw [hblock]
      exact AssocMap.get_put_self ..
    rw [hblocks, AssocMap.get_put_self, hblock, Option.some.injEq] at hstored
    exact congrArg (fun x : Block => x.header.root) hstored
  rw [hroot] at hblocks
  rcases hu.root _ w hparent hw with ⟨hzero, hsame⟩
  have hself : b.parentHash ≠ b.hash := hp.ne_of_stored hu hparent
  refine ⟨w.parentBlock, w, hparent, hw, ?_, ?_, fun k hk => ha.core_of_ne hk, htries, ?_⟩
  · exact ⟨pbloom, bloom, by rw [hblocks, AssocMap.get_put_self]⟩
  · intro k hk
    rw [hblocks, AssocMap.get_put_ne _ _ (fun heq => hk heq.symm)]
  · rcases openState_new hzero hsame with ⟨trie, hopen, hget⟩
    refine ⟨trie, ?_, hget⟩
    rw [Chain.stateAt_eq_ok, ha.core_after, if_neg hself, if_pos rfl]
    refine ⟨_, rfl, ?_⟩
    rw [htries]
    show Chain.openState _ a.trieRoot = _
    rw [hroot]
    exact hopen

theorem Parented.addBlock (hp : Parented g c) (hu : Unseen ext c b)
    (h : c.addBlock ext now b = .ok (true, c')) : Parented g c' := by
  rcases added_of_addBlock hp.sound hu.slot h with ⟨a, ha⟩
  rcases grown_of_addBlock hp hu h with ⟨parent, w, hparent, -, hgrown⟩
  refine ⟨ha.sound hp.sound hu.undisputed, ?_, ?_⟩
  · rcases hp.genesis with ⟨x, hx⟩
    rw [hgrown.others _ (hp.ne_of_stored hu hx)]
    exact ⟨x, hx⟩
  intro k x hx hk
  have hold : ∃ p, c.db.blocks.get x.parentHash = some p := by
    by_cases hnew : k = b.hash
    · rcases hgrown.stored with ⟨pbloom, bloom, hstored⟩
      rw [hnew, hstored, Option.some.injEq] at hx
      rw [← hx]
      exact ⟨parent, hparent⟩
    · rw [hgrown.others k hnew] at hx
      exact hp.parent k x hx hk
  rcases hold with ⟨p, hp'⟩
  refine ⟨p, ?_⟩
  rw [hgrown.others _ (hp.ne_of_stored hu hp')]
  exact hp'

theorem Store.Branch.before (hp : Parented g c) (hu : Unseen ext c b)
    (hgrown : Grown ext c c' b w) (h : c'.db.Branch g.hash k bs)
    (hk : k ≠ b.hash) : c.db.Branch g.hash k bs := by
  induction h with
  | root hx =>
    rw [hgrown.others _ hk] at hx
    exact .root hx
  | @grow k x bs hne hx _ ih =>
    rw [hgrown.others _ hk] at hx
    rcases hp.parent k x hx hne with ⟨p, hparent⟩
    exact .grow hne hx (ih (hp.ne_of_stored hu hparent))

end Growth

section Invariant

variable {ext : Externals} {g : Block} {preState : List (List UInt8 × UInt64)} {c₀ c : Chain}
variable {P : Chain → Block → Prop}

/-- What holds of genesis and its state, and what every block added to a branch keeps, holds of
    every branch and its state. The blocks of a branch are the added ones up to their roots,
    and a state is known by what it reads. -/
theorem branch_invariant (I : List Block → StateDB → Prop) (hg : g.slotNumber = 0)
    (h₀ : genesisChain ext g preState = .ok c₀) (hP : ∀ c b, P c b → Unseen ext c b)
    (hgenesis : ∀ b s, c₀.db.blocks.get g.hash = some b → c₀.stateAt g.hash = .ok s → I [b] s)
    (hopen : ∃ s, c₀.stateAt g.hash = .ok s)
    (hstep : ∀ {c : Chain} {b parent : Block} {w : Pending} {bs : List Block} {s : StateDB}
      {r : Hash} {p t : Bloom} {trie : AssocMap Address Account}, Run ext P c₀ c → P c b →
      c.db.Branch g.hash b.parentHash bs → c.stateAt b.parentHash = .ok s → I bs s →
      c.prepareBlock ext b parent = .ok w → trie.get = w.trie.get →
      I (bs ++ [b.updateRoots r p t]) (StateDB.new trie))
    (hrun : Run ext P c₀ c) (hbranch : c.db.Branch g.hash k bs) :
    ∃ s, c.stateAt k = .ok s ∧ I bs s := by
  rcases genesisNode_of_ok hg h₀ with ⟨e, trie, total, hnode⟩
  have hstart : Parented g c₀ := by
    rcases hnode.blocks with ⟨pbloom, bloom, hblocks⟩
    refine ⟨hnode.sound hg, ?_, fun k x hx hk => absurd (hnode.block hx).1 hk⟩
    rw [hblocks, AssocMap.get_put_self]
    exact ⟨_, rfl⟩
  have hinv := hrun.invariant (fun c => Run ext P c₀ c ∧ Parented g c ∧
      ∀ k bs, c.db.Branch g.hash k bs → ∃ s, c.stateAt k = .ok s ∧ I bs s) ?_ ?_
  · exact hinv.2.2 k bs hbranch
  · rintro c c' now b ⟨hreach, hp, hi⟩ hPb hadd
    have hu := hP c b hPb
    rcases grown_of_addBlock hp hu hadd with ⟨parent, w, hparent, hw, hgrown⟩
    refine ⟨hreach.tail ⟨now, b, true, hPb, hadd⟩, hp.addBlock hu hadd, ?_⟩
    intro k bs hbranch
    by_cases hk : k = b.hash
    · -- The new block: its parent's branch was there before.
      cases hbranch with
      | root hx =>
        rcases hp.genesis with ⟨x, hstored⟩
        exact absurd hk (hp.ne_of_stored hu hstored)
      | @grow _ x bs hne hx hbefore =>
        rcases hgrown.stored with ⟨pbloom, bloom, hstored⟩
        rw [hk, hstored, Option.some.injEq] at hx
        subst hx
        have hold := hbefore.before hp hu hgrown (hp.ne_of_stored hu hparent)
        rcases hi _ bs hold with ⟨s, hs, hI⟩
        rcases hgrown.state with ⟨trie, hstate, hget⟩
        rw [hk]
        exact ⟨_, hstate, hstep hreach hPb hold hs hI hw hget⟩
    · rcases hi k bs (hbranch.before hp hu hgrown hk) with ⟨s, hs, hI⟩
      refine ⟨s, ?_, hI⟩
      rcases Chain.stateAt_eq_ok.1 hs with ⟨r, hr, hopened⟩
      rw [Chain.stateAt_eq_ok, hgrown.cores k hk, hgrown.tries]
      exact ⟨r, hr, openState_putNew hopened⟩
  · refine ⟨.refl, hstart, fun k bs hbranch => ?_⟩
    cases hbranch with
    | root hx =>
      rcases hopen with ⟨s, hs⟩
      exact ⟨s, hs, hgenesis _ s hx hs⟩
    | grow hne hx _ => exact absurd (hnode.block hx).1 hne

end Invariant

namespace Account

/-- What the bookkeeping of an epoch does to an account: stake and pending stake move. -/
structure Moves (a a' : Account) : Prop where
  nonce : a'.nonce = a.nonce
  code : a'.code = a.code
  otsBitfield : a'.otsBitfield = a.otsBitfield
  encodable : a.Encodable → a'.Encodable
  small : a.Small → a'.Small

theorem Moves.refl (a : Account) : Moves a a := ⟨rfl, rfl, rfl, id, id⟩

theorem Moves.trans {a m a' : Account} (h : Moves a m) (h' : Moves m a') : Moves a a' :=
  ⟨h'.nonce.trans h.nonce, h'.code.trans h.code, h'.otsBitfield.trans h.otsBitfield,
    fun ha => h'.encodable (h.encodable ha), fun ha => h'.small (h.small ha)⟩

/-- One block in the life of an account: the bookkeeping of the epoch, the transactions, and
    for genesis the bookkeeping again. -/
def Lives (c : Crypto) (x : Address) (b : Block) (a a' : Account) : Prop :=
  ∃ m m' m'', a.Moves m ∧ m.Runs c x b.allTransactions m' ∧ m'.Moves m'' ∧ m''.Drifts a'

/-- The life of an account along a branch, from the balance it was born with. -/
inductive History (c : Crypto) (x : Address) : List Block → Account → Prop
  | birth {v : Int} (hv : 0 ≤ v) : History c x [] { Account.new with balance := v }
  | block {bs : List Block} {b : Block} {a a' : Account} (hbefore : History c x bs a)
      (hb : a.Lives c x b a') : History c x (bs ++ [b]) a'

end Account

section Bookkeeping

variable {ext : Externals} {x : Address} {s s' : StateDB} {db : Store}

theorem keeps_updateStakeValidator (se : StateDB × EpochMetaData) (pk : PublicKey) :
    Keeps x Account.Moves se.1 (updateStakeValidator ext se pk).1 := by
  rcases se with ⟨s, e⟩
  have hopen := keeps_getOrNewStateObject x s (ext.getAddressFromUnSizedPK pk)
  have hsame := account_getOrNewStateObject s (ext.getAddressFromUnSizedPK pk) x
  unfold updateStakeValidator
  dsimp only
  generalize s.getOrNewStateObject (ext.getAddressFromUnSizedPK pk) = opened at hopen hsame
  generalize ext.getAddressFromUnSizedPK pk = addr
  split
  · refine ⟨?_, fun hs => ((hopen.steady hs).addBalance addr _).setStakeBalance addr _,
      fun hs => ?_⟩
    · rw [trie_setStakeBalance, trie_addBalance, hopen.trie]
    · unfold setStakeBalance getStakeBalance
      rw [account_modify, account_addBalance, account_addBalance, hsame]
      by_cases hx : addr = x
      · subst hx
        rw [if_pos rfl, if_pos rfl, hsame]
        refine ⟨rfl, rfl, rfl, fun ha => ⟨?_, le_refl _, ha.2.2⟩, fun ha => ⟨by norm_num, ha.2⟩⟩
        exact Int.add_nonneg ha.1 ha.2.1
      · rw [if_neg hx, if_neg hx]
        exact .refl _
  · refine ⟨?_, fun hs => (((hopen.steady hs).addBalance addr _).setStakeBalance addr
      _).setPendingStakeBalance addr _, fun hs => ?_⟩
    · rw [trie_setPendingStakeBalance, trie_setStakeBalance, trie_addBalance, hopen.trie]
    · unfold setPendingStakeBalance setStakeBalance getStakeBalance getPendingStakeBalance
      rw [account_modify, account_modify, account_modify, account_addBalance, account_addBalance,
        hsame]
      by_cases hx : addr = x
      · subst hx
        simp only [if_true, hsame]
        refine ⟨rfl, rfl, rfl, fun ha => ⟨?_, ha.2.2, le_refl _⟩, fun ha => ⟨ha.2, by norm_num⟩⟩
        exact Int.add_nonneg ha.1 ha.2.1
      · simp only [if_neg hx]
        exact .refl _

theorem Booked.keeps (h : Booked ext s s') : Keeps x Account.Moves s s' :=
  h.induction (Keeps x Account.Moves s)
    (fun se pk hse => hse.trans (keeps_updateStakeValidator se pk) Account.Moves.trans)
    ⟨rfl, id, fun _ => .refl _⟩

theorem Booked.solvent {vm : Machine} (h : Booked vm s s') (hvm : vm.Apart) (hs : s.Solvent vm) :
    s'.Solvent vm := by
  refine h.induction (Solvent vm) (fun se pk hse => ?_) hs
  have hopened := hse.getOrNewStateObject (vm.getAddressFromUnSizedPK pk)
  have hnot := hvm.not_creates pk
  unfold updateStakeValidator setStakeBalance setPendingStakeBalance
  dsimp only
  generalize se.1.getOrNewStateObject (vm.getAddressFromUnSizedPK pk) = opened at hopened
  generalize vm.getAddressFromUnSizedPK pk = addr at hnot
  have hpaid {v : Int} : (opened.addBalance addr v).Solvent vm :=
    hopened.addBalance addr fun hc => absurd hc hnot
  split
  · dsimp only
    refine hpaid.modify addr ?_ ?_ <;> exact fun _ => rfl
  · dsimp only
    refine (hpaid.modify addr ?_ ?_).modify addr ?_ ?_ <;> exact fun _ => rfl

end Bookkeeping

section History

variable {ext : Externals} {x : Address} {g : Block} {preState : List (List UInt8 × UInt64)}
variable {c₀ c : Chain}

def ModeratePreState (preState : List (List UInt8 × UInt64)) : Prop :=
  ∀ ab ∈ preState, ab.2.toNat < 2 ^ 63

instance : DecidablePred ModeratePreState := fun preState =>
  inferInstanceAs (Decidable (∀ ab ∈ preState, _))

/-- An account that was only given a balance, in a state laid over nothing. -/
structure Born (x : Address) (s : StateDB) : Prop where
  trie : s.trie = AssocMap.empty
  steady : s.Steady x
  account : ∃ v, s.account x = { Account.new with balance := v }

theorem Born.setBalance (h : Born x s) (addr : Address) (v : Int) :
    Born x (s.setBalance addr v) := by
  rcases h.account with ⟨w, haccount⟩
  refine ⟨(trie_modify ..).trans h.trie, h.steady.modify addr _, ?_⟩
  unfold StateDB.setBalance
  rw [account_modify]
  by_cases hx : addr = x
  · rw [if_pos hx, hx, haccount]
    exact ⟨v, rfl⟩
  · rw [if_neg hx]
    exact ⟨w, haccount⟩

theorem born_of_genesisPreState (h : genesisPreState ext g preState = .ok pre) : Born x pre := by
  unfold genesisPreState at h
  rcases bind_eq_ok.1 h with ⟨first, -, h⟩
  rcases errorIf_bind_eq_ok.1 h with ⟨-, h⟩
  rw [pure_eq_ok] at h
  rw [← h]
  have hstart : Born x (StateDB.new AssocMap.empty) := ⟨rfl, steady_new .empty x, 0, rfl⟩
  exact List.foldlRecOn (motive := fun (s : StateDB) => Born x s) _ _ (hstart.setBalance _ _)
    (fun s hs _ _ => hs.setBalance _ _)

theorem balance_of_genesisPreState (hpre : ModeratePreState preState)
    (h : genesisPreState ext g preState = .ok pre) : 0 ≤ (pre.account x).balance := by
  unfold genesisPreState at h
  rcases bind_eq_ok.1 h with ⟨first, -, h⟩
  rcases errorIf_bind_eq_ok.1 h with ⟨-, h⟩
  rw [pure_eq_ok] at h
  rw [← h]
  have hset : ∀ (s : StateDB) (addr : Address) (v : Int), 0 ≤ v → 0 ≤ (s.account x).balance →
      0 ≤ ((s.setBalance addr v).account x).balance := by
    intro s addr v hv hs
    unfold StateDB.setBalance
    rw [account_modify]
    split
    · exact hv
    · exact hs
  refine List.foldlRecOn (motive := fun (s : StateDB) => 0 ≤ (s.account x).balance) _ _
    (hset _ _ _ (by decide) (le_refl _)) ?_
  intro s hs ab hab
  exact hset s _ _ ((int64_nonneg_iff _).2 (hpre ab hab)) hs

theorem solvent_of_genesisPreState {vm : Machine} (hpre : ModeratePreState preState)
    (h : genesisPreState vm g preState = .ok pre) : pre.Solvent vm := by
  refine ⟨fun y => ?_, fun y => ?_⟩
  · rcases (born_of_genesisPreState (x := y) h).account with ⟨v, hv⟩
    refine ⟨fun hne => absurd (congrArg Account.code hv) hne, fun _ => ?_⟩
    exact balance_of_genesisPreState hpre h
  · rw [(born_of_genesisPreState (x := y) h).trie]
    exact vm.sound_new y

theorem StateDB.Solvent.congr {vm : Machine} {trie' : AssocMap Address Account}
    (h : (StateDB.new trie).Solvent vm) (htrie : trie'.get = trie.get) :
    (StateDB.new trie').Solvent vm := by
  refine StateDB.Solvent.new fun y => ?_
  have hy := h.account y
  rw [account_new] at hy ⊢
  rw [htrie]
  exact hy

theorem account_of_commit (hs : s.Steady x)
    (hfit : (s.account x).Encodable) (htrie : trie.get = s.finalise.commit.get) :
    (s.account x).Drifts ((StateDB.new trie).account x) := by
  have hdrift := ((keeps_finalise x s).drifts (keeps_finalise x _)).account hs
  rw [account_new, htrie, account_commit hs.finalise.tracked (hdrift.encodable hfit)]
  exact hdrift

theorem Account.Lives.encodable {c : Crypto} {b : Block} {a a' : Account}
    (h : a.Lives c x b a') (ha : a.Encodable) : a'.Encodable := by
  rcases h with ⟨m, m', m'', hmoves, hruns, hmoves', hdrifts⟩
  exact hdrifts.encodable (hmoves'.encodable (hruns.encodable (hmoves.encodable ha)))

theorem Account.Lives.code {c : Crypto} {b : Block} {a a' : Account} (h : a.Lives c x b a') :
    a'.code = a.code := by
  rcases h with ⟨m, m', m'', hmoves, hruns, hmoves', hdrifts⟩
  rw [hdrifts.code, hmoves'.code, hruns.code, hmoves.code]

theorem Account.History.sound {c : Crypto} {bs : List Block} {a : Account}
    (h : Account.History c x bs a) : a.Encodable ∧ a.code = [] := by
  induction h with
  | birth hv => exact ⟨⟨hv, le_refl _, le_refl _⟩, rfl⟩
  | block _ hb ih => exact ⟨hb.encodable ih.1, hb.code.trans ih.2⟩

theorem Account.History.small {c : Crypto} {bs : List Block} {a : Account}
    (h : Account.History c x bs a) : a.Small := by
  induction h with
  | birth hv => exact (by decide : Account.new.Small)
  | block _ hb ih =>
    rcases hb with ⟨m, m', m'', hmoves, hruns, hmoves', hdrifts⟩
    exact hdrifts.small (hmoves'.small (hruns.small (hmoves.small ih)))

/-- A block that arrives as blocks should, with amounts that are what they are read as. -/
structure Regular (ext : Externals) (c : Chain) (b : Block) : Prop extends Unseen ext c b where
  moderate : b.Moderate

def regular (ext : Externals) (c : Chain) (b : Block) : Bool :=
  (c.db.core b.hash).isNone && decide (b.slotNumber ≠ 0) && decide b.Moderate && newRoot ext c b

theorem regular_of_test (h : regular ext c b = true) : Regular ext c b := by
  unfold regular at h
  simp only [Bool.and_eq_true, decide_eq_true_eq] at h
  rcases h with ⟨⟨⟨hnone, hslot⟩, hmoderate⟩, hroot⟩
  exact { unseen := Option.isNone_iff_eq_none.1 hnone, slot := hslot
          root := uncollided_of_newRoot hroot, moderate := hmoderate }

theorem steady_of_stateAt (hs : c.stateAt k = .ok s) : s.Steady x := by
  rcases Chain.stateAt_eq_ok.1 hs with ⟨r, -, hopen⟩
  unfold Chain.openState at hopen
  split at hopen
  · cases hopen
    exact steady_new _ x
  · rcases bind_eq_ok.1 hopen with ⟨t, -, hnew⟩
    cases hnew
    exact steady_new _ x

theorem Prepared.opened_eq {parent : Block} {pm : BlockMetaData} {opened moved : StateDB}
    (hp : Prepared ext c b parent w pm opened moved e env st₀ st)
    (hs : c.stateAt b.parentHash = .ok s) : opened = s := by
  unfold Chain.stateAt at hs
  rw [hp.record, ok_bind, hp.opens, Except.ok.injEq] at hs
  exact hs

/-- The parent of a block is stored and of the same epoch. -/
def Chain.SameEpoch (c : Chain) (b : Block) : Prop :=
  ∃ r, c.db.core b.parentHash = some r ∧ epochOf r.slotNumber = b.epoch

variable {vm : Machine} (hvm : vm.Apart)
include hvm

/-- What a moderate block leaves has solvent contracts, on a state that had. -/
theorem Prepared.solvent {parent : Block} {pm : BlockMetaData} {opened moved : StateDB}
    (hp : Prepared vm c b parent w pm opened moved e env st₀ st) (hmoderate : b.Moderate)
    (hopened : opened.Solvent vm) : st₀.statedb.Solvent vm ∧ (StateDB.new w.trie).Solvent vm := by
  have hstart : st₀.statedb.Solvent vm := by
    rw [hp.start]
    exact (booked_of_calculateEpochMetaData hp.moves).solvent hvm hopened
  refine ⟨hstart, ?_⟩
  rw [hp.trie]
  exact (solvent_processUpTo hvm (hp.block ▸ hmoderate) (attestorReward_of_ok hp.loops) hstart
    (processUpTo_length hp.loops)).finalise.commit

theorem Loaded.solvent {s' : StateDB} {first : ProtocolTransaction} {ctx : StateContext}
    {q : Processed} (hl : Loaded vm g preState c₀ pre first ctx env st₀ st s' e q)
    (hmoderate : g.Moderate) (hpre : ModeratePreState preState) :
    st₀.statedb.Solvent vm ∧ (StateDB.new s'.finalise.commit).Solvent vm := by
  have hstart : st₀.statedb.Solvent vm := hl.start ▸ solvent_of_genesisPreState hpre hl.balances
  have hrun := solvent_processUpTo hvm (hl.block ▸ hmoderate) (attestorReward_of_ok hl.loops) hstart
    (processUpTo_length hl.loops)
  exact ⟨hstart, ((booked_of_genesisEpoch hl.epoch).solvent hvm hrun).finalise.commit⟩

variable (hx : ¬vm.Creates x) (hreserve : Config.coinBaseAddress ≠ x)
include hx hreserve

/-- What a block does to the account of a key. Where the parent is of the same epoch, there is
    no bookkeeping before the transactions. -/
theorem runs_of_prepareBlock {parent : Block} (hmoderate : b.Moderate)
    (hs : c.stateAt b.parentHash = .ok s) (hfit : (s.account x).Encodable)
    (hsolvent : s.Solvent vm) (hw : c.prepareBlock vm b parent = .ok w)
    (htrie : trie.get = w.trie.get) :
    ∃ m m', (s.account x).Moves m ∧ (Chain.SameEpoch c b → m = s.account x) ∧
      m.Runs vm.toCrypto x b.allTransactions m' ∧ m'.Drifts ((StateDB.new trie).account x) := by
  rcases prepareBlock_stages hw with ⟨pm, opened, moved, e, env, st₀, st, hp⟩
  have hopened := hp.opened_eq hs
  subst hopened
  have hsteady : opened.Steady x := steady_of_stateAt hs
  have hmoved := (booked_of_calculateEpochMetaData hp.moves).keeps (x := x)
  have hmoves := hmoved.account hsteady
  have hruns := runs_processTransactions hvm hx hreserve (hp.block ▸ hmoderate)
    (hp.start ▸ hmoved.steady hsteady) (hp.solvent hvm hmoderate hsolvent).1 hp.loops
  rw [hp.start, hp.block] at hruns
  have hrun := hruns.account (hmoved.steady hsteady)
  refine ⟨_, _, hmoves, ?_, hrun, ?_⟩
  · rintro ⟨r, hr, hepoch⟩
    rcases calculateEpochMetaData_of_ok hp.moves with ⟨pm', hpm', ⟨-, -, hsame⟩ | ⟨hne, -⟩⟩
    · rw [hsame]
    · rw [Store.core_of_get (orFail_eq_ok.1 hpm'), Option.some.injEq] at hr
      rw [← hr] at hepoch
      exact absurd hepoch hne
  · rw [hp.trie] at htrie
    exact account_of_commit (hruns.steady (hmoved.steady hsteady))
      (hrun.encodable (hmoves.encodable hfit)) htrie

theorem lives_of_prepareBlock {parent : Block} {r : Hash} {p t : Bloom} (hmoderate : b.Moderate)
    (hs : c.stateAt b.parentHash = .ok s) (hfit : (s.account x).Encodable)
    (hsolvent : s.Solvent vm) (hw : c.prepareBlock vm b parent = .ok w)
    (htrie : trie.get = w.trie.get) :
    (s.account x).Lives vm.toCrypto x (b.updateRoots r p t) ((StateDB.new trie).account x) ∧
      (StateDB.new trie).Solvent vm := by
  rcases prepareBlock_stages hw with ⟨pm, opened, moved, e, env, st₀, st, hp⟩
  rcases runs_of_prepareBlock hvm hx hreserve hmoderate hs hfit hsolvent hw htrie with
    ⟨m, m', hmoves, -, hruns, hdrifts⟩
  have hstored := (hp.solvent hvm hmoderate ((hp.opened_eq hs).symm ▸ hsolvent)).2
  exact ⟨⟨m, m', m', hmoves, hruns, .refl _, hdrifts⟩, hstored.congr htrie⟩

theorem history_of_genesis (hmoderate : g.Moderate) (hpre : ModeratePreState preState)
    {s' : StateDB} {first : ProtocolTransaction} {ctx : StateContext} {q : Processed}
    (hl : Loaded vm g preState c₀ pre first ctx env st₀ st s' e q) {r : Hash} {p t : Bloom}
    (htrie : trie.get = s'.finalise.commit.get) :
    Account.History vm.toCrypto x [g.updateRoots r p t] ((StateDB.new trie).account x) := by
  have hborn : Born x pre := born_of_genesisPreState hl.balances
  have hv := balance_of_genesisPreState (x := x) hpre hl.balances
  rcases hborn.account with ⟨v, hbirth⟩
  rw [hbirth] at hv
  have hruns := runs_processTransactions hvm hx hreserve (hl.block ▸ hmoderate)
    (hl.start ▸ hborn.steady) (hl.solvent hvm hmoderate hpre).1 hl.loops
  rw [hl.start, hl.block] at hruns
  have hmoves := (booked_of_genesisEpoch hl.epoch).keeps (x := x)
  have hrun := hruns.account hborn.steady
  have hmove := hmoves.account (hruns.steady hborn.steady)
  have hfit : (pre.account x).Encodable := by
    rw [hbirth]
    exact ⟨hv, le_refl _, le_refl _⟩
  have hstored := account_of_commit (hmoves.steady (hruns.steady hborn.steady))
    (hmove.encodable (hrun.encodable hfit)) htrie
  have hlives : (pre.account x).Lives vm.toCrypto x (g.updateRoots r p t)
      ((StateDB.new trie).account x) := ⟨_, _, _, .refl _, hrun, hmove, hstored⟩
  rw [hbirth] at hlives
  exact (Account.History.birth hv).block hlives

end History

section Run

variable {ext : Externals} {x : Address} {g : Block} {preState : List (List UInt8 × UInt64)}
variable {c₀ c : Chain}

theorem stateAt_genesis (hg : g.slotNumber = 0) (h₀ : genesisChain ext g preState = .ok c₀)
    (hzero : c₀.tries.get zeroHash = none) {s' : StateDB} {first : ProtocolTransaction}
    {ctx : StateContext} {q : Processed}
    (hl : Loaded ext g preState c₀ pre first ctx env st₀ st s' e q) :
    c₀.stateAt g.hash = .ok (StateDB.new s'.finalise.commit) ∧
      ∃ r p t, c₀.db.blocks.get g.hash = some (g.updateRoots r p t) := by
  rcases genesisNode_of_ok hg h₀ with ⟨e₁, trie, total, hnode⟩
  rcases sealBlock_of_ok hl.sealing with ⟨-, -, -, -, htries, -⟩
  -- One state is stored, so the node and the stages tell of the same one.
  have hget : c₀.tries.get (ext.stateRoot trie.get) = some trie := by
    rw [hnode.tries, AssocMap.get_put_self]
  have hsame : s'.finalise.commit = trie := by
    have hput := hget
    rw [hl.tries, htries, AssocMap.get_putNew] at hput
    split at hput
    · exact Option.some.inj hput
    · cases hput
  have hroot : ext.stateRoot trie.get ≠ zeroHash := by
    intro heq
    rw [heq, hzero] at hget
    cases hget
  refine ⟨?_, ?_⟩
  · rw [Chain.stateAt_eq_ok, hnode.core, if_pos rfl]
    refine ⟨_, rfl, ?_⟩
    show Chain.openState c₀.tries (ext.stateRoot trie.get) = _
    unfold Chain.openState
    rw [if_neg hroot, hget, hsame]
    rfl
  · rcases hnode.blocks with ⟨p, t, hblocks⟩
    exact ⟨_, p, t, by rw [hblocks, AssocMap.get_put_self]⟩

theorem history_of_branch {vm : Machine} (hvm : vm.Apart) (hx : ¬vm.Creates x)
    (hreserve : Config.coinBaseAddress ≠ x)
    (hg : g.slotNumber = 0) (hmoderate : g.Moderate) (hpre : ModeratePreState preState)
    (h₀ : genesisChain vm g preState = .ok c₀) (hzero : c₀.tries.get zeroHash = none)
    (hrun : Run vm (Regular vm) c₀ c) (hbranch : c.db.Branch g.hash k bs) :
    ∃ s, c.stateAt k = .ok s ∧ Account.History vm.toCrypto x bs (s.account x) ∧
      s.Solvent vm := by
  rcases loaded_of_genesisChain h₀ with ⟨pre, first, ctx, env, st₀, st, s', e, q, hl⟩
  rcases stateAt_genesis hg h₀ hzero hl with ⟨hstate, r, p, t, hstored⟩
  refine branch_invariant (fun bs s => Account.History vm.toCrypto x bs (s.account x) ∧
    s.Solvent vm) hg h₀ (fun _ _ hP => hP.toUnseen) ?_ ⟨_, hstate⟩ ?_ hrun hbranch
  · intro b s hb hs
    rw [hstored, Option.some.injEq] at hb
    rw [hstate, Except.ok.injEq] at hs
    rw [← hb, ← hs]
    exact ⟨history_of_genesis hvm hx hreserve hmoderate hpre hl rfl, (hl.solvent hvm hmoderate hpre).2⟩
  · intro c b parent w bs s r p t trie _ hP _ hs hI hw htrie
    rcases lives_of_prepareBlock hvm hx hreserve hP.moderate hs hI.1.sound.1 hI.2 hw htrie with
      ⟨hlives, hsolvent⟩
    exact ⟨hI.1.block hlives, hsolvent⟩

end Run

section Tries

variable {ext : Externals} {c₀ c : Chain} {Q : AssocMap Address Account → Prop}

/-- What all stored tries have the trie of an opened state has. -/
theorem trie_of_openState {tries : Tries} {r : Hash} {s : StateDB} (hempty : Q .empty)
    (htries : ∀ r trie, tries.get r = some trie → Q trie) (h : Chain.openState tries r = .ok s) :
    ∃ trie, s = StateDB.new trie ∧ Q trie := by
  unfold Chain.openState at h
  split at h
  · cases h
    exact ⟨_, rfl, hempty⟩
  · rcases bind_eq_ok.1 h with ⟨trie, htrie, hnew⟩
    cases hnew
    exact ⟨trie, rfl, htries r trie (orFail_eq_ok.1 htrie)⟩

theorem Loaded.tries_all {g : Block} {preState : List (List UInt8 × UInt64)} {pre s' : StateDB}
    {first : ProtocolTransaction} {ctx : StateContext} {env : ExecEnv} {st₀ st : ExecState}
    {e : EpochMetaData} {q : Processed}
    (hl : Loaded ext g preState c₀ pre first ctx env st₀ st s' e q) (h : Q s'.finalise.commit) :
    ∀ r trie, c₀.tries.get r = some trie → Q trie := by
  intro r trie hget
  rcases sealBlock_of_ok hl.sealing with ⟨-, -, -, -, htries, -⟩
  rw [hl.tries, htries, AssocMap.get_putNew] at hget
  split at hget
  · rw [AssocMap.get_empty, Option.getD_none, Option.some.injEq] at hget
    exact hget ▸ h
  · cases hget

/-- What the stored tries have at the start, and every block leaves in the trie it writes, the
    stored tries have after a run. -/
theorem Run.tries_all {P : Chain → Block → Prop} (hrun : Run ext P c₀ c)
    (h₀ : ∀ r trie, c₀.tries.get r = some trie → Q trie)
    (hstep : ∀ (c : Chain) (b parent : Block) (w : Pending), P c b →
      (∀ r trie, c.tries.get r = some trie → Q trie) → c.prepareBlock ext b parent = .ok w →
      Q w.trie) : ∀ r trie, c.tries.get r = some trie → Q trie := by
  refine hrun.invariant (fun c => ∀ r trie, c.tries.get r = some trie → Q trie) ?_ h₀
  intro c c' now b hc hb hadd r trie htrie
  rcases readBlock_of_addBlock hadd with ⟨w, hread, hwrite⟩
  rcases readBlock_of_some hread with ⟨hw, -⟩
  rw [tries_of_writeBlock hwrite, AssocMap.get_putNew] at htrie
  split at htrie
  · cases hold : c.tries.get w.trieRoot with
    | some old =>
      rw [hold, Option.getD_some, Option.some.injEq] at htrie
      exact htrie ▸ hc _ _ hold
    | none =>
      rw [hold, Option.getD_none, Option.some.injEq] at htrie
      exact htrie ▸ hstep c b _ w hb hc hw
  · exact hc r trie htrie

end Tries

/-- A machine whose contract code does nothing, and whose contracts are all at one address. -/
def toyVm : Machine :=
  { toyExternals with
    createAddress2 := fun _ _ _ => toyContract
    interprets := fun _ _ s _ _ => .start s }

theorem toyCrypto_head (pk : List.Vector UInt8 Config.dilithiumPKSize) :
    (toyCrypto.getDilithiumAddressFromPK pk).val.headD 0 = 0x20 := by
  show (if pk.val.headD 0 = 1 then Config.foundationDilithiumAddress
    else Bytes.alignLeft 20 [0x20, pk.val.headD 0]).val.headD 0 = 0x20
  split
  · decide
  · rfl

theorem toyVm_apart : toyVm.Apart := by
  have hcreates : ∀ x, toyVm.Creates x → x = toyContract := by
    rintro x (⟨self, nonce, hx⟩ | ⟨self, salt, hash, hx⟩)
    · exact hx
    · exact hx
  refine ⟨?_, fun h => absurd (hcreates _ h) (by decide)⟩
  rintro x (⟨pk, hx⟩ | ⟨pk, rfl⟩) hc
  · cases hx
  · have hhead := (congrArg (fun addr : Address => addr.val.headD 0) (hcreates _ hc)).symm.trans
      (toyCrypto_head _)
    exact absurd hhead (by decide)

end Zond
