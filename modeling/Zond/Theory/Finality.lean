import Zond.Theory.Genesis

/-!
# Finality

`AddBlock` wants a block's parent to be part of the finalized chain. What it tests
is the parent's slot: it must not lie before the finalized block's, and only where
the two slots are equal are the hashes compared. A branch that left the chain
below the finalized block and already has a block in a later slot can therefore
go on growing, and with enough stake it takes the head.

## Main definitions

* `OnFinalized`: The parent of a block descends from the finalized block.

## Theorems

* `finality`: In runs of such blocks the head descends from what was finalized.
* `finalized_descends`: A later finalized block descends from every earlier one.
-/

namespace Zond

open Ancestry Outcome

variable {ext : Externals} {g : Block} {preState : List (List UInt8 × UInt64)}
variable {c₀ c c' : Chain} {b : Block} {now : UInt64}

/-- The parent of the block is the finalized block or descends from it. -/
def OnFinalized (c : Chain) (b : Block) : Prop :=
  Undisputed c b ∧ ∀ m, c.db.mainChainMetaData = some m →
    Descends c.db.link b.parentHash m.finalizedBlockHeaderHash

/-- What any added block does: it is linked to its parent and no link is lost; it
    may become the head, and then the finalized block may move on towards it. -/
structure Placed (c : Chain) (b : Block) (c' : Chain) (m head : MainChainMetaData) : Prop where
  main : c.db.mainChainMetaData = some m
  sound : c'.db.Sound
  links : ∀ x y, c.db.link x = some y → c'.db.link x = some y
  self : c'.db.link b.hash = some b.parentHash
  finalized : head.finalizedBlockHeaderHash = m.finalizedBlockHeaderHash
  last : head.lastBlockHeaderHash = m.lastBlockHeaderHash ∨ head.lastBlockHeaderHash = b.hash
  finished : c'.db.mainChainMetaData = some head ∨ head.lastBlockHeaderHash = b.hash ∧
    ∃ finalized slot,
      c'.db.mainChainMetaData = some (head.updateFinalizedBlockData finalized slot) ∧
      Descends c'.db.link b.parentHash finalized ∧
      Descends c'.db.link finalized head.finalizedBlockHeaderHash

theorem Finished.placed {head : MainChainMetaData} {db db' : Store} (h : Finished b head db db')
    (hhead : db.mainChainMetaData = some head) :
    db'.mainChainMetaData = some head ∨ head.lastBlockHeaderHash = b.hash ∧
      ∃ finalized slot,
        db'.mainChainMetaData = some (head.updateFinalizedBlockData finalized slot) ∧
        Descends db'.link b.parentHash finalized ∧
        Descends db'.link finalized head.finalizedBlockHeaderHash := by
  rcases h with hsame | ⟨hlast, htree, finalized, slot, hmain, hnew, hold⟩
  · exact .inl (hsame ▸ hhead)
  · have hlink : db'.link = db.link := funext htree.link
    rw [hlink]
    exact .inr ⟨hlast, finalized, slot, hmain, hnew, hold⟩

theorem Added.placed {a : Addition} (ha : Added ext c b c' a) (hs : c.db.Sound)
    (hu : Undisputed c b) : Placed c b c' a.main a.head := by
  refine
    { main := ha.main
      sound := ha.sound hs hu
      links := fun x y => ha.link_after hu
      self := ?_
      finalized := ?_
      last := ?_
      finished := ha.finished.placed ha.head }
  · rcases ha.recorded hu with ⟨r, hr, hparent, -⟩
    unfold Store.link
    rw [hr, Option.map_some, hparent]
  · rcases ha.choice with ⟨-, hhead⟩ | ⟨-, hhead⟩
    · rw [hhead]
      rfl
    · rw [hhead]
  · rcases ha.choice with ⟨-, hhead⟩ | ⟨-, hhead⟩
    · rw [hhead]
      exact .inr rfl
    · rw [hhead]
      exact .inl rfl

theorem processBlock_of_slotZero {parentBlock : Block} {p : Processed} (hslot : b.slotNumber = 0)
    (h : Chain.processBlock ext c b parentBlock = .ok p) :
    ∃ m total, c.db.mainChainMetaData = some m ∧
      p.db.blockMetaData = (c.db.putBlockMetaData
        (BlockMetaData.new b.parentHash b.hash 0 total p.trieRoot)).blockMetaData ∧
      p.db.blocks = c.db.blocks.put b.hash p.block ∧
      (∃ pbloom bloom, p.block = b.updateRoots p.trieRoot pbloom bloom) ∧
      p.db.mainChainMetaData = some p.ctx.mainChainMetaData ∧
      p.ctx.mainChainMetaData = m.updateLastBlockData b.hash 0 := by
  rcases Chain.processBlock_of_ok h with
    ⟨pm, s, s₁, e, validators, partialHash, signingHash, ctx, -, -, -, hnew, hprocess⟩
  rcases StateContext.new_of_ok hnew with ⟨hcs, hcp, hch, -, hmain, -, -⟩
  rcases process_of_ok hprocess with ⟨env, st₀, st, -, -, hst₀, -, hloops, hseal⟩
  subst hst₀
  have hzero : st₀.ctx.slotNumber = 0 := hcs.trans hslot
  have hctx := processTransactions_ctx_of_slotZero hzero hloops
  rcases sealBlock_of_ok hseal with ⟨pbloom, bloom, hblock, -, -, hcommit⟩
  rw [hctx] at hcommit
  rcases commit_of_slotZero hzero hcommit with ⟨hrecords, hblocks, -, hput, hmarked⟩
  refine ⟨st₀.ctx.mainChainMetaData, st₀.ctx.currentBlockTotalStakeAmount, hmain, ?_, ?_,
    ⟨pbloom, bloom, hblock⟩, hput, ?_⟩
  · rw [hrecords, hcp, hch]
    rfl
  · rw [hblocks, hblock]
    rfl
  · rw [hmarked]
    simp only [Bool.false_eq_true, if_false, StateContext.markLast, hch, hzero]

theorem get_put_cases {m : AssocMap Hash Block} {k k' : Hash} {x y : Block}
    (h : (m.put k x).get k' = some y) : k = k' ∧ x = y ∨ k ≠ k' ∧ m.get k' = some y := by
  rw [AssocMap.get_put] at h
  by_cases hk : k = k'
  · rw [if_pos hk, Option.some.injEq] at h
    exact .inl ⟨hk, h⟩
  · rw [if_neg hk] at h
    exact .inr ⟨hk, h⟩

theorem placed_of_slotZero (hs : c.db.Sound) (hu : Undisputed c b) (hslot : b.slotNumber = 0)
    (h : c.addBlock ext now b = .ok (true, c')) :
    ∃ m, Placed c b c' m (m.updateLastBlockData b.hash 0) := by
  rcases Chain.addBlock_cases h with ⟨hfalse, -⟩ | ⟨-, parentBlock, p, -, hprocess, hfinish⟩
  · cases hfalse
  rcases processBlock_of_slotZero hslot hprocess with
    ⟨m, total, hmain, hrecords, hblocks, ⟨pbloom, bloom, hblock⟩, hput, hctx⟩
  have hhash : p.block.hash = b.hash := by rw [hblock]; rfl
  have hparent : p.block.parentHash = b.parentHash := by rw [hblock]; rfl
  -- The store after `Commit`: keyed and named as before, with one new record.
  have hkeyed : p.db.Keyed := by
    intro k bm hget
    rw [hrecords] at hget
    exact hs.keyed.putBlockMetaData _ k bm hget
  have hcore : ∀ k, p.db.core k = if b.hash = k then
      some (BlockMetaData.new b.parentHash b.hash 0 total p.trieRoot).core else c.db.core k := by
    intro k
    have hread := Store.core_putBlockMetaData c.db
      (BlockMetaData.new b.parentHash b.hash 0 total p.trieRoot) k
    unfold Store.core at *
    rw [hrecords]
    exact hread
  have hnamed : ∀ k x, p.db.blocks.get k = some x → x.hash = k := by
    intro k x hx
    rw [hblocks] at hx
    rcases get_put_cases hx with ⟨hk, hxb⟩ | ⟨-, hold⟩
    · rw [← hxb, hhash, hk]
    · exact hs.named k x hold
  have hput' : p.db.mainChainMetaData = some (m.updateLastBlockData b.hash 0) := hctx ▸ hput
  have hstored : ∃ x, p.db.blocks.get (m.updateLastBlockData b.hash 0).lastBlockHeaderHash
      = some x := by
    rw [hblocks]
    exact ⟨p.block, AssocMap.get_put_self _ _ _⟩
  rcases Chain.finishBlock_of_ok hkeyed hput' hctx hnamed hstored hfinish with ⟨-, hdone⟩
  have hfinished : Finished b (m.updateLastBlockData b.hash 0) p.db c'.db := by
    unfold Finished at *
    rwa [hhash, hparent] at hdone
  have htree := hfinished.sameTree hkeyed
  refine ⟨m, hmain, ⟨htree.keyed, ?_, ?_, ?_⟩, ?_, ?_, rfl, .inr rfl, hfinished.placed hput'⟩
  · rw [htree.blocks]
    exact hnamed
  · intro k x hx
    rw [htree.blocks, hblocks] at hx
    rw [htree.core, hcore]
    rcases get_put_cases hx with ⟨hk, hxb⟩ | ⟨hk, hold⟩
    · rw [if_pos hk, ← hxb, hparent, hblock, Block.updateRoots_slotNumber, hslot]
      exact ⟨_, rfl, rfl, rfl⟩
    · rw [if_neg hk]
      exact hs.recorded k x hold
  · rcases hfinished.mainChain hput' with ⟨m', hm', hlast⟩
    refine ⟨m', hm', ?_⟩
    rw [hlast, htree.blocks]
    exact hstored
  · intro x y hlink
    unfold Store.link at *
    rcases Option.map_eq_some_iff.1 hlink with ⟨r, hr, hry⟩
    rw [htree.core, hcore]
    by_cases hx : b.hash = x
    · rw [if_pos hx, Option.map_some, ← hry, (hu r (hx ▸ hr)).1]
      rfl
    · rw [if_neg hx]
      exact hlink
  · unfold Store.link
    rw [htree.core, hcore, if_pos rfl]
    rfl

theorem placed_of_addBlock (hs : c.db.Sound) (hu : Undisputed c b)
    (h : c.addBlock ext now b = .ok (true, c')) : ∃ m head, Placed c b c' m head := by
  by_cases hslot : b.slotNumber = 0
  · rcases placed_of_slotZero hs hu hslot h with ⟨m, hplaced⟩
    exact ⟨m, _, hplaced⟩
  · rcases added_of_addBlock hs hslot h with ⟨a, ha⟩
    exact ⟨a.main, a.head, ha.placed hs hu⟩

/-- What a run keeps: the head descends from the finalized block, and that from `f`. -/
structure HeadBeyond (f : Hash) (db : Store) : Prop where
  sound : db.Sound
  beyond : ∃ m, db.mainChainMetaData = some m ∧
    Descends db.link m.lastBlockHeaderHash m.finalizedBlockHeaderHash ∧
    Descends db.link m.finalizedBlockHeaderHash f

theorem HeadBeyond.addBlock {f : Hash} (hi : HeadBeyond f c.db) (hon : OnFinalized c b)
    (h : c.addBlock ext now b = .ok (true, c')) : HeadBeyond f c'.db := by
  rcases hon with ⟨hu, hon⟩
  rcases placed_of_addBlock hi.sound hu h with ⟨m, head, hp⟩
  rcases hi.beyond with ⟨m', hm', hlast, hfinal⟩
  rw [hp.main, Option.some.injEq] at hm'
  subst hm'
  -- The head before, the parent and the finalized block have lost no ancestor.
  have hlast' := hlast.mono hp.links
  have hfinal' := hfinal.mono hp.links
  have hself : Descends c'.db.link b.hash m.finalizedBlockHeaderHash :=
    Descends.of_parent hp.self ((hon m hp.main).mono hp.links)
  refine ⟨hp.sound, ?_⟩
  rcases hp.finished with hsame | ⟨hhead, finalized, slot, hmain, hnew, hold⟩
  · refine ⟨head, hsame, ?_, hp.finalized ▸ hfinal'⟩
    rw [hp.finalized]
    rcases hp.last with hkept | hmoved
    · rw [hkept]
      exact hlast'
    · rw [hmoved]
      exact hself
  · -- The block is the head, and the new finalized block lies between the two.
    refine ⟨_, hmain, ?_, ?_⟩
    · exact hhead ▸ Descends.of_parent hp.self hnew
    · rw [hp.finalized] at hold
      exact hold.trans hfinal'

/-- In every run whose blocks arrive on the finalized chain, once a block is
    recorded as finalized the head is that block or a descendant of it, then and
    at every later point. -/
theorem finality {c₁ c₂ : Chain} (hg : g.slotNumber = 0)
    (h₀ : genesisChain ext g preState = .ok c₀) (hrun : Run ext OnFinalized c₀ c₁)
    (hlater : Run ext OnFinalized c₁ c₂) :
    ∃ m₁ m₂, c₁.db.mainChainMetaData = some m₁ ∧ c₂.db.mainChainMetaData = some m₂ ∧
      Descends c₂.db.link m₂.lastBlockHeaderHash m₁.finalizedBlockHeaderHash := by
  rcases genesisNode_of_ok hg h₀ with ⟨e, trie, total, hnode⟩
  have hstart : HeadBeyond g.hash c₀.db :=
    ⟨hnode.sound hg, _, hnode.main, Descends.refl _ _, Descends.refl _ _⟩
  have hmid := hrun.invariant (fun c => HeadBeyond g.hash c.db)
    (fun hi hP hadd => hi.addBlock hP hadd) hstart
  rcases hmid.beyond with ⟨m₁, hm₁, hlast, -⟩
  have hend := hlater.invariant (fun c => HeadBeyond m₁.finalizedBlockHeaderHash c.db)
    (fun hi hP hadd => hi.addBlock hP hadd)
    ⟨hmid.sound, m₁, hm₁, hlast, Descends.refl _ _⟩
  rcases hend.beyond with ⟨m₂, hm₂, hlast₂, hfinal₂⟩
  exact ⟨m₁, m₂, hm₁, hm₂, hlast₂.trans hfinal₂⟩

theorem exists_runs_of_check {P : Chain → Block → Prop} (test : Chain → Block → Bool)
    (bs later : List Block) (goal : Chain → Chain → Prop) [∀ c₁ c₂, Decidable (goal c₁ c₂)]
    (htest : ∀ c b, test c b = true → P c b)
    (h : (genesisChain toyExternals toyGenesis toyPreState >>= fun c₀ =>
      c₀.addBlocks toyExternals toyNow test bs >>= fun st₁ =>
      st₁.2.addBlocks toyExternals toyNow test later >>= fun st₂ =>
        pure (st₁.1 && st₂.1 && decide (goal st₁.2 st₂.2))) = .ok true) :
    ∃ c₀ c₁ c₂, genesisChain toyExternals toyGenesis toyPreState = .ok c₀ ∧
      Run toyExternals P c₀ c₁ ∧ Run toyExternals P c₁ c₂ ∧ goal c₁ c₂ := by
  rcases bind_eq_ok.1 h with ⟨c₀, hgenesis, h⟩
  rcases bind_eq_ok.1 h with ⟨⟨all₁, c₁⟩, hrun₁, h⟩
  rcases bind_eq_ok.1 h with ⟨⟨all₂, c₂⟩, hrun₂, h⟩
  simp only [pure_eq_ok, Bool.and_eq_true, decide_eq_true_eq] at h
  rcases h with ⟨⟨rfl, rfl⟩, hgoal⟩
  exact ⟨c₀, c₁, c₂, hgenesis, run_of_addBlocks htest hrun₁, run_of_addBlocks htest hrun₂, hgoal⟩

def toyBranch (parent : Hash) : List (UInt8 × UInt64 × UInt64) → List Block
  | [] => []
  | (key, slot, nonce) :: rest =>
    let b := toyBlock key slot parent [] nonce
    b :: toyBranch b.hash rest

def toyFinalizing : List Block :=
  toyBranch toyGenesis.hash
    [(2, 1, 1), (1, 100, 2), (2, 101, 2), (1, 200, 3), (2, 201, 3), (1, 300, 4)]

def toyRival : List Block :=
  toyBranch toyGenesis.hash
    [(1, 100, 2), (2, 101, 1), (1, 200, 3), (2, 201, 2), (1, 300, 4), (2, 301, 3), (1, 400, 5)]

def firstHash (bs : List Block) : Hash := (bs.head?.map Block.hash).getD zeroHash

def lastHash (bs : List Block) : Hash := (bs.getLast?.map Block.hash).getD zeroHash

def onFinalizedFresh (c : Chain) (b : Block) : Bool :=
  (c.db.core b.hash).isNone && c.db.mainChainMetaData.all (fun m =>
    (path c.db.link 20 b.parentHash).any (fun l => decide (m.finalizedBlockHeaderHash ∈ l)))

theorem onFinalized_of_fresh (c : Chain) (b : Block) (h : onFinalizedFresh c b = true) :
    OnFinalized c b := by
  unfold onFinalizedFresh at h
  rw [Bool.and_eq_true] at h
  refine ⟨fun r hr => ?_, fun m hm => ?_⟩
  · rw [Option.isNone_iff_eq_none.1 h.1] at hr
    cases hr
  · have hwalk := h.2
    rw [hm, Option.all_some] at hwalk
    exact descends_of_path hwalk

theorem toyRuns_onFinalized : ∃ c₀ c₁ c₂,
    genesisChain toyExternals toyGenesis toyPreState = .ok c₀ ∧
    Run toyExternals OnFinalized c₀ c₁ ∧ Run toyExternals OnFinalized c₁ c₂ ∧
    c₁.db.mainChainMetaData.map MainChainMetaData.finalizedBlockHeaderHash
      = some (firstHash toyFinalizing) := by
  refine exists_runs_of_check onFinalizedFresh toyFinalizing
    (toyBranch (lastHash toyFinalizing) [(2, 301, 4)])
    (fun c₁ _ => c₁.db.mainChainMetaData.map MainChainMetaData.finalizedBlockHeaderHash
      = some (firstHash toyFinalizing)) onFinalized_of_fresh ?_
  decide +kernel

theorem toyRuns_finality : ∃ c₀ c₁ c₂ m₂,
    genesisChain toyExternals toyGenesis toyPreState = .ok c₀ ∧
    Run toyExternals OnFinalized c₀ c₁ ∧ Run toyExternals OnFinalized c₁ c₂ ∧
    c₂.db.mainChainMetaData = some m₂ ∧
    Descends c₂.db.link m₂.lastBlockHeaderHash (firstHash toyFinalizing) := by
  rcases toyRuns_onFinalized with ⟨c₀, c₁, c₂, h₀, hrun, hlater, hfirst⟩
  rcases finality toyGenesis_slotNumber h₀ hrun hlater with ⟨m₁, m₂, hm₁, hm₂, hdesc⟩
  rw [hm₁, Option.map_some, Option.some.injEq] at hfirst
  exact ⟨c₀, c₁, c₂, m₂, h₀, hrun, hlater, hm₂, hfirst ▸ hdesc⟩

/-- A rival branch that left at genesis loses to a branch whose first block is then
    finalized. Its own first block lies in a later slot than that, so it goes on
    growing, and when it is longer the head leaves the finalized block. -/
theorem finality_lost : ∃ c₀ c₁ c₂,
    genesisChain toyExternals toyGenesis toyPreState = .ok c₀ ∧
    Run toyExternals (fun _ _ => True) c₀ c₁ ∧ Run toyExternals (fun _ _ => True) c₁ c₂ ∧
    ∃ m₁ m₂, c₁.db.mainChainMetaData = some m₁ ∧ c₂.db.mainChainMetaData = some m₂ ∧
      ¬Descends c₂.db.link m₂.lastBlockHeaderHash m₁.finalizedBlockHeaderHash := by
  have hruns := exists_runs_of_check (P := fun _ _ => True) (fun _ _ => true)
    (toyRival.take 1 ++ toyFinalizing) (toyRival.drop 1) (fun c₁ c₂ =>
      c₁.db.mainChainMetaData.map MainChainMetaData.finalizedBlockHeaderHash
        = some (firstHash toyFinalizing) ∧
      c₂.db.mainChainMetaData.map MainChainMetaData.lastBlockHeaderHash
        = some (lastHash toyRival) ∧
      (path c₂.db.link 20 (lastHash toyRival)).any
        (fun l => decide (firstHash toyFinalizing ∉ l)) = true)
    (fun _ _ _ => trivial) (by decide +kernel)
  rcases hruns with ⟨c₀, c₁, c₂, h₀, hrun, hlater, hfinal, hlast, hwalk⟩
  rcases Option.map_eq_some_iff.1 hfinal with ⟨m₁, hm₁, hfinal⟩
  rcases Option.map_eq_some_iff.1 hlast with ⟨m₂, hm₂, hlast⟩
  refine ⟨c₀, c₁, c₂, h₀, hrun, hlater, m₁, m₂, hm₁, hm₂, ?_⟩
  rw [hfinal, hlast]
  exact not_descends_of_path hwalk

/-- What a run keeps of the links `old` and the finalized block `f` it starts with, wherever
    its blocks are attached. -/
structure Advanced (old : Hash → Option Hash) (f : Hash) (db : Store) : Prop where
  sound : db.Sound
  links : ∀ x y, old x = some y → db.link x = some y
  beyond : ∃ m, db.mainChainMetaData = some m ∧ Descends db.link m.finalizedBlockHeaderHash f

theorem Advanced.addBlock {old : Hash → Option Hash} {f : Hash} (hi : Advanced old f c.db)
    (hu : Undisputed c b) (h : c.addBlock ext now b = .ok (true, c')) : Advanced old f c'.db := by
  rcases placed_of_addBlock hi.sound hu h with ⟨m, head, hp⟩
  rcases hi.beyond with ⟨m', hm', hfinal⟩
  rw [hp.main, Option.some.injEq] at hm'
  subst hm'
  have hfinal' := hfinal.mono hp.links
  refine ⟨hp.sound, fun x y hxy => hp.links x y (hi.links x y hxy), ?_⟩
  rcases hp.finished with hsame | ⟨-, finalized, slot, hmain, -, hold⟩
  · exact ⟨head, hsame, hp.finalized ▸ hfinal'⟩
  · rw [hp.finalized] at hold
    exact ⟨_, hmain, hold.trans hfinal'⟩

/-- The finalized block only moves on to its own descendants, and no block ever loses an
    ancestor, also in the runs in which the head leaves the finalized block. -/
theorem finalized_descends {c₁ c₂ : Chain} (hg : g.slotNumber = 0)
    (h₀ : genesisChain ext g preState = .ok c₀) (hrun : Run ext Undisputed c₀ c₁)
    (hlater : Run ext Undisputed c₁ c₂) :
    (∀ x y, Descends c₁.db.link x y → Descends c₂.db.link x y) ∧
    ∃ m₁ m₂, c₁.db.mainChainMetaData = some m₁ ∧ c₂.db.mainChainMetaData = some m₂ ∧
      Descends c₂.db.link m₂.finalizedBlockHeaderHash m₁.finalizedBlockHeaderHash := by
  rcases genesisNode_of_ok hg h₀ with ⟨e, trie, total, hnode⟩
  have hmid := hrun.invariant (fun c => Advanced c₀.db.link g.hash c.db)
    (fun hi hP hadd => hi.addBlock hP hadd)
    ⟨hnode.sound hg, fun _ _ hxy => hxy, _, hnode.main, Descends.refl _ _⟩
  rcases hmid.beyond with ⟨m₁, hm₁, -⟩
  have hend := hlater.invariant (fun c => Advanced c₁.db.link m₁.finalizedBlockHeaderHash c.db)
    (fun hi hP hadd => hi.addBlock hP hadd)
    ⟨hmid.sound, fun _ _ hxy => hxy, m₁, hm₁, Descends.refl _ _⟩
  rcases hend.beyond with ⟨m₂, hm₂, hdesc⟩
  exact ⟨fun x y hxy => hxy.mono hend.links, m₁, m₂, hm₁, hm₂, hdesc⟩

theorem toyRuns_descends : ∃ c₀ c₁ c₂ m₂,
    genesisChain toyExternals toyGenesis toyPreState = .ok c₀ ∧
    Run toyExternals Undisputed c₀ c₁ ∧ Run toyExternals Undisputed c₁ c₂ ∧
    c₂.db.mainChainMetaData = some m₂ ∧
    Descends c₂.db.link m₂.finalizedBlockHeaderHash (firstHash toyFinalizing) := by
  rcases toyRuns_onFinalized with ⟨c₀, c₁, c₂, h₀, hrun, hlater, hfirst⟩
  have hrun' := hrun.mono (fun _ _ hP => hP.1)
  have hlater' := hlater.mono (fun _ _ hP => hP.1)
  rcases finalized_descends toyGenesis_slotNumber h₀ hrun' hlater' with
    ⟨-, m₁, m₂, hm₁, hm₂, hdesc⟩
  rw [hm₁, Option.map_some, Option.some.injEq] at hfirst
  exact ⟨c₀, c₁, c₂, m₂, h₀, hrun', hlater', hm₂, hfirst ▸ hdesc⟩

end Zond
