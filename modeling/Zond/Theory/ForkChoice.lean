import Zond.Theory.Genesis

/-!
# Fork Choice

`Commit` moves the head to a block that has more stake behind it than the head it
read, and to every block whose slot number is zero: it takes such a block for
genesis, whose parent's stake it does not read either. Nothing stops a block with
slot number zero from arriving later.

## Main definitions

* `HeadIsHeaviest`: The head has no less stake behind it than any stored block.

## Theorems

* `head_heaviest`: So it is in every run of blocks with a slot of their own.
-/

namespace Zond

variable {ext : Externals} {g : Block} {preState : List (List UInt8 × UInt64)}
variable {c₀ c c' : Chain} {b : Block}

/-- The block has a slot of its own, and if it is stored already, as many signers
    as it was stored with. -/
structure Weighed (c : Chain) (b : Block) : Prop where
  slot : b.slotNumber ≠ 0
  undisputed : Undisputed c b
  signers : ∀ x, c.db.blocks.get b.hash = some x →
    x.protocolTransactions.length = b.protocolTransactions.length

/-- The stake behind a block. -/
def Store.totalStake (db : Store) (k : Hash) : Option Int :=
  (db.core k).map RecordCore.totalStakeAmount

theorem totalStake_of_get {db : Store} {k : Hash} {bm : BlockMetaData}
    (h : db.blockMetaData.get k = some bm) : db.totalStake k = some bm.totalStakeAmount := by
  unfold Store.totalStake
  rw [Store.core_of_get h]
  rfl

theorem get_of_totalStake {db : Store} {k : Hash} {t : Int} (h : db.totalStake k = some t) :
    ∃ bm, db.blockMetaData.get k = some bm ∧ bm.totalStakeAmount = t := by
  rcases Option.map_eq_some_iff.1 h with ⟨r, hr, hrt⟩
  rcases Option.map_eq_some_iff.1 hr with ⟨bm, hbm, rfl⟩
  exact ⟨bm, hbm, hrt⟩

/-- What a run keeps: genesis has slot 0, only slot-0 records are without a block,
    each block has the stake of its signers on top of its parent's, and the head
    has no less than any. -/
structure HeadIsHeaviest (g : Block) (db : Store) : Prop where
  sound : db.Sound
  genesis : ∃ r, db.core g.hash = some r ∧ r.slotNumber = 0
  stored : ∀ k r, db.core k = some r → r.slotNumber = 0 ∨ ∃ x, db.blocks.get k = some x
  totals : ∀ k x, db.blocks.get k = some x → k ≠ g.hash → x.protocolTransactions ≠ [] ∧
    ∃ t, db.totalStake x.parentHash = some t ∧
      db.totalStake k = some (t + x.protocolTransactions.length * Config.stakeAmount.toNat)
  heaviest : ∀ m, db.mainChainMetaData = some m → ∃ t,
    db.totalStake m.lastBlockHeaderHash = some t ∧
      ∀ k x, db.blocks.get k = some x → ∃ t', db.totalStake k = some t' ∧ t' ≤ t

section Step

variable {a : Addition} (hi : HeadIsHeaviest g c.db) (hw : Weighed c b)
variable (ha : Added ext c b c' a)
include hi hw

theorem Weighed.ne_genesis : b.hash ≠ g.hash := by
  intro heq
  rcases hi.genesis with ⟨r, hr, hzero⟩
  exact hw.slot ((hw.undisputed r (heq ▸ hr)).2 ▸ hzero)

include ha

theorem Weighed.same_total {t : Int} (hold : c.db.totalStake b.hash = some t) :
    t = (a.core b).totalStakeAmount := by
  have hne := hw.ne_genesis hi
  rcases Option.map_eq_some_iff.1 hold with ⟨r, hr, rfl⟩
  rcases hw.undisputed r hr with ⟨hparent, hslot⟩
  rcases hi.stored _ r hr with hzero | ⟨x, hx⟩
  · exact absurd (hslot ▸ hzero) hw.slot
  · rcases hi.totals _ x hx hne with ⟨-, t, ht, htotal⟩
    rcases hi.sound.recorded _ x hx with ⟨r', hr', hxparent, -⟩
    have hsame : r' = r := Option.some.inj (hr'.symm.trans hr)
    subst hsame
    have hpt : t = a.parent.totalStakeAmount := by
      rw [← hxparent, hparent, totalStake_of_get ha.parent] at ht
      exact (Option.some.inj ht).symm
    rw [hold, Option.some.injEq, hw.signers x hx, hpt] at htotal
    exact htotal

theorem Weighed.parent_ne : b.parentHash ≠ b.hash := by
  intro hself
  have hsame := hw.same_total hi ha (hself ▸ totalStake_of_get ha.parent)
  have hpos : 0 < b.protocolTransactions.length := List.length_pos_iff.2 ha.signed
  simp only [Addition.core, toNat_stakeAmount] at hsame
  omega

theorem totalStake_added (k : Hash) : c'.db.totalStake k =
    if b.hash = k then some (a.core b).totalStakeAmount else c.db.totalStake k := by
  have hne := hw.parent_ne hi ha
  unfold Store.totalStake
  by_cases hk : b.hash = k
  · rw [if_pos hk, ← hk, ha.core_after, if_neg hne, if_pos rfl]
    rfl
  · rw [if_neg hk, ha.core_of_ne (fun heq => hk heq.symm)]

theorem totalStake_kept {k : Hash} {t : Int} (hold : c.db.totalStake k = some t) :
    c'.db.totalStake k = some t := by
  rw [totalStake_added hi hw ha]
  by_cases hk : b.hash = k
  · rw [if_pos hk, ← hw.same_total hi ha (hk ▸ hold)]
  · rw [if_neg hk, hold]

omit hw in
theorem totalStake_last : c.db.totalStake a.main.lastBlockHeaderHash
    = some a.last.totalStakeAmount ∧ ∀ k x, c.db.blocks.get k = some x →
      ∃ t', c.db.totalStake k = some t' ∧ t' ≤ a.last.totalStakeAmount := by
  have hlast := totalStake_of_get ha.last
  rcases hi.heaviest a.main ha.main with ⟨t, ht, hall⟩
  rw [hlast, Option.some.injEq] at ht
  exact ⟨hlast, ht ▸ hall⟩

theorem totalStake_head : ∃ t, c'.db.totalStake a.head.lastBlockHeaderHash = some t ∧
    a.last.totalStakeAmount ≤ t ∧ (a.core b).totalStakeAmount ≤ t := by
  rcases totalStake_last hi ha with ⟨hlast, -⟩
  rcases ha.choice with ⟨hmore, hhead⟩ | ⟨hless, hhead⟩
  · refine ⟨(a.core b).totalStakeAmount, ?_, Int.le_of_lt hmore, Int.le_refl _⟩
    rw [hhead, totalStake_added hi hw ha]
    exact if_pos rfl
  · refine ⟨a.last.totalStakeAmount, ?_, Int.le_refl _, hless⟩
    rw [hhead]
    exact totalStake_kept hi hw ha hlast

theorem HeadIsHeaviest.added : HeadIsHeaviest g c'.db := by
  have hne := hw.ne_genesis hi
  refine ⟨ha.sound hi.sound hw.undisputed, ?_, ?_, ?_, ?_⟩
  · rw [ha.core_of_ne hne.symm]
    exact hi.genesis
  · intro k r hr
    by_cases hk : k = b.hash
    · rcases ha.stored (.inl hk) with ⟨x, hx⟩
      exact .inr ⟨x, ha.sameTree.blocks ▸ hx⟩
    · rw [ha.core_of_ne hk] at hr
      rcases hi.stored k r hr with hzero | hx
      · exact .inl hzero
      · rcases ha.stored (.inr hx) with ⟨x, hx⟩
        exact .inr ⟨x, ha.sameTree.blocks ▸ hx⟩
  · intro k x hx hk
    rcases ha.block_after hx with ⟨hkb, hparent, -, htxs, -⟩ | ⟨-, hold⟩
    · have hpt := totalStake_kept hi hw ha (totalStake_of_get ha.parent)
      refine ⟨htxs ▸ ha.signed, _, hparent ▸ hpt, ?_⟩
      rw [hkb, totalStake_added hi hw ha, if_pos rfl, htxs]
      rfl
    · rcases hi.totals k x hold hk with ⟨hsigned, t, ht, htotal⟩
      exact ⟨hsigned, t, totalStake_kept hi hw ha ht, totalStake_kept hi hw ha htotal⟩
  · intro m hm
    rcases ha.mainChain with ⟨m', hm', hlast⟩
    rw [hm, Option.some.injEq] at hm'
    subst hm'
    rcases totalStake_head hi hw ha with ⟨t, ht, hle, hnew⟩
    refine ⟨t, hlast ▸ ht, ?_⟩
    intro k x hx
    rcases ha.block_after hx with ⟨hkb, -⟩ | ⟨-, hold⟩
    · refine ⟨_, ?_, hnew⟩
      rw [hkb, totalStake_added hi hw ha, if_pos rfl]
    · rcases (totalStake_last hi ha).2 k x hold with ⟨t', ht', hle'⟩
      exact ⟨t', totalStake_kept hi hw ha ht', Int.le_trans hle' hle⟩

end Step

theorem HeadIsHeaviest.genesisChain (hg : g.slotNumber = 0)
    (h₀ : genesisChain ext g preState = .ok c₀) : HeadIsHeaviest g c₀.db := by
  rcases genesisNode_of_ok hg h₀ with ⟨e, trie, total, hnode⟩
  have hself : c₀.db.totalStake g.hash = some total := by
    unfold Store.totalStake
    rw [hnode.core, if_pos rfl]
    rfl
  refine ⟨hnode.sound hg, ⟨_, (hnode.core g.hash).trans (if_pos rfl), rfl⟩, ?_, ?_, ?_⟩
  · intro k r hr
    rw [hnode.core] at hr
    split at hr
    · cases hr
      exact .inl rfl
    · split at hr
      · cases hr
        exact .inl rfl
      · cases hr
  · intro k x hx hk
    exact absurd (hnode.block hx).1 hk
  · intro m hm
    rw [hnode.main, Option.some.injEq] at hm
    subst hm
    refine ⟨total, hself, fun k x hx => ⟨total, ?_, Int.le_refl _⟩⟩
    rw [(hnode.block hx).1]
    exact hself

def HeadAtLeast (t : Int) (db : Store) : Prop :=
  ∃ m t', db.mainChainMetaData = some m ∧ db.totalStake m.lastBlockHeaderHash = some t' ∧ t ≤ t'

theorem HeadAtLeast.added {a : Addition} {t : Int} (h : HeadAtLeast t c.db)
    (hi : HeadIsHeaviest g c.db) (hw : Weighed c b) (ha : Added ext c b c' a) :
    HeadAtLeast t c'.db := by
  rcases h with ⟨m, t₁, hm, ht₁, hle⟩
  rw [ha.main, Option.some.injEq] at hm
  subst hm
  rw [(totalStake_last hi ha).1, Option.some.injEq] at ht₁
  rcases ha.mainChain with ⟨m', hm', hlast⟩
  rcases totalStake_head hi hw ha with ⟨t₂, ht₂, hle₂, -⟩
  exact ⟨m', t₂, hm', hlast ▸ ht₂, Int.le_trans hle (ht₁ ▸ hle₂)⟩

/-- In every run of weighed blocks from genesis, the head is a stored block with at
    least the total stake of every stored block, and after any further calls the
    head's total stake is no smaller. -/
theorem head_heaviest (hg : g.slotNumber = 0) (h₀ : genesisChain ext g preState = .ok c₀)
    (hrun : Run ext Weighed c₀ c) (hlater : Run ext Weighed c c') : ∃ m head m' head',
      c.db.mainChainMetaData = some m ∧ (∃ x, c.db.blocks.get m.lastBlockHeaderHash = some x) ∧
      c.db.blockMetaData.get m.lastBlockHeaderHash = some head ∧
      (∀ k x, c.db.blocks.get k = some x → ∃ bm, c.db.blockMetaData.get k = some bm ∧
        bm.totalStakeAmount ≤ head.totalStakeAmount) ∧
      c'.db.mainChainMetaData = some m' ∧
      c'.db.blockMetaData.get m'.lastBlockHeaderHash = some head' ∧
      head.totalStakeAmount ≤ head'.totalStakeAmount := by
  have hstep : ∀ {c c' : Chain} {now : UInt64} {b : Block}, HeadIsHeaviest g c.db → Weighed c b →
      c.addBlock ext now b = .ok (true, c') → ∃ a, Added ext c b c' a :=
    fun hi hw hadd => added_of_addBlock hi.sound hw.slot hadd
  have hi : HeadIsHeaviest g c.db := by
    refine hrun.invariant (fun c => HeadIsHeaviest g c.db) ?_ (.genesisChain hg h₀)
    intro c c' now b hi hw hadd
    rcases hstep hi hw hadd with ⟨a, ha⟩
    exact hi.added hw ha
  rcases hi.sound.headed with ⟨m, hm, hstored⟩
  rcases hi.heaviest m hm with ⟨t, ht, hall⟩
  rcases get_of_totalStake ht with ⟨head, hhead, rfl⟩
  have hlast : HeadIsHeaviest g c'.db ∧ HeadAtLeast head.totalStakeAmount c'.db := by
    refine hlater.invariant
      (fun c => HeadIsHeaviest g c.db ∧ HeadAtLeast head.totalStakeAmount c.db) ?_
      ⟨hi, m, _, hm, ht, Int.le_refl _⟩
    intro c c' now b hi hw hadd
    rcases hstep hi.1 hw hadd with ⟨a, ha⟩
    exact ⟨hi.1.added hw ha, hi.2.added hi.1 hw ha⟩
  rcases hlast.2 with ⟨m', t', hm', ht', hle⟩
  rcases get_of_totalStake ht' with ⟨head', hhead', rfl⟩
  refine ⟨m, head, m', head', hm, hstored, hhead, ?_, hm', hhead', hle⟩
  intro k x hx
  rcases hall k x hx with ⟨t₁, ht₁, hle₁⟩
  rcases get_of_totalStake ht₁ with ⟨bm, hbm, rfl⟩
  exact ⟨bm, hbm, hle₁⟩

def weighedFresh (c : Chain) (b : Block) : Bool :=
  b.slotNumber != 0 && (c.db.core b.hash).isNone && (c.db.blocks.get b.hash).isNone

theorem weighed_of_weighedFresh (c : Chain) (b : Block) (h : weighedFresh c b = true) :
    Weighed c b := by
  unfold weighedFresh at h
  simp only [Bool.and_eq_true, bne_iff_ne, Option.isNone_iff_eq_none] at h
  rcases h with ⟨⟨hslot, hrecord⟩, hblock⟩
  refine ⟨hslot, fun r hr => ?_, fun x hx => ?_⟩
  · rw [hrecord] at hr
    cases hr
  · rw [hblock] at hx
    cases hx

theorem toyRun_weighed : ∃ c₀ c, genesisChain toyExternals toyGenesis toyPreState = .ok c₀ ∧
    Run toyExternals Weighed c₀ c ∧
    c.db.mainChainMetaData.map MainChainMetaData.lastBlockHeaderHash = some toySecond.hash := by
  refine exists_run_of_check toyNow [toyFirst, toySecond] _ weighed_of_weighedFresh ?_
  decide +kernel

theorem toyRun_head_heaviest :
    ∃ c₀ c head, genesisChain toyExternals toyGenesis toyPreState = .ok c₀ ∧
      Run toyExternals Weighed c₀ c ∧
      c.db.mainChainMetaData.map MainChainMetaData.lastBlockHeaderHash = some toySecond.hash ∧
      c.db.blockMetaData.get toySecond.hash = some head ∧
      ∀ k x, c.db.blocks.get k = some x → ∃ bm, c.db.blockMetaData.get k = some bm ∧
        bm.totalStakeAmount ≤ head.totalStakeAmount := by
  rcases toyRun_weighed with ⟨c₀, c, h₀, hrun, hlast⟩
  rcases head_heaviest toyGenesis_slotNumber h₀ hrun .refl with
    ⟨m, head, -, -, hm, -, hhead, hall, -⟩
  have hsecond : m.lastBlockHeaderHash = toySecond.hash := by
    rw [hm, Option.map_some, Option.some.injEq] at hlast
    exact hlast
  exact ⟨c₀, c, head, h₀, hrun, hlast, hsecond ▸ hhead, hall⟩

def toyZero : Block := toyBlock 1 0 toyFirst.hash [] 3

/-- A block in slot 0 becomes the head with no stake behind it: its parent, the head
    before, has one stake behind it and stays stored. -/
theorem head_of_slot_zero : ∃ c₀ c, genesisChain toyExternals toyGenesis toyPreState = .ok c₀ ∧
      Run toyExternals (fun _ _ => True) c₀ c ∧
      ∃ m head x bm, c.db.mainChainMetaData = some m ∧
        c.db.blockMetaData.get m.lastBlockHeaderHash = some head ∧
        c.db.blocks.get toyFirst.hash = some x ∧
        c.db.blockMetaData.get toyFirst.hash = some bm ∧
        head.totalStakeAmount < bm.totalStakeAmount := by
  have hrun := exists_toyRun [toyFirst, toyZero] (fun _ c =>
    c.db.mainChainMetaData.map MainChainMetaData.lastBlockHeaderHash = some toyZero.hash ∧
    c.db.totalStake toyZero.hash = some 0 ∧
    (c.db.blocks.get toyFirst.hash).isSome = true ∧
    c.db.totalStake toyFirst.hash = some 10000000000000) (by decide +kernel)
  rcases hrun with ⟨c₀, c, h₀, hrun, hlast, hzero, hstored, hfirst⟩
  rcases Option.map_eq_some_iff.1 hlast with ⟨m, hm, hmlast⟩
  rcases get_of_totalStake hzero with ⟨head, hhead, hheadTotal⟩
  rcases Option.isSome_iff_exists.1 hstored with ⟨x, hx⟩
  rcases get_of_totalStake hfirst with ⟨bm, hbm, htotal⟩
  refine ⟨c₀, c, h₀, hrun, m, head, x, bm, hm, hmlast ▸ hhead, hx, hbm, ?_⟩
  rw [hheadTotal, htotal]
  decide

end Zond
