import Zond.Theory.Finalizing

/-!
# What Finalization Rests On

The record of an epoch holds the stake that was allotted and found in the epoch
before it. When the first block of an epoch finalizes, it asks the record it has
just computed about the epoch that closes, and the record of that epoch about the
one before.

## Main definitions

* `Store.Supported`: Two thirds of the stake allotted to an epoch signed its blocks on a
  branch.

## Theorems

* `finalization_sound`: Where slots increase, what is finalized has the support of both
  epochs.
-/

namespace Zond

open Ancestry Outcome

variable {epoch slot : UInt64} {last k : Hash} {e : EpochMetaData} {db : Store}

/-- Of the stake allotted for the epoch of a block, two thirds signed the blocks of
    that epoch on its branch. -/
def Store.Supported (db : Store) (k : Hash) : Prop :=
  ∃ (x : Block) (e : EpochMetaData) (path : List Hash), db.blocks.get k = some x ∧
    db.getEpochMetaData x.slotNumber x.parentHash = .ok e ∧ path.Nodup ∧
    (∀ y, y ∈ path ↔ Relation.ReflTransGen db.SameEpoch k y) ∧
    2 * (e.validators.length * Config.stakeAmount.toNat) ≤
      3 * ((path.map db.signers).sum * Config.stakeAmount.toNat)

theorem two_thirds_of_products {m n : Nat} {amount : UInt64}
    (hsupply : n * amount.toNat ≤ Config.maxCoinSupply.toNat)
    (h : ¬UInt64.ofNat m * amount * 3 < UInt64.ofNat n * amount * 2) :
    2 * (n * amount.toNat) ≤ 3 * (m * amount.toNat) := by
  have hmax : Config.maxCoinSupply.toNat = 105000000000000000 := by decide
  rw [UInt64.lt_iff_toNat_lt, UInt64.toNat_mul (UInt64.ofNat m * amount),
    UInt64.toNat_mul (UInt64.ofNat n * amount), toNat_stakes, toNat_stakes, Nat.mod_mul_mod,
    Nat.mod_mul_mod] at h
  have hthree : (3 : UInt64).toNat = 3 := rfl
  have htwo : (2 : UInt64).toNat = 2 := rfl
  rw [hthree, htwo] at h
  have hexact : n * amount.toNat * 2 % 2 ^ 64 = n * amount.toNat * 2 :=
    Nat.mod_eq_of_lt (by omega)
  have hless := Nat.mod_le (m * amount.toNat * 3) (2 ^ 64)
  omega

section Closing

variable {db : Store}

theorem mem_epochPath_iff (hkeyed : db.Keyed) (hzero : epoch ≠ 0) {fuel : Nat}
    {bm : BlockMetaData} {path : List Hash} (hbm : Recorded db bm) (hepoch : bm.epoch = epoch)
    (h : Chain.epochPath db epoch fuel bm = .ok path) (y : Hash) :
    y ∈ path ↔ Relation.ReflTransGen db.SameEpoch bm.headerHash y := by
  induction fuel generalizing bm path with
  | zero => cases h
  | succ fuel ih =>
    have hslot : bm.slotNumber ≠ 0 := by
      intro hs
      refine hzero (hepoch.symm.trans ?_)
      unfold BlockMetaData.epoch
      rw [hs]
      rfl
    rw [Chain.epochPath, if_pos (show epochOf bm.slotNumber = epoch from hepoch),
      if_neg hslot] at h
    rcases bind_eq_ok.1 h with ⟨parent, hparent, h⟩
    rcases bind_eq_ok.1 h with ⟨rest, hrest, h⟩
    rw [pure_eq_ok] at h
    subst h
    have hget := orFail_eq_ok.1 hparent
    have hkey := hkeyed _ _ hget
    rw [List.mem_cons]
    by_cases hsame : parent.epoch = epoch
    · -- The parent is of the epoch, and so are the blocks below it on the path.
      have hstep : db.SameEpoch bm.headerHash parent.headerHash := by
        refine ⟨?_, epoch, ?_, ?_⟩
        · rw [hkey]
          exact hbm.link
        · rw [epochAt_of_recorded hbm, hepoch]
        · rw [hkey, Store.epochAt_of_get hget, hsame]
      rw [ih (recorded_of_get hkeyed hget) hsame hrest]
      constructor
      · rintro (rfl | hwalk)
        · exact .refl
        · exact .head hstep hwalk
      · intro hwalk
        rcases Relation.ReflTransGen.cases_head hwalk with heq | ⟨z, hz, hwalk⟩
        · exact .inl heq.symm
        · have hlink : z = parent.headerHash := Option.some.inj (hz.1.symm.trans hstep.1)
          exact .inr (hlink ▸ hwalk)
    · -- The block is the first of its epoch.
      have hend : rest = [] := by
        cases fuel with
        | zero => cases hrest
        | succ fuel =>
          rw [Chain.epochPath, if_neg (show ¬epochOf parent.slotNumber = epoch from hsame)]
            at hrest
          cases hrest
          rfl
      rw [hend]
      constructor
      · rintro (rfl | hmem)
        · exact .refl
        · cases hmem
      · intro hwalk
        rcases Relation.ReflTransGen.cases_head hwalk with heq | ⟨z, ⟨hlink, e, hx, hz⟩, -⟩
        · exact .inl heq.symm
        · rw [hbm.link, Option.some.injEq] at hlink
          subst hlink
          rw [epochAt_of_recorded hbm, Option.some.injEq] at hx
          rw [Store.epochAt_of_get hget, Option.some.injEq] at hz
          exact absurd (hz.trans (hx.symm.trans hepoch)) hsame

theorem getEpochMetaData_last (hkeyed : db.Keyed)
    (hlater : epochOf slot ≠ 0) (hlast : db.epochAt last = some epoch)
    (hne : epoch ≠ epochOf slot) (h : db.getEpochMetaData slot last = .ok e) :
    db.epochMetaData.get (epochOf slot, last) = some e := by
  have hslot : slot ≠ 0 := by
    rintro rfl
    exact hlater rfl
  unfold Store.getEpochMetaData at h
  rw [if_neg hslot] at h
  rcases bind_eq_ok.1 h with ⟨k, hk, h⟩
  unfold Store.walkFuel at hk
  rw [Store.prevEpochLastHash] at hk
  rcases bind_eq_ok.1 hk with ⟨bm, hbm, hk⟩
  have hget := orFail_eq_ok.1 hbm
  rw [Store.epochAt_of_get hget, Option.some.injEq] at hlast
  rw [if_neg hlater, hkeyed _ _ hget, if_neg (show ¬epochOf bm.slotNumber = epochOf slot from
    fun heq => hne (hlast.symm.trans heq)), ite_self, pure_eq_ok] at hk
  rw [hk]
  exact orFail_eq_ok.1 h

end Closing

section Support

variable {ext : Externals} {g : Block} {c : Chain}

theorem Recalled.supported (hi : Recalled ext g c) {s s' : StateDB}
    {e' : EpochMetaData} {pm first : BlockMetaData} {path : List Hash}
    (hc : Closed ext c.db s slot k s' e' pm first path e) (hlater : pm.epoch ≠ 0)
    (hsupply : ∀ key e, c.db.epochMetaData.get key = some e →
      e.validators.length * Config.stakeAmount.toNat ≤ Config.maxCoinSupply.toNat)
    (henough : e'.TwoThirds) : c.db.Supported k := by
  have hget := orFail_eq_ok.1 hc.parent
  have hrec := recorded_of_get hi.sound.keyed hget
  have hkey := hi.sound.keyed _ _ hget
  have hstored := (nextEpochMetaData_of_ok hc.next).1
  rcases hi.epochPath_spec hrec hstored hc.walked with ⟨hall, hpairs⟩
  have hmem := mem_epochPath hc.walked
  rcases hall _ hmem with ⟨x, hx, -, -⟩
  rcases exists_of_getEpochMetaData hc.record with ⟨last, hlast⟩
  rcases hc.allotted (hi.records _ e hlast).1.nodup with ⟨-, -, -, -, hfound, halloted⟩
  refine ⟨x, e, path, hkey ▸ hx, hi.record_path hc hmem hx, ?_, ?_, ?_⟩
  · refine hpairs.imp ?_
    rintro y y' hlt rfl
    exact Nat.lt_irrefl _ hlt
  · rw [← hkey]
    exact mem_epochPath_iff hi.sound.keyed hlater hrec rfl hc.walked
  · unfold EpochMetaData.TwoThirds at henough
    rw [hfound, halloted] at henough
    exact two_thirds_of_products (hsupply _ e hlast) henough

theorem closed_of_calculate {s s' : StateDB}
    (hk : db.epochAt k = some epoch) (hne : epoch ≠ epochOf slot)
    (h : Chain.calculateEpochMetaData ext db s slot k = .ok (s', e)) :
    ∃ pm first path e₀, Closed ext db s slot k s' e pm first path e₀ ∧ pm.epoch = epoch := by
  rcases calculateEpochMetaData_of_ok h with ⟨pm, hpm, hcases⟩
  rw [Store.epochAt_of_get (orFail_eq_ok.1 hpm), Option.some.injEq] at hk
  rcases hcases with ⟨hsame, -⟩ | ⟨-, first, path, e₀, hc⟩
  · exact absurd (hk.symm.trans hsame) hne
  · exact ⟨pm, first, path, e₀, hc, hk⟩

theorem Recalled.supported_last (hi : Recalled ext g c)
    (hlast : c.db.epochAt last = some epoch) (hne : epoch ≠ epochOf slot)
    (hlater : epoch ≠ 0) (hopened : epochOf slot ≠ 0)
    (hsupply : ∀ key e, c.db.epochMetaData.get key = some e →
      e.validators.length * Config.stakeAmount.toNat ≤ Config.maxCoinSupply.toNat)
    (he : c.db.getEpochMetaData slot last = .ok e) (henough : e.TwoThirds) :
    c.db.Supported last := by
  have hget := getEpochMetaData_last hi.sound.keyed hopened hlast hne he
  rcases hi.derived _ e hget hopened with ⟨r, s, s', e', -, -, -, rfl, hcalc⟩
  rcases closed_of_calculate hlast hne (hcalc slot rfl) with ⟨pm, first, path, e₀, hc, hepoch⟩
  exact hi.supported hc (hepoch ▸ hlater) hsupply henough

theorem Rooted.epoch_lt (hr : Rooted g db) {e e' : UInt64}
    (h : db.LastBefore k last) (hk : db.epochAt k = some e) (hlast : db.epochAt last = some e') :
    e' < e := by
  rcases h with ⟨first, f, f', hwalk, hlink, hf, hf', hne⟩
  rw [← Store.epochAt_of_sameEpoch hwalk, hf, Option.some.injEq] at hk
  rw [hf', Option.some.injEq] at hlast
  subst hk hlast
  rcases Option.map_eq_some_iff.1 hf with ⟨r, hr', rfl⟩
  rcases Option.map_eq_some_iff.1 hf' with ⟨p, hp, rfl⟩
  have hparent : r.parentHeaderHash = last := by
    unfold Store.link at hlink
    rw [hr', Option.map_some, Option.some.injEq] at hlink
    exact hlink
  rcases hr.origin with ⟨r₀, hr₀, hzero, hslot₀⟩
  -- Genesis and the record it hangs on are of one epoch, and below is nothing.
  have horigin : first ≠ g.parentHash := by
    rintro rfl
    rw [hr₀, Option.some.injEq] at hr'
    rw [← hparent, ← hr', hzero, hr.bottom] at hp
    cases hp
  have hgenesis : first ≠ g.hash := by
    rintro rfl
    rcases hr.genesis with ⟨r₁, hr₁, hup, hslot₁⟩
    rw [hr₁, Option.some.injEq] at hr'
    subst hr'
    rw [← hparent, hup, hr₀, Option.some.injEq] at hp
    exact hne (by rw [← hp, hslot₀, hslot₁])
  rcases hr.links first r hr' horigin hgenesis with ⟨p', hp', -, hlt⟩
  rw [hparent, hp, Option.some.injEq] at hp'
  subst hp'
  have hle := epochOf_mono (Nat.le_of_lt (UInt64.lt_iff_toNat_lt.1 hlt))
  have hdiff : (epochOf p.slotNumber).toNat ≠ (epochOf r.slotNumber).toNat :=
    fun heq => hne (UInt64.toNat_inj.1 heq)
  exact UInt64.lt_iff_toNat_lt.2 (by omega)

end Support

section Sound

variable {ext : Externals} {g : Block} {c c' : Chain} {b : Block}

theorem finalization_of_addBlock {now : UInt64} (hs : c.db.Sound) (hslot : b.slotNumber ≠ 0)
    (h : c.addBlock ext now b = .ok (true, c')) {m m' : MainChainMetaData}
    (hm : c.db.mainChainMetaData = some m) (hm' : c'.db.mainChainMetaData = some m')
    (hmoved : m'.finalizedBlockHeaderHash ≠ m.finalizedBlockHeaderHash) :
    ∃ a x ctx last e, Added ext c b c' a ∧ b.epoch ≠ a.parentBlock.epoch ∧
      x.parentHash = b.parentHash ∧ ctx.epochMetaData = a.epoch ∧
      ctx.mainChainMetaData.finalizedBlockHeaderHash = m.finalizedBlockHeaderHash ∧
      Finalization a.committed x ctx c'.db last m'.finalizedBlockHeaderHash e := by
  rcases Chain.addBlock_cases h with ⟨hfalse, -⟩ | ⟨-, parent, p, hcheck, hprocess, hfinish⟩
  · cases hfalse
  rcases Chain.checkBlock_of_some hcheck with ⟨-, -, -, -, hparent, -⟩
  rcases added_of_finishBlock hs hslot hparent hprocess hfinish with
    ⟨a, ha, hdb, hhead, hphash, hpslot, hepoch⟩
  have hmain : a.main = m := Option.some.inj (ha.main.symm.trans hm)
  have hblock : a.parentBlock = parent := Option.some.inj (ha.parentBlock.symm.trans hparent)
  have hfinalized := (tooEarly_head ha.toExecuted 0).2.1
  rw [hmain] at hfinalized
  -- A store that only `Commit` has written has the finalized block it had.
  have hsame : c'.db ≠ a.committed := by
    intro heq
    have hold := ha.head
    rw [← heq, hm', Option.some.injEq] at hold
    exact hmoved (hold ▸ hfinalized)
  rcases Chain.finishBlock_cases (hdb ▸ ha.head) hfinish with ⟨-, -, heq | ⟨-, hopens, hfinal⟩⟩
  · exact absurd (heq.trans hdb) hsame
  rw [hdb] at hfinal
  rcases updateFinalizedEpoch_of_ok ha.keyed hfinal with heq | ⟨last, final, e, hf⟩
  · exact absurd heq hsame
  have hat : m'.finalizedBlockHeaderHash = final := by
    rcases hf.main with ⟨slot, hmain'⟩
    rw [hm', Option.some.injEq] at hmain'
    rw [hmain']
    rfl
  refine ⟨a, p.block, p.ctx, last, e, ha, ?_, hphash, hepoch, ?_, hat ▸ hf⟩
  · rw [hblock]
    have hsameEpoch : p.block.epoch = b.epoch := congrArg epochOf hpslot
    exact hsameEpoch ▸ hopens
  · rw [hhead]
    exact hfinalized

theorem SameTree.extends {db' : Store} (h : SameTree db db') : db.Extends db' := by
  refine ⟨fun k r hr => ?_, fun k x hx => ?_, fun key e he => ?_, h.size⟩
  · rw [h.core]
    exact hr
  · rw [h.blocks]
    exact hx
  · rw [h.epochs]
    exact he

theorem SameTree.epochAt {db' : Store} (h : SameTree db db') (k : Hash) :
    db'.epochAt k = db.epochAt k := by
  unfold Store.epochAt
  rw [h.core]

/-- In every run of offered blocks in which no epoch has more stake than there are
    coins: when a block moves the finalized block, the new one is another block and
    descends from the old, the block descends from the new one, which is the last
    before the two most recent epochs of the branch that have blocks, and both have
    the support. -/
theorem finalization_sound {preState : List (List UInt8 × UInt64)} {c₀ : Chain} {now : UInt64}
    {m m' : MainChainMetaData} (hg : Grounded g) (h₀ : genesisChain ext g preState = .ok c₀)
    (hrun : Run ext Offered c₀ c) (hv : Offered c b) (hadd : c.addBlock ext now b = .ok (true, c'))
    (hsupply : ∀ key e, c'.db.epochMetaData.get key = some e →
      e.validators.length * Config.stakeAmount.toNat ≤ Config.maxCoinSupply.toNat)
    (hm : c.db.mainChainMetaData = some m) (hm' : c'.db.mainChainMetaData = some m')
    (hmoved : m'.finalizedBlockHeaderHash ≠ m.finalizedBlockHeaderHash) :
    Descends c'.db.link m'.finalizedBlockHeaderHash m.finalizedBlockHeaderHash ∧
      Descends c'.db.link b.hash m'.finalizedBlockHeaderHash ∧
      ∃ last e₀ e₁ e₂, c'.db.LastBefore b.parentHash last ∧
        c'.db.LastBefore last m'.finalizedBlockHeaderHash ∧
        c'.db.epochAt m'.finalizedBlockHeaderHash = some e₀ ∧ c'.db.epochAt last = some e₁ ∧
        c'.db.epochAt b.parentHash = some e₂ ∧ e₀ < e₁ ∧ e₁ < e₂ ∧ e₂ < b.epoch ∧
        c'.db.Supported last ∧ c'.db.Supported b.parentHash := by
  rcases rooted_of_run hg h₀ hrun with ⟨hi, hr⟩
  have hi' := hi.addBlock hv.toFresh hadd
  have hr' := hr.addBlock hi.sound hv.toFresh.ascending hv.hash_ne hadd
  rcases parent_of_addBlock hadd with ⟨parent, hparent⟩
  have hslot := slotNumber_ne_zero (hv.after parent hparent)
  rcases finalization_of_addBlock hi.sound hslot hadd hm hm' hmoved with
    ⟨a, x, ctx, last, e, ha, hopens, hxp, hctx, hold, hf⟩
  have hx := hi.extends hv.toFresh ha
  have htree := ha.sameTree
  have hwalks : ∀ {k last}, a.committed.LastBefore k last → c'.db.LastBefore k last :=
    fun hlast => hlast.congr (fun y _ => htree.core y)
  have hopened := hwalks (hxp ▸ hf.opened)
  have hbefore := hwalks hf.before
  -- The three epochs, each after the one before.
  rcases hopened with ⟨first, f, e₁, hwalk, hlink, hfirst, he₁, hne₁⟩
  rcases hbefore with ⟨first', f', e₀, hwalk', hlink', hfirst', he₀, hne₀⟩
  have he₂ : c'.db.epochAt b.parentHash = some f := by
    rw [← Store.epochAt_of_sameEpoch hwalk]
    exact hfirst
  have hopened : c'.db.LastBefore b.parentHash last :=
    ⟨first, f, e₁, hwalk, hlink, hfirst, he₁, hne₁⟩
  have hbefore : c'.db.LastBefore last m'.finalizedBlockHeaderHash :=
    ⟨first', f', e₀, hwalk', hlink', hfirst', he₀, hne₀⟩
  have hlt₁ := hr'.epoch_lt hopened he₂ he₁
  have hlt₀ := hr'.epoch_lt hbefore he₁ he₀
  have hparentEpoch : c'.db.epochAt b.parentHash = some a.parent.epoch :=
    Store.epochAt_of_core (hx.core _ _ (Store.core_of_get ha.parent))
  have hfe : f = a.parent.epoch := Option.some.inj (he₂.symm.trans hparentEpoch)
  have hafter := parent_slot_lt hi hv.toFresh ha
  have hblockEpoch : a.parentBlock.epoch = a.parent.epoch := by
    rcases hi.sound.recorded _ _ ha.parentBlock with ⟨r, hrec, -, hs⟩
    rw [Store.core_of_get ha.parent, Option.some.injEq] at hrec
    exact congrArg epochOf (hs.symm.trans (congrArg RecordCore.slotNumber hrec.symm))
  have hlt₂ : f < b.epoch := by
    have hle := epochOf_mono (Nat.le_of_lt (UInt64.lt_iff_toNat_lt.1 hafter))
    have hdiff : (epochOf a.parent.slotNumber).toNat ≠ (epochOf b.slotNumber).toNat :=
      fun heq => hopens ((UInt64.toNat_inj.1 heq).symm.trans hblockEpoch.symm)
    rw [hfe]
    exact UInt64.lt_iff_toNat_lt.2 (by unfold BlockMetaData.epoch Block.epoch; omega)
  have hlater₁ : e₁ ≠ 0 := slotNumber_ne_zero hlt₀
  have hlater₂ : f ≠ 0 := slotNumber_ne_zero hlt₁
  refine ⟨?_, ?_, last, e₀, e₁, f, hopened, hbefore, he₀, he₁, he₂, hlt₀, hlt₁, hlt₂, ?_, ?_⟩
  · rw [← hold]
    exact hf.onward.mono (fun y z hyz => (htree.link y).trans hyz)
  · have hself : c'.db.link b.hash = some b.parentHash := by
      rcases ha.recorded hv.toFresh.ascending.1 with ⟨r, hrec, hup, -⟩
      unfold Store.link
      rw [hrec, Option.map_some, hup]
    exact Descends.of_parent hself (hopened.descends.trans hbefore.descends)
  · -- The epoch before: asked of the record of the epoch that closes.
    rcases hf.record with ⟨slot, hslotEpoch, he⟩
    rw [hxp, ← htree.epochAt, he₂, Option.some.injEq] at hslotEpoch
    exact hi'.supported_last he₁ (hslotEpoch ▸ hne₁) hlater₁ (hslotEpoch ▸ hlater₂) hsupply
      (htree.extends.getEpochMetaData he) hf.enough'
  · -- The epoch that closes: asked of the record the block ran under.
    have hcalc := hx.calculateEpochMetaData ha.moved
    have hne : f ≠ epochOf b.slotNumber := fun heq => by
      have hirrefl := heq ▸ hlt₂
      exact UInt64.lt_irrefl _ hirrefl
    rcases closed_of_calculate he₂ hne hcalc with ⟨pm, oldest, path, e', hc, hepoch⟩
    exact hi'.supported hc (hepoch ▸ hlater₂) hsupply (hctx ▸ hf.enough)

end Sound

/-- No epoch of a store has more stake than there are coins. -/
def Store.supplied (db : Store) : Bool :=
  db.epochMetaData.entries.all (fun entry => decide
    (entry.2.validators.length * Config.stakeAmount.toNat ≤ Config.maxCoinSupply.toNat))

theorem Store.supplied_spec (h : db.supplied = true) (key : UInt64 × Hash)
    (e : EpochMetaData) (he : db.epochMetaData.get key = some e) :
    e.validators.length * Config.stakeAmount.toNat ≤ Config.maxCoinSupply.toNat := by
  unfold Store.supplied at h
  have hentry := List.all_eq_true.1 h _ (AssocMap.mem_of_find he)
  rw [decide_eq_true_eq] at hentry
  exact hentry

theorem toyRun_finalizes : ∃ c₀ c, genesisChain toyExternals toyGenesis toyPreState = .ok c₀ ∧
    Run toyExternals Offered c₀ c ∧ offered c toyFinalizer = true ∧
    c.db.mainChainMetaData.map MainChainMetaData.finalizedBlockHeaderHash
      = some toyGenesis.hash ∧
    (c.addBlock toyExternals toyNow toyFinalizer).map (fun r => (r.1,
      r.2.db.mainChainMetaData.map MainChainMetaData.finalizedBlockHeaderHash))
      = .ok (true, some (firstHash toyFinalizing)) ∧
    (c.addBlock toyExternals toyNow toyFinalizer).map (fun r => r.2.db.supplied) = .ok true := by
  refine exists_run_of_check toyNow toyFinalizing.dropLast _ offered_of_test ?_
  decide +kernel

theorem firstHash_toyFinalizing_ne : firstHash toyFinalizing ≠ toyGenesis.hash := by
  decide +kernel

theorem toyRun_finalization_sound : ∃ c₀ c c' m',
    genesisChain toyExternals toyGenesis toyPreState = .ok c₀ ∧ Run toyExternals Offered c₀ c ∧
    c.addBlock toyExternals toyNow toyFinalizer = .ok (true, c') ∧
    c'.db.mainChainMetaData = some m' ∧
    m'.finalizedBlockHeaderHash = firstHash toyFinalizing ∧
    c'.db.Supported toyFinalizer.parentHash := by
  rcases toyRun_finalizes with ⟨c₀, c, h₀, hrun, hoffered, hm, hadd, hsupplied⟩
  rcases Option.map_eq_some_iff.1 hm with ⟨m, hm, hold⟩
  rcases map_eq_ok.1 hadd with ⟨⟨added, c'⟩, hadd, hfacts⟩
  rw [Prod.mk.injEq] at hfacts
  rcases hfacts with ⟨rfl, hm'⟩
  rcases Option.map_eq_some_iff.1 hm' with ⟨m', hm', hnew⟩
  rw [hadd] at hsupplied
  have hmoved : m'.finalizedBlockHeaderHash ≠ m.finalizedBlockHeaderHash := by
    rw [hnew, hold]
    exact firstHash_toyFinalizing_ne
  rcases finalization_sound toyGenesis_grounded h₀ hrun (offered_of_test _ _ hoffered) hadd
    (Store.supplied_spec (Except.ok.inj hsupplied)) hm hm' hmoved with
    ⟨-, -, last, e₀, e₁, e₂, -, -, -, -, -, -, -, -, -, hsupported⟩
  exact ⟨c₀, c, c', m', h₀, hrun, hadd, hm', hnew, hsupported⟩

def toyReturning : List Block :=
  toyBranch toyGenesis.hash [(2, 1, 1), (1, 200, 2), (2, 201, 2), (1, 100, 3), (2, 101, 3),
    (1, 200, 4), (2, 201, 4)]

def toyPassed : Block := (toyReturning[2]?).getD toyGenesis

def toyReturner : Block := toyBlock 1 300 (lastHash toyReturning) [] 5

/-- On that branch the block that is finalized is of the third epoch, like the parent
    of the block that finalizes it. -/
theorem finalization_unordered : ∃ c₀ c c' m m',
    genesisChain toyExternals toyGenesis toyPreState = .ok c₀ ∧
    Run toyExternals (fun _ _ => True) c₀ c ∧
    c.addBlock toyExternals toyNow toyReturner = .ok (true, c') ∧
    c.db.mainChainMetaData = some m ∧ c'.db.mainChainMetaData = some m' ∧
    m'.finalizedBlockHeaderHash ≠ m.finalizedBlockHeaderHash ∧
    c'.db.epochAt m'.finalizedBlockHeaderHash = some 2 ∧
    c'.db.epochAt toyReturner.parentHash = some 2 := by
  have hrun := exists_toyRun toyReturning (fun _ c =>
    c.db.mainChainMetaData.map MainChainMetaData.finalizedBlockHeaderHash
      = some toyGenesis.hash ∧
    (c.addBlock toyExternals toyNow toyReturner).map (fun r => (r.1,
      r.2.db.mainChainMetaData.map MainChainMetaData.finalizedBlockHeaderHash))
      = .ok (true, some toyPassed.hash) ∧ toyPassed.hash ≠ toyGenesis.hash ∧
    (c.addBlock toyExternals toyNow toyReturner).map (fun r =>
      (r.2.db.epochAt toyPassed.hash, r.2.db.epochAt toyReturner.parentHash))
      = .ok (some 2, some 2)) (by decide +kernel)
  rcases hrun with ⟨c₀, c, h₀, hrun, hm, hadd, hne, hepochs⟩
  rcases Option.map_eq_some_iff.1 hm with ⟨m, hm, hold⟩
  rcases map_eq_ok.1 hadd with ⟨⟨added, c'⟩, hadd, hfacts⟩
  rw [Prod.mk.injEq] at hfacts
  rcases hfacts with ⟨rfl, hm'⟩
  rcases Option.map_eq_some_iff.1 hm' with ⟨m', hm', hnew⟩
  rw [hadd] at hepochs
  have hpair := Prod.mk.inj (Except.ok.inj hepochs)
  refine ⟨c₀, c, c', m, m', h₀, hrun, hadd, hm, hm', ?_, ?_, hpair.2⟩
  · rw [hnew, hold]
    exact hne
  · rw [hnew]
    exact hpair.1

end Zond
