import Zond.Core.Load
import Zond.Theory.NextEpoch

/-!
# Loading Again

Whether a chain was initialised is told by one record, which is written before the
checks of the genesis block. A load that fails after it leaves a record that names the
zero hash as the last block. Every later load takes that record for an initialised
chain, does not find the block and fails.

## Main definitions

* `Unbroken`: No load stops between its writes.

## Theorems

* `load_retried`: Then one that fails leaves an empty disk, and the next one starts over.
-/

namespace Zond

open Outcome

variable {ext : Externals} {g : Block} {preState : List (List UInt8 × UInt64)}

section Genesis

theorem genesisChain_eq : genesisChain ext g preState = (do
    let st ← genesisExec ext g preState (genesisPreStore g)
    let p ← sealBlock ext g st true (genesisPreStore g) AssocMap.empty
    let m ← p.db.getMainChainMetaData
    let lastBlock ← p.db.getBlock m.lastBlockHeaderHash
    pure { db := p.db, tries := p.tries, lastBlock := lastBlock }) := by
  simp only [genesisChain, processGenesis, genesisExec, bind_assoc, pure_bind]

theorem context_of_genesisExec (hslot : g.slotNumber = 0) {st : ExecState}
    (h : genesisExec ext g preState (genesisPreStore g) = .ok st) :
    st.ctx.slotNumber = 0 ∧ st.ctx.blockHeaderHash = g.hash ∧
      st.ctx.epochBlockHashes = EpochBlockHashes.new 0 := by
  unfold genesisExec at h
  rcases bind_eq_ok.1 h with ⟨s, -, h⟩
  rcases bind_eq_ok.1 h with ⟨first, -, h⟩
  rcases bind_eq_ok.1 h with ⟨partialHash, -, h⟩
  rcases bind_eq_ok.1 h with ⟨signingHash, -, h⟩
  rcases bind_eq_ok.1 h with ⟨ctx, hnew, h⟩
  rcases bind_eq_ok.1 h with ⟨validators, -, h⟩
  rcases bind_eq_ok.1 h with ⟨⟨env, st₀⟩, hexec, h⟩
  rcases bind_eq_ok.1 h with ⟨st₁, hloops, h⟩
  rcases bind_eq_ok.1 h with ⟨⟨s', e⟩, -, h⟩
  rw [pure_eq_ok] at h
  rcases StateContext.new_of_ok hnew with ⟨hslotNumber, -, hhash, -⟩
  have hhashes := StateContext.new_epochBlockHashes hnew
  rw [number_eq_zero hslot] at hslotNumber hhashes
  unfold newExec at hexec
  rcases bind_eq_ok.1 hexec with ⟨minter, -, hexec⟩
  simp only [pure_eq_ok, Prod.mk.injEq] at hexec
  -- In slot 0 the loops do not touch the context.
  have hctx : st₁.ctx = ctx.prepareValidators first.pk := by
    rw [processTransactions_ctx_of_slotZero (hexec.2 ▸ hslotNumber) hloops, ← hexec.2]
  rw [← h]
  rw [hctx]
  exact ⟨hslotNumber, hhash, hhashes⟩

theorem addHeaderHashBySlotNumber_new (h : Hash) :
    ∃ hashes, (EpochBlockHashes.new 0).addHeaderHashBySlotNumber h 0 = .ok hashes :=
  ⟨_, rfl⟩

theorem exists_commit_of_slotZero {ctx : StateContext} (hslot : ctx.slotNumber = 0)
    (hhashes : ctx.epochBlockHashes = EpochBlockHashes.new 0) (b : Block)
    (preceipts receipts : List Receipt) (trieRoot : Hash) (db : Store) :
    ∃ ctx' db', commit ctx b preceipts receipts trieRoot true db = .ok (ctx', db') := by
  rcases addHeaderHashBySlotNumber_new ctx.blockHeaderHash with ⟨hashes, hadd⟩
  unfold commit commitBase
  rw [if_pos hslot, hhashes, hslot]
  have hzero : ctx.markFinalized.markLast.slotNumber = 0 := hslot
  simp only [ok_bind, hadd, if_true, hzero, true_or]
  exact ⟨_, _, rfl⟩

end Genesis

/-- The load of an empty disk fails before its first write is made. -/
def FailsEarly (faults : LoadPoint → Bool) : Prop :=
  faults .openDatabase = true ∨ faults .openState = true ∨ faults .readGenesisBlock = true ∨
    faults .readPreState = true ∨ faults .preStateUpdate = true

/-- The genesis block can be executed, and what comes after can be written. -/
def Completes (ext : Externals) (faults : LoadPoint → Bool) (g : Block)
    (preState : List (List UInt8 × UInt64)) : Prop :=
  (∃ st, genesisExec ext g preState (genesisPreStore g) = .ok st) ∧
    faults .stateCommit = false ∧ faults .trieCommit = false ∧ faults .commitUpdate = false

/-- The load of an empty disk fails before its first write or not at all. -/
def Unbroken (ext : Externals) (faults : LoadPoint → Bool) (g : Block)
    (preState : List (List UInt8 × UInt64)) : Prop :=
  FailsEarly faults ∨ Completes ext faults g preState

section Fresh

variable {faults : LoadPoint → Bool}

theorem loadGenesis_of_completes (hslot : g.slotNumber = 0)
    (hpre : faults .preStateUpdate = false) (h : Completes ext faults g preState) :
    ∃ c, genesisChain ext g preState = .ok c ∧
      loadGenesis ext faults g preState .fresh = (none, { db := c.db, tries := c.tries }) := by
  rcases h with ⟨⟨st, hexec⟩, hstate, htrie, hupdate⟩
  rcases context_of_genesisExec hslot hexec with ⟨hzero, hhash, hhashes⟩
  let trie := st.statedb.finalise.commit
  let root := ext.stateRoot trie.get
  let b := g.updateRoots root
    (createBloom ext.toCrypto (st.protocolTxReceipts.map Receipt.logs))
    (createBloom ext.toCrypto (st.txReceipts.map Receipt.logs))
  rcases exists_commit_of_slotZero hzero hhashes b st.protocolTxReceipts st.txReceipts root
    (genesisPreStore g) with ⟨ctx', db', hcommit⟩
  rcases commit_of_slotZero hzero hcommit with ⟨-, hblocks, -, hmain, hmarked⟩
  have hlast : ctx'.mainChainMetaData.lastBlockHeaderHash = g.hash := by
    rw [hmarked]
    exact hhash
  have hmainOk : db'.getMainChainMetaData = .ok ctx'.mainChainMetaData := by
    rw [Store.getMainChainMetaData, hmain]
    rfl
  have hblockOk : db'.getBlock ctx'.mainChainMetaData.lastBlockHeaderHash = .ok b := by
    rw [Store.getBlock, hblocks, hlast]
    exact congrArg _ (AssocMap.get_put_self ..)
  refine ⟨{ db := db', tries := AssocMap.putNew .empty root trie, lastBlock := b }, ?_, ?_⟩
  · rw [genesisChain_eq, hexec, ok_bind, sealBlock, hcommit]
    simp only [ok_bind, pure_bind, hmainOk, hblockOk]
    rfl
  · have hexec' : genesisExec ext g preState (preStateCommit g Disk.fresh.db) = .ok st := hexec
    have hcommit' : commit st.ctx b st.protocolTxReceipts st.txReceipts root true
        (preStateCommit g Disk.fresh.db) = .ok (ctx', db') := hcommit
    simp only [loadGenesis, hpre, hexec', hstate, htrie, hupdate, Bool.false_eq_true, if_false]
    rw [hcommit']
    rfl

theorem loadGenesis_of_not_completes (hpre : faults .preStateUpdate = false)
    (h : ¬Completes ext faults g preState) : ∃ e tries, loadGenesis ext faults g preState .fresh =
      (some e, { db := genesisPreStore g, tries := tries }) := by
  cases hexec : genesisExec ext g preState (genesisPreStore g) with
  | error f =>
    have hexec' : genesisExec ext g preState (preStateCommit g Disk.fresh.db) = .error f := hexec
    simp only [loadGenesis, hpre, hexec', Bool.false_eq_true, if_false]
    exact ⟨_, _, rfl⟩
  | ok st =>
    have hexec' : genesisExec ext g preState (preStateCommit g Disk.fresh.db) = .ok st := hexec
    simp only [loadGenesis, hpre, hexec', Bool.false_eq_true, if_false]
    by_cases hstate : faults .stateCommit = true
    · rw [if_pos hstate]
      exact ⟨_, _, rfl⟩
    by_cases htrie : faults .trieCommit = true
    · rw [if_neg hstate, if_pos htrie]
      exact ⟨_, _, rfl⟩
    rw [if_neg hstate, if_neg htrie]
    by_cases hupdate : faults .commitUpdate = true
    · split
      · exact ⟨_, _, rfl⟩
      · rw [if_pos hupdate]
        exact ⟨_, _, rfl⟩
    · exact absurd ⟨⟨st, hexec⟩, Bool.eq_false_iff.2 hstate, Bool.eq_false_iff.2 htrie,
        Bool.eq_false_iff.2 hupdate⟩ h

theorem load_of_failsEarly (h : FailsEarly faults) :
    ∃ e, load ext faults g preState .fresh = (.error e, .fresh) := by
  have hnone : Disk.fresh.db.mainChainMetaData = none := rfl
  unfold load
  by_cases hopen : faults .openDatabase = true
  · rw [if_pos hopen]
    exact ⟨_, rfl⟩
  rw [if_neg hopen, hnone]
  by_cases hstate : faults .openState = true
  · rw [if_pos hstate]
    exact ⟨_, rfl⟩
  rw [if_neg hstate]
  by_cases hgenesis : faults .readGenesisBlock = true
  · rw [if_pos hgenesis]
    exact ⟨_, rfl⟩
  rw [if_neg hgenesis]
  by_cases hread : faults .readPreState = true
  · rw [if_pos hread]
    exact ⟨_, rfl⟩
  rw [if_neg hread]
  have hpre : faults .preStateUpdate = true := by
    rcases h with h | h | h | h | h
    · exact absurd h hopen
    · exact absurd h hstate
    · exact absurd h hgenesis
    · exact absurd h hread
    · exact h
  rw [loadGenesis, if_pos hpre]
  exact ⟨_, rfl⟩

theorem preStateUpdate_of_not_failsEarly (h : ¬FailsEarly faults) :
    faults .preStateUpdate = false :=
  Bool.eq_false_iff.2 (fun hpre => h (.inr (.inr (.inr (.inr hpre)))))

theorem load_of_loadGenesis (h : ¬FailsEarly faults) {e : Option LoadErr} {disk : Disk}
    (hgenesis : loadGenesis ext faults g preState .fresh = (e, disk)) :
    load ext faults g preState .fresh = (e.elim (loadLast disk) .error, disk) := by
  unfold FailsEarly at h
  simp only [not_or, Bool.not_eq_true] at h
  rcases h with ⟨hopen, hstate, hread, hfile, -⟩
  have hnone : Disk.fresh.db.mainChainMetaData = none := rfl
  simp only [load, hopen, hstate, hread, hfile, hnone, Bool.false_eq_true, if_false]
  rw [hgenesis]
  cases e <;> rfl

theorem load_of_completes (hslot : g.slotNumber = 0) (hearly : ¬FailsEarly faults)
    (h : Completes ext faults g preState) : ∃ c, genesisChain ext g preState = .ok c ∧
      load ext faults g preState .fresh = (.ok c, { db := c.db, tries := c.tries }) := by
  have hpre := preStateUpdate_of_not_failsEarly hearly
  rcases loadGenesis_of_completes hslot hpre h with ⟨c, hc, hgenesis⟩
  refine ⟨c, hc, ?_⟩
  rw [load_of_loadGenesis hearly hgenesis, Option.elim_none]
  have hlast : loadLast { db := c.db, tries := c.tries } = .ok c := by
    rw [genesisChain_eq] at hc
    rcases bind_eq_ok.1 hc with ⟨st, -, hc⟩
    rcases bind_eq_ok.1 hc with ⟨p, -, hc⟩
    rcases bind_eq_ok.1 hc with ⟨m, hm, hc⟩
    rcases bind_eq_ok.1 hc with ⟨last, hl, hc⟩
    rw [pure_eq_ok] at hc
    subst hc
    simp only [loadLast, hm, hl, ok_bind]
    rfl
  rw [hlast]

theorem load_of_not_completes (hearly : ¬FailsEarly faults) (h : ¬Completes ext faults g preState) :
    ∃ e tries, load ext faults g preState .fresh =
      (.error e, { db := genesisPreStore g, tries := tries }) := by
  have hpre := preStateUpdate_of_not_failsEarly hearly
  rcases loadGenesis_of_not_completes hpre h with ⟨e, tries, hgenesis⟩
  exact ⟨e, tries, load_of_loadGenesis hearly hgenesis⟩

theorem load_stuck (faults : LoadPoint → Bool) (g' : Block)
    (preState' : List (List UInt8 × UInt64)) (tries : Tries) :
    ∃ e, load ext faults g' preState' { db := genesisPreStore g, tries := tries } =
      (.error e, { db := genesisPreStore g, tries := tries }) := by
  unfold load
  by_cases hopen : faults .openDatabase = true
  · rw [if_pos hopen]
    exact ⟨_, rfl⟩
  · rw [if_neg hopen]
    exact ⟨_, rfl⟩

end Fresh

/-- Whatever the main chain record names is stored: the last block, its metadata, the
    record of its epoch and its state. -/
def Disk.Intact (disk : Disk) : Prop :=
  ∀ m, disk.db.mainChainMetaData = some m → ∃ b bm e s,
    disk.db.blocks.get m.lastBlockHeaderHash = some b ∧
    disk.db.blockMetaData.get m.lastBlockHeaderHash = some bm ∧
    disk.db.getEpochMetaData b.slotNumber b.parentHash = .ok e ∧
    Chain.openState disk.tries bm.trieRoot = .ok s

theorem Disk.intact_fresh : Disk.fresh.Intact := by
  intro m hm
  cases hm

theorem not_intact_genesisPreStore (tries : Tries) :
    ¬Disk.Intact { db := genesisPreStore g, tries := tries } := by
  intro h
  rcases h _ rfl with ⟨b, bm, e, s, hblock, -⟩
  cases hblock

theorem load_of_initialised {disk : Disk} {m : MainChainMetaData}
    (h : disk.db.mainChainMetaData = some m) (faults : LoadPoint → Bool) :
    (load ext faults g preState disk).2 = disk := by
  unfold load
  by_cases hopen : faults .openDatabase = true
  · rw [if_pos hopen]
  · rw [if_neg hopen, h]

section Lives

def Chain.Openable (c : Chain) : Prop :=
  ∀ k x, c.db.blocks.get k = some x →
    ∃ r s, c.db.core k = some r ∧ Chain.openState c.tries r.trieRoot = .ok s

variable {c c' : Chain} {b : Block}

theorem openState_putNew_self (tries : Tries) (root : Hash) (trie : AssocMap Address Account) :
    ∃ s, Chain.openState (tries.putNew root trie) root = .ok s := by
  unfold Chain.openState
  by_cases hzero : root = zeroHash
  · rw [if_pos hzero]
    exact ⟨_, rfl⟩
  · rw [if_neg hzero, AssocMap.get_putNew, if_pos rfl]
    exact ⟨_, rfl⟩

theorem Chain.Openable.addBlock {now : UInt64} (ho : c.Openable) (hi : Recalled ext g c)
    (hv : Offered c b) (hadd : c.addBlock ext now b = .ok (true, c')) : c'.Openable := by
  rcases parent_of_addBlock hadd with ⟨parent, hparent⟩
  have hslot := slotNumber_ne_zero (hv.after parent hparent)
  rcases added_of_addBlock hi.sound hslot hadd with ⟨a, ha⟩
  intro k x hx
  rw [ha.tries]
  rcases ha.block_after hx with ⟨hk, -⟩ | ⟨hk, hold⟩
  · have hne : b.parentHash ≠ b.hash := ha.parent_ne hi.sound hv.toFresh.ascending
    rcases openState_putNew_self c.tries a.trieRoot a.trie with ⟨s, hs⟩
    refine ⟨a.core b, s, ?_, hs⟩
    rw [hk, ha.core_after, if_neg hne, if_pos rfl]
  · rcases ho k x hold with ⟨r, s, hr, hs⟩
    refine ⟨r, s, ?_, openState_putNew hs⟩
    rw [ha.core_of_ne hk]
    exact hr

theorem Chain.Openable.genesisChain (hslot : g.slotNumber = 0)
    (h : Zond.genesisChain ext g preState = .ok c) : c.Openable := by
  rcases genesisNode_of_ok hslot h with ⟨e, trie, total, hnode⟩
  intro k x hx
  have hcore := hnode.core k
  rw [if_pos (hnode.block hx).1.symm] at hcore
  rcases openState_putNew_self AssocMap.empty (ext.stateRoot trie.get) trie with ⟨s, hs⟩
  refine ⟨_, s, hcore, ?_⟩
  rw [hnode.tries]
  exact hs

/-- What the disk of a chain keeps. -/
structure Kept (ext : Externals) (g : Block) (c : Chain) : Prop where
  recalled : Recalled ext g c
  rooted : Rooted g c.db
  openable : c.Openable
  record : ∃ e, c.db.getEpochMetaData 0 g.parentHash = .ok e

theorem Kept.genesisChain (hg : Grounded g) (h : genesisChain ext g preState = .ok c) :
    Kept ext g c :=
  ⟨Recalled.genesisChain hg.slot h, Rooted.genesisChain hg h, Chain.Openable.genesisChain hg.slot h,
    genesisChain_record hg.slot h⟩

theorem Kept.addBlock {now : UInt64} (hk : Kept ext g c) (hv : Offered c b)
    (hadd : c.addBlock ext now b = .ok (true, c')) : Kept ext g c' := by
  rcases hk with ⟨hi, hr, ho, e, he⟩
  exact ⟨hi.addBlock hv.toFresh hadd, hr.addBlock hi.sound hv.toFresh.ascending hv.hash_ne hadd,
    ho.addBlock hi hv hadd, e, hi.record_after hv hadd he⟩

theorem Kept.run (hk : Kept ext g c) (hrun : Run ext Offered c c') : Kept ext g c' :=
  hrun.invariant (Kept ext g) (fun hk hv hadd => hk.addBlock hv hadd) hk

theorem Kept.reload (hk : Kept ext g c) (hdb : c'.db = c.db) (htries : c'.tries = c.tries) :
    Kept ext g c' := by
  cases c
  cases c'
  subst hdb
  subst htries
  rcases hk with ⟨hi, hr, ho, he⟩
  exact ⟨⟨hi.sound, hi.slots, hi.genesis, hi.records, hi.derived, hi.found⟩, hr, ho, he⟩

theorem Kept.intact (hk : Kept ext g c) : Disk.Intact { db := c.db, tries := c.tries } := by
  intro m hm
  rcases hk.recalled.sound.headed with ⟨m', hm', b, hb⟩
  rw [show c.db.mainChainMetaData = some m from hm, Option.some.injEq] at hm'
  subst hm'
  rcases hk.openable _ b hb with ⟨r, s, hr, hs⟩
  rcases Option.map_eq_some_iff.1 hr with ⟨bm, hbm, rfl⟩
  rcases hk.recalled.exists_record hk.rooted hk.record hb with ⟨e, he⟩
  exact ⟨b, bm, e, s, hb, hbm, he, hs⟩

theorem disk_of_loadLast {disk : Disk} (h : loadLast disk = .ok c) :
    c.db = disk.db ∧ c.tries = disk.tries := by
  unfold loadLast at h
  dsimp only at h
  split at h
  · rename_i hlast
    cases h
    rcases bind_eq_ok.1 hlast with ⟨m, -, hlast⟩
    rcases bind_eq_ok.1 hlast with ⟨x, -, hlast⟩
    rw [pure_eq_ok] at hlast
    rw [← hlast]
    exact ⟨rfl, rfl⟩
  · cases h

end Lives

/-- The disks of a node that is started again and again, and adds blocks in between. No load
    of an empty disk stops between its writes. -/
inductive Lived (ext : Externals) (g : Block) (preState : List (List UInt8 × UInt64)) :
    Disk → Prop where
  | fresh : Lived ext g preState .fresh
  | load {disk : Disk} (faults : LoadPoint → Bool) : Lived ext g preState disk →
      (disk.db.mainChainMetaData = none → Unbroken ext faults g preState) →
      Lived ext g preState (load ext faults g preState disk).2
  | run {disk : Disk} {c c' : Chain} : Lived ext g preState disk → loadLast disk = .ok c →
      Run ext Offered c c' → Lived ext g preState { db := c'.db, tries := c'.tries }

theorem Lived.kept (hg : Grounded g) {disk : Disk} (h : Lived ext g preState disk) :
    disk = .fresh ∨ ∃ c, Kept ext g c ∧ disk = { db := c.db, tries := c.tries } := by
  induction h with
  | fresh => exact .inl rfl
  | load faults _ hunbroken ih =>
    rcases ih with rfl | ⟨c, hk, rfl⟩
    · -- The first load fails early or goes through.
      by_cases hearly : FailsEarly faults
      · rcases @load_of_failsEarly ext g preState faults hearly with ⟨e, he⟩
        rw [he]
        exact .inl rfl
      · have hcompletes := (hunbroken rfl).resolve_left hearly
        rcases load_of_completes hg.slot hearly hcompletes with ⟨c, hc, hload⟩
        rw [hload]
        exact .inr ⟨c, Kept.genesisChain hg hc, rfl⟩
    · rcases hk.recalled.sound.headed with ⟨m, hm, -⟩
      rw [load_of_initialised hm]
      exact .inr ⟨c, hk, rfl⟩
  | @run disk c c' _ hlast hrun ih =>
    rcases ih with rfl | ⟨d, hk, rfl⟩
    · cases hlast
    · rcases disk_of_loadLast hlast with ⟨hdb, htries⟩
      exact .inr ⟨c', (hk.reload hdb htries).run hrun, rfl⟩

/-- As long as no load of an empty disk stops between its writes, every disk of the node is
    intact, and one that is not initialised is empty, so that the next load starts over. The
    condition is exact: a load of an empty disk leaves an intact one just when it does not stop
    between its writes. If it fails before them, the disk is still empty, and a load that
    nothing stops makes the chain. If it stops between them, every later load fails and leaves
    the disk as it is, whatever genesis it is given. -/
theorem load_retried (hg : Grounded g) : (∀ disk, Lived ext g preState disk → disk.Intact ∧
      (disk.db.mainChainMetaData = none → disk = .fresh)) ∧
    ∀ faults,
      (Unbroken ext faults g preState ↔ (load ext faults g preState .fresh).2.Intact) ∧
      (Unbroken ext faults g preState → ∀ e, (load ext faults g preState .fresh).1 = .error e →
        (load ext faults g preState .fresh).2 = .fresh) ∧
      (Completes ext faults g preState → ¬FailsEarly faults →
        ∃ c, load ext faults g preState .fresh = (.ok c, { db := c.db, tries := c.tries })) ∧
      (¬Unbroken ext faults g preState → ∀ faults' g' preState', ∃ e,
        load ext faults' g' preState' (load ext faults g preState .fresh).2 =
          (.error e, (load ext faults g preState .fresh).2)) := by
  refine ⟨?_, fun faults => ?_⟩
  · intro disk hlived
    rcases hlived.kept hg with rfl | ⟨c, hk, rfl⟩
    · exact ⟨Disk.intact_fresh, fun _ => rfl⟩
    · refine ⟨hk.intact, fun hnone => ?_⟩
      rcases hk.recalled.sound.headed with ⟨m, hm, -⟩
      rw [show c.db.mainChainMetaData = none from hnone] at hm
      cases hm
  · by_cases hearly : FailsEarly faults
    · rcases @load_of_failsEarly ext g preState faults hearly with ⟨e, he⟩
      rw [he]
      exact ⟨iff_of_true (.inl hearly) Disk.intact_fresh, fun _ _ _ => rfl,
        fun _ h => absurd hearly h, fun h => absurd (.inl hearly) h⟩
    by_cases hcompletes : Completes ext faults g preState
    · rcases load_of_completes hg.slot hearly hcompletes with ⟨c, hc, hload⟩
      rw [hload]
      refine ⟨iff_of_true (.inr hcompletes) (Kept.genesisChain hg hc).intact, ?_,
        fun _ _ => ⟨c, rfl⟩, fun h => absurd (.inr hcompletes) h⟩
      intro _ e he
      cases he
    · have hbroken : ¬Unbroken ext faults g preState := not_or.2 ⟨hearly, hcompletes⟩
      rcases load_of_not_completes hearly hcompletes with ⟨e, tries, hload⟩
      rw [hload]
      exact ⟨iff_of_false hbroken (not_intact_genesisPreStore tries), fun h => absurd h hbroken,
        fun h => absurd h hcompletes,
        fun _ faults' g' preState' => load_stuck faults' g' preState' tries⟩

theorem toyGenesis_executes :
    ∃ st, genesisExec toyExternals toyGenesis toyPreState (genesisPreStore toyGenesis) = .ok st := by
  have hcheck : (genesisExec toyExternals toyGenesis toyPreState (genesisPreStore toyGenesis) >>=
      fun _ => (pure true : Go Bool)) = .ok true := by decide +kernel
  rcases bind_eq_ok.1 hcheck with ⟨st, hst, -⟩
  exact ⟨st, hst⟩

theorem toyLoad_retried :
    (load toyExternals (fun p => p == .readPreState) toyGenesis toyPreState .fresh).2 = .fresh ∧
    ∃ c, load toyExternals (fun _ => false) toyGenesis toyPreState .fresh =
      (.ok c, { db := c.db, tries := c.tries }) ∧
      Disk.Intact { db := c.db, tries := c.tries } := by
  have h := (@load_retried toyExternals toyGenesis toyPreState toyGenesis_grounded).2
  have hcompletes : Completes toyExternals (fun _ => false) toyGenesis toyPreState :=
    ⟨toyGenesis_executes, rfl, rfl, rfl⟩
  have hlate : ¬FailsEarly (fun _ => false) := by
    unfold FailsEarly
    decide
  rcases (h (fun _ => false)).2.2.1 hcompletes hlate with ⟨c, hc⟩
  have hintact := (h (fun _ => false)).1.1 (.inr hcompletes)
  rw [hc] at hintact
  exact ⟨(h _).2.1 (.inl (.inr (.inr (.inr (.inl rfl))))) _ rfl, c, hc, hintact⟩

def toyUsurped : Block :=
  toyBlock 2 0 Config.genesisPrevHeaderHash [] 0

def loadErr (r : Except LoadErr Chain × Disk) : Option LoadErr :=
  match r.1 with
  | .error e => some e
  | .ok _ => none

/-- Loads that fail at the trie, or because the genesis block is not the foundation's, and loads
    after them with nothing wrong. The main chain record can be read and names the zero hash,
    under which there is no block. -/
theorem load_not_retried :
    let failed := load toyExternals (fun p => p == .trieCommit) toyGenesis toyPreState .fresh
    let usurped := load toyExternals (fun _ => false) toyUsurped toyPreState .fresh
    loadErr failed = some (.fault .trieCommit) ∧
    (failed.2.db.mainChainMetaData.map MainChainMetaData.lastBlockHeaderHash) = some zeroHash ∧
    failed.2.db.blocks.get zeroHash = none ∧
    loadErr (load toyExternals (fun _ => false) toyGenesis toyPreState failed.2) =
      some (.failure (.error (.notFound .block zeroHash))) ∧
    loadErr usurped = some (.failure (.error .genesisPreState)) ∧
    loadErr (load toyExternals (fun _ => false) toyGenesis toyPreState usurped.2) =
      some (.failure (.error (.notFound .block zeroHash))) := by
  decide +kernel

end Zond
