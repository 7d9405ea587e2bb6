import Zond.Theory.Reach

/-!
# The First Node

The node `Load` makes of an empty store: one block, and a record without a block for
the hash genesis names as its parent. The genesis block and its pre-state are parameters
of the model. The only thing asked of them is that the block has slot number zero.

## Main definitions

* `GenesisNode`: What is in that node.
* `toyGenesis`: A small network, and runs on it that `decide` can follow.

## Theorems

* `genesisNode_of_ok`: Every genesis gives such a node.
* `exists_run_of_check`: A computed run is a run.
-/

namespace Zond

open Outcome

section Commit

variable {ext : Externals} {env : ExecEnv} {st st' : ExecState}

theorem processTransactions_ctx_of_slotZero (hslot : st.ctx.slotNumber = 0)
    (h : processTransactions ext env st = .ok st') : st'.ctx = st.ctx := by
  rcases processTransactions_of_ok h with ⟨-, -, mid, -, hprotocol, huser⟩
  have hmid : mid.ctx = st.ctx := by
    refine foldlM_invariant (fun s => s.ctx = st.ctx) _ ?_ rfl hprotocol
    intro s txi s' _ hs hstep
    exact ((rewarded_of_processProtocolTx hstep).idle (hs ▸ hslot)).trans hs
  exact foldlM_invariant (fun s => s.ctx = st.ctx) _
    (fun s txi s' _ hs hstep => (processTx_ctx hstep).trans hs) hmid huser

theorem commit_of_slotZero {ctx ctx' : StateContext} {b : Block}
    {preceipts receipts : List Receipt} {trieRoot : Hash} {isFinalized : Bool} {db db' : Store}
    (hslot : ctx.slotNumber = 0)
    (h : commit ctx b preceipts receipts trieRoot isFinalized db = .ok (ctx', db')) :
    db'.blockMetaData = db.blockMetaData.put ctx.blockHeaderHash
        (BlockMetaData.new ctx.parentBlockHeaderHash ctx.blockHeaderHash 0
          ctx.currentBlockTotalStakeAmount trieRoot) ∧
      db'.blocks = db.blocks.put b.hash b ∧
      db'.epochMetaData = (db.putEpochMetaData ctx.epochMetaData).epochMetaData ∧
      db'.mainChainMetaData = some ctx'.mainChainMetaData ∧
      ctx' = if isFinalized then ctx.markFinalized.markLast else ctx.markLast := by
  unfold commit at h
  rcases bind_eq_ok.1 h with ⟨⟨parent, parentTotal, lastTotal⟩, hbase, h⟩
  unfold commitBase at hbase
  rw [if_pos hslot] at hbase
  simp only [Except.ok.injEq, Prod.mk.injEq] at hbase
  rcases hbase with ⟨rfl, rfl, rfl⟩
  rcases bind_eq_ok.1 h with ⟨hashes, -, h⟩
  -- Marking the head a second time changes nothing.
  cases isFinalized with
  | true =>
    have hslot' : ctx.markFinalized.markLast.slotNumber = 0 := hslot
    simp only [if_true, hslot', true_or, pure_eq_ok, Prod.mk.injEq] at h
    rcases h with ⟨rfl, rfl⟩
    simp only [hslot, Int.zero_add, if_true]
    exact ⟨rfl, rfl, rfl, rfl, rfl⟩
  | false =>
    simp only [Bool.false_eq_true, if_false, hslot, true_or] at h
    rcases h with ⟨rfl, rfl⟩
    simp only [Int.zero_add]
    exact ⟨rfl, rfl, rfl, rfl, rfl⟩

end Commit

/-- The node `Load` makes of an empty store: what it holds of genesis, with its
    epoch record `e`, its state `trie` and the stake `total` behind it. -/
structure GenesisNode (ext : Externals) (g : Block) (c : Chain) (e : EpochMetaData)
    (trie : AssocMap Address Account) (total : Int) : Prop where
  records : c.db.blockMetaData = (AssocMap.empty.put g.parentHash
    (BlockMetaData.new zeroHash g.parentHash 0 0 zeroHash)).put g.hash
      (BlockMetaData.new g.parentHash g.hash 0 total (ext.stateRoot trie.get))
  blocks : ∃ protocolTxBloom txBloom, c.db.blocks = AssocMap.empty.put g.hash
    (g.updateRoots (ext.stateRoot trie.get) protocolTxBloom txBloom)
  epochs : c.db.epochMetaData =
    AssocMap.empty.put (e.epoch, e.prevSlotLastBlockHeaderHash) e.stored
  main : c.db.mainChainMetaData = some
    { finalizedBlockHeaderHash := g.hash, finalizedBlockSlotNumber := 0
      lastBlockHeaderHash := g.hash, lastBlockSlotNumber := 0 }
  tries : c.tries = AssocMap.empty.put (ext.stateRoot trie.get) trie
  epoch : ∃ first s s', g.firstProtocolTx = .ok first ∧
    genesisEpoch ext g s (genesisEpochMetaData g first.pk) = .ok (s', e)

section Genesis

variable {ext : Externals} {g : Block} {preState : List (List UInt8 × UInt64)} {c : Chain}

/-- What `Load` does on an empty store, value by value: the balances it sets, the loops that
    run on them, the bookkeeping of the first epoch, and what is sealed. -/
structure Loaded (ext : Externals) (g : Block) (preState : List (List UInt8 × UInt64)) (c : Chain)
    (pre : StateDB) (first : ProtocolTransaction) (ctx : StateContext) (env : ExecEnv)
    (st₀ st : ExecState) (s' : StateDB) (e : EpochMetaData) (p : Processed) : Prop where
  balances : genesisPreState ext g preState = .ok pre
  proposer : g.firstProtocolTx = .ok first
  context : ∃ partialHash signingHash, StateContext.new (genesisPreStore g)
    (bigUint64 g.header.number) g.parentHash g.hash partialHash signingHash
    (genesisEpochMetaData g first.pk) = .ok ctx
  block : env.block = g
  minter : g.minter ext.toCrypto = .ok env.minter
  coinbase : env.blockContext.coinbase = env.minter
  start : st₀.statedb = pre
  flags : st₀.ctx = ctx.prepareValidators first.pk
  loops : processTransactions ext env st₀ = .ok st
  epoch : genesisEpoch ext g st.statedb st.ctx.epochMetaData = .ok (s', e)
  sealing : sealBlock ext g { st with statedb := s', ctx := { st.ctx with epochMetaData := e } }
    true (genesisPreStore g) AssocMap.empty = .ok p
  db : c.db = p.db
  tries : c.tries = p.tries

theorem loaded_of_genesisChain (h : genesisChain ext g preState = .ok c) :
    ∃ pre first ctx env st₀ st s' e p,
      Loaded ext g preState c pre first ctx env st₀ st s' e p := by
  unfold genesisChain at h
  rcases bind_eq_ok.1 h with ⟨s, hpre, h⟩
  rcases bind_eq_ok.1 h with ⟨first, hfirst, h⟩
  rcases bind_eq_ok.1 h with ⟨partialHash, -, h⟩
  rcases bind_eq_ok.1 h with ⟨signingHash, -, h⟩
  rcases bind_eq_ok.1 h with ⟨ctx, hnew, h⟩
  rcases bind_eq_ok.1 h with ⟨p, hprocess, h⟩
  rcases bind_eq_ok.1 h with ⟨m, -, h⟩
  rcases bind_eq_ok.1 h with ⟨lastBlock, -, h⟩
  rw [pure_eq_ok] at h
  subst h
  unfold processGenesis at hprocess
  rcases bind_eq_ok.1 hprocess with ⟨validators, -, hprocess⟩
  rcases bind_eq_ok.1 hprocess with ⟨⟨env, st₀⟩, hexec, hprocess⟩
  rcases bind_eq_ok.1 hprocess with ⟨st, hloops, hprocess⟩
  rcases bind_eq_ok.1 hprocess with ⟨⟨s', e⟩, hepoch, hseal⟩
  unfold newExec at hexec
  rcases bind_eq_ok.1 hexec with ⟨minter, hminter, hexec⟩
  simp only [pure_eq_ok, Prod.mk.injEq] at hexec
  rcases hexec with ⟨rfl, rfl⟩
  exact ⟨s, first, ctx, _, _, st, s', e, p, hpre, hfirst, ⟨partialHash, signingHash, hnew⟩, rfl,
    hminter, rfl, rfl, rfl, hloops, hepoch, hseal, rfl, rfl⟩

theorem number_eq_zero (hslot : g.slotNumber = 0) : bigUint64 g.header.number = 0 := by
  unfold Header.number
  rw [show g.header.slotNumber = 0 from hslot]
  decide

theorem commit_of_genesisChain (hslot : g.slotNumber = 0)
    (h : genesisChain ext g preState = .ok c) :
    ∃ ctx ctx' e s s' first pbloom bloom preceipts receipts,
      let trie := StateDB.commit (StateDB.finalise s')
      g.firstProtocolTx = .ok first ∧
      genesisEpoch ext g s (genesisEpochMetaData g first.pk) = .ok (s', e) ∧
      c.tries = AssocMap.empty.put (ext.stateRoot trie.get) trie ∧
      ctx.slotNumber = 0 ∧ ctx.parentBlockHeaderHash = g.parentHash ∧
      ctx.blockHeaderHash = g.hash ∧ ctx.epochMetaData = e ∧
      ctx.epochBlockHashes = EpochBlockHashes.new 0 ∧
      commit ctx (g.updateRoots (ext.stateRoot trie.get) pbloom bloom) preceipts receipts
        (ext.stateRoot trie.get) true (genesisPreStore g) = .ok (ctx', c.db) := by
  rcases loaded_of_genesisChain h with ⟨pre, first, ctx, env, st₀, st, s', e, p, hl⟩
  rcases hl.context with ⟨partialHash, signingHash, hnew⟩
  rcases StateContext.new_of_ok hnew with ⟨hcs, hcp, hch, hce, -, -, -⟩
  have hcopy := StateContext.new_epochBlockHashes hnew
  rw [number_eq_zero hslot] at hcs hcopy
  have hctx := processTransactions_ctx_of_slotZero (hl.flags ▸ hcs) hl.loops
  rw [hl.flags] at hctx
  have hepoch := hl.epoch
  rcases sealBlock_of_ok hl.sealing with ⟨pbloom, bloom, hblock, hroot, htries, hcommit⟩
  rw [hctx] at hepoch hcommit
  rw [hblock, hroot, ← hl.db] at hcommit
  refine ⟨{ ctx.prepareValidators first.pk with epochMetaData := e }, _, e, st.statedb, s', first,
    pbloom, bloom, _, _, hl.proposer, hce ▸ hepoch, ?_, hcs, hcp, hch, rfl, hcopy, hcommit⟩
  rw [hl.tries, htries, hroot]
  rfl

theorem genesisNode_of_ok (hslot : g.slotNumber = 0) (h : genesisChain ext g preState = .ok c) :
    ∃ e trie total, GenesisNode ext g c e trie total := by
  rcases commit_of_genesisChain hslot h with
    ⟨ctx, ctx', e, s, s', first, pbloom, bloom, preceipts, receipts, hfirst, hepoch, htries, hzero,
      hcp, hch, hce, -, hcommit⟩
  rcases commit_of_slotZero hzero hcommit with ⟨hrecords, hblocks, hepochs, hmain, hmarked⟩
  refine ⟨e, _, ctx.currentBlockTotalStakeAmount, ?_, ⟨pbloom, bloom, hblocks⟩, ?_, ?_, htries,
    first, s, s', hfirst, hepoch⟩
  · rw [hrecords, hch, hcp]
    rfl
  · rw [hepochs, hce]
    rfl
  · rw [hmain, hmarked]
    simp only [if_true, StateContext.markLast, StateContext.markFinalized,
      MainChainMetaData.updateLastBlockData, MainChainMetaData.updateFinalizedBlockData, hch, hzero]

variable {e : EpochMetaData} {trie : AssocMap Address Account} {total : Int}

theorem GenesisNode.block (h : GenesisNode ext g c e trie total) {k : Hash} {x : Block}
    (hx : c.db.blocks.get k = some x) :
    k = g.hash ∧ x.hash = g.hash ∧ x.parentHash = g.parentHash ∧ x.slotNumber = g.slotNumber ∧
      x.protocolTransactions = g.protocolTransactions := by
  rcases h.blocks with ⟨pbloom, bloom, hblocks⟩
  rw [hblocks, AssocMap.get_put] at hx
  by_cases hk : g.hash = k
  · rw [if_pos hk, Option.some.injEq] at hx
    rw [← hx]
    exact ⟨hk.symm, rfl, rfl, rfl, rfl⟩
  · rw [if_neg hk] at hx
    cases hx

theorem GenesisNode.core (h : GenesisNode ext g c e trie total) (k : Hash) : c.db.core k =
      if g.hash = k then some (BlockMetaData.new g.parentHash g.hash 0 total
        (ext.stateRoot trie.get)).core
      else if g.parentHash = k then some (BlockMetaData.new zeroHash g.parentHash 0 0
        zeroHash).core
      else none := by
  unfold Store.core
  rw [h.records, AssocMap.get_put, AssocMap.get_put]
  by_cases hk : g.hash = k
  · rw [if_pos hk, if_pos hk]
    rfl
  · rw [if_neg hk, if_neg hk]
    by_cases hp : g.parentHash = k
    · rw [if_pos hp, if_pos hp]
      rfl
    · rw [if_neg hp, if_neg hp]
      rfl

theorem GenesisNode.sound (h : GenesisNode ext g c e trie total) (hslot : g.slotNumber = 0) :
    c.db.Sound := by
  refine ⟨?_, ?_, ?_, ?_⟩
  · intro k bm hget
    have hkeyed : (⟨none, AssocMap.empty, .empty, .empty, .empty, .empty, .empty, .empty, none⟩
        : Store).Keyed := fun _ _ hnone => (nomatch hnone)
    have hput := (hkeyed.putBlockMetaData (BlockMetaData.new zeroHash g.parentHash 0 0
      zeroHash)).putBlockMetaData (BlockMetaData.new g.parentHash g.hash 0 total
        (ext.stateRoot trie.get))
    rw [h.records] at hget
    exact hput k bm hget
  · intro k x hx
    rcases h.block hx with ⟨hk, hhash, -⟩
    rw [hk, hhash]
  · intro k x hx
    rcases h.block hx with ⟨hk, -, hparent, hxslot, -⟩
    rw [h.core, if_pos hk.symm, hparent, hxslot, hslot]
    exact ⟨_, rfl, rfl, rfl⟩
  · rcases h.blocks with ⟨pbloom, bloom, hblocks⟩
    refine ⟨_, h.main, ?_⟩
    rw [hblocks, AssocMap.get_put, if_pos rfl]
    exact ⟨_, rfl⟩

end Genesis

/-- `AddBlock` for one block after the other, and whether each met a test and was
    added. -/
def Chain.addBlocks (ext : Externals) (now : UInt64) (test : Chain → Block → Bool) (c : Chain)
    (bs : List Block) : Go (Bool × Chain) :=
  bs.foldlM (fun st b => do
    let (added, next) ← st.2.addBlock ext now b
    pure (st.1 && test st.2 b && added, next)) (true, c)

theorem run_of_addBlocks {ext : Externals} {P : Chain → Block → Prop} {now : UInt64}
    {test : Chain → Block → Bool} (htest : ∀ c b, test c b = true → P c b) {bs : List Block}
    {c c' : Chain} (h : c.addBlocks ext now test bs = .ok (true, c')) : Run ext P c c' := by
  have hstart : (true, c).1 = true → Run ext P c (true, c).2 := fun _ => .refl
  refine foldlM_invariant (fun st : Bool × Chain => st.1 = true → Run ext P c st.2) bs ?_
    hstart h rfl
  intro st b st' _ hst hstep htrue
  rcases bind_eq_ok.1 hstep with ⟨⟨added, next⟩, hadd, hnext⟩
  rw [pure_eq_ok] at hnext
  subst hnext
  simp only [Bool.and_eq_true] at htrue
  exact (hst htrue.1.1).tail ⟨now, b, added, htest _ _ htrue.1.2, hadd⟩

theorem exists_run_of_check {ext : Externals} {P : Chain → Block → Prop} {g : Block}
    {preState : List (List UInt8 × UInt64)} {test : Chain → Block → Bool} (now : UInt64)
    (bs : List Block) (goal : Chain → Chain → Prop) [∀ c₀ c, Decidable (goal c₀ c)]
    (htest : ∀ c b, test c b = true → P c b)
    (h : (genesisChain ext g preState >>= fun c₀ => c₀.addBlocks ext now test bs >>= fun st =>
      pure (st.1 && decide (goal c₀ st.2))) = .ok true) :
    ∃ c₀ c, genesisChain ext g preState = .ok c₀ ∧ Run ext P c₀ c ∧ goal c₀ c := by
  rcases bind_eq_ok.1 h with ⟨c₀, hgenesis, h⟩
  rcases bind_eq_ok.1 h with ⟨⟨all, c⟩, hrun, h⟩
  rw [pure_eq_ok, Bool.and_eq_true] at h
  rcases h with ⟨hall, hgoal⟩
  subst hall
  exact ⟨c₀, c, hgenesis, run_of_addBlocks htest hrun, of_decide_eq_true hgoal⟩

def Chain.stateAt (c : Chain) (k : Hash) : Go StateDB := do
  let bm ← c.db.getBlockMetaData k
  Chain.openState c.tries bm.trieRoot

def toyBlock (key : UInt8) (slot : UInt64) (parentHash : Hash) (txs : List Transaction)
    (nonce : UInt64) : Block :=
  let b := newBlock 0 0 (toyKey key).pk slot parentHash txs [] nonce
  match b.signByProposer toyCrypto (toyKey key) with
  | .ok signed => signed
  | .error _ => b

def toyStakeTx (key : UInt8) (amount nonce : UInt64) : Transaction :=
  .stake ((newStake 0 amount 1000 1 nonce (toyKey key).pk).signDilithium toyCrypto (toyKey key))

def toyGenesis : Block :=
  toyBlock 1 0 Config.genesisPrevHeaderHash
    [toyStakeTx 1 Config.stakeAmount 1, toyStakeTx 2 Config.stakeAmount 0] 0

def toyPreState : List (List UInt8 × UInt64) :=
  [(zeroAddress.val, 40000000000000000), ((toyAddress 2).val, 1000000000000000)]

def toyNow : UInt64 := 1700000000

def toyFirst : Block := toyBlock 1 100 toyGenesis.hash [] 2

def toySecond : Block := toyBlock 2 101 toyFirst.hash [] 1

theorem exists_toyRun (bs : List Block) (goal : Chain → Chain → Prop)
    [∀ c₀ c, Decidable (goal c₀ c)]
    (h : (genesisChain toyExternals toyGenesis toyPreState >>= fun c₀ =>
      c₀.addBlocks toyExternals toyNow (fun _ _ => true) bs >>= fun st =>
        pure (st.1 && decide (goal c₀ st.2))) = .ok true) :
    ∃ c₀ c, genesisChain toyExternals toyGenesis toyPreState = .ok c₀ ∧
      Run toyExternals (fun _ _ => True) c₀ c ∧ goal c₀ c :=
  exists_run_of_check toyNow bs goal (fun _ _ _ => trivial) h

theorem toyGenesis_slotNumber : toyGenesis.slotNumber = 0 := by decide +kernel

theorem toyFirst_hash_ne : toyFirst.hash ≠ toyGenesis.hash := by decide +kernel

def toyReversed : Externals := { toyExternals with shuffle := fun _ _ => Fin.revPerm }

def toyCrowd : Block :=
  toyBlock 1 0 Config.genesisPrevHeaderHash
    ((List.range 99).map fun i => toyStakeTx (UInt8.ofNat (i + 2)) Config.stakeAmount 0) 0

def toyCrowdPreState : List (List UInt8 × UInt64) :=
  (zeroAddress.val, 40000000000000000) ::
    (List.range 100).map fun i => ((toyAddress (UInt8.ofNat (i + 2))).val, 1000000000000000)

def toyNewcomer : Block :=
  toyBlock 99 1 toyCrowd.hash [toyStakeTx 101 Config.stakeAmount 0] 1

def toyOverreach : Block :=
  toyBlock 101 100 toyNewcomer.hash [toyStakeTx 101 (2 ^ 63) 2] 1

theorem toyRun_overreach : ∃ c₀ c, genesisChain toyReversed toyCrowd toyCrowdPreState = .ok c₀ ∧
    Run toyReversed (fun _ _ => True) c₀ c ∧
    c₀.db.epochMetaData.entries.map (fun r => r.2.validators.length) = [100] ∧
    (c.db.blocks.get toyOverreach.hash).isSome = true ∧
    (c.stateAt toyOverreach.hash).map (fun s => (s.getStakeBalance (toyAddress 101),
      (Chain.calculateEpochMetaData toyReversed c.db s 200 toyOverreach.hash).map fun _ => ())) =
        .ok (0, .error (.error (.balanceNotLoaded (toyAddress 101)))) := by
  refine exists_run_of_check toyNow [toyNewcomer, toyOverreach] _
    (fun _ _ (_ : true = true) => trivial) ?_
  decide +kernel

end Zond
