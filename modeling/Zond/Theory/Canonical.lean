import Zond.Theory.Bookkeeping
import Zond.Theory.Chronicle

/-!
# The Indexes of the Main Chain

Two indexes are meant to describe the branch of the head: from slot to block, and
from transaction hash to the block and place that hold the transaction. `Commit`
writes them for the one block that becomes the head, and for no other. When the
head moves to another branch, blocks of that branch that were never the head are
missing, and what the old branch wrote stays.

## Main definitions

* `Aligned`: A block that takes the head leaves no trace of another branch below it: its
  parent is on the branch of the old head, and no slot between the two is taken.
* `Canonical`: The indexes describe the branch of a block.

## Theorems

* `canonical_indexes`: In every run of aligned blocks the indexes follow the head.
-/

namespace Zond

open Ancestry

variable {x y : Block} {k a : Hash}

variable {ext : Externals} {g : Block} {preState : List (List UInt8 × UInt64)}
variable {c₀ c c' : Chain} {b : Block} {now : UInt64}

section Transactions

def txHash : Transaction ⊕ ProtocolTransaction → Hash :=
  Sum.elim (fun tx => tx.base.hash) (fun tx => tx.base.hash)

/-- The transactions of a block, each with its index among those of its kind. -/
def Block.indexedTxs (b : Block) : List ((Transaction ⊕ ProtocolTransaction) × Nat) :=
  b.protocolTransactions.zipIdx.map (fun txi => (.inr txi.1, txi.2)) ++
    b.transactions.zipIdx.map (fun txi => (.inl txi.1, txi.2))

/-- The record of a transaction at its place in the block stored under `k`. -/
def txEntry (k : Hash) (slot : UInt64) (txi : (Transaction ⊕ ProtocolTransaction) × Nat) :
    TransactionMetaData :=
  { blockHash := k, blockNumber := slot, index := txi.2, transaction := txi.1 }

def Block.txHashes (b : Block) : List Hash := b.indexedTxs.map (fun txi => txHash txi.1)

theorem putTransactionMetaData_eq (ctx : StateContext) (b : Block)
    (m : AssocMap Hash TransactionMetaData) :
    putTransactionMetaData ctx b m = b.indexedTxs.foldl (fun m txi =>
      m.put (txHash txi.1) (txEntry ctx.blockHeaderHash ctx.slotNumber txi)) m := by
  unfold putTransactionMetaData Block.indexedTxs
  rw [List.foldl_append, List.foldl_map, List.foldl_map]
  rfl

end Transactions

/-- The block has more stake behind it than the head. -/
def Outweighs (c : Chain) (b : Block) : Prop :=
  ∃ m pm last, c.db.mainChainMetaData = some m ∧
    c.db.blockMetaData.get b.parentHash = some pm ∧
    c.db.blockMetaData.get m.lastBlockHeaderHash = some last ∧
    last.totalStakeAmount <
      pm.totalStakeAmount + b.protocolTransactions.length * Config.stakeAmount.toNat

/-- The block continues the indexed branch: its parent is the head or an ancestor of
    it, no block is indexed between the two slots, and the hashes of its transactions
    are distinct and new to the branch. -/
structure Joins (g : Block) (c : Chain) (b : Block) : Prop where
  onMain : ∀ m, c.db.mainChainMetaData = some m →
    Descends (c.db.parent g) m.lastBlockHeaderHash b.parentHash
  clear : ∀ parent n, c.db.blocks.get b.parentHash = some parent → parent.slotNumber < n →
    n < b.slotNumber → c.db.blockHashBySlotNumber.get n = none
  distinct : b.txHashes.Nodup
  unused : ∀ k x, Descends (c.db.parent g) b.parentHash k → c.db.blocks.get k = some x →
    ∀ h ∈ x.txHashes, h ∉ b.txHashes

/-- A new block after its parent that, if it takes the head, continues the indexed
    branch. -/
structure Aligned (g : Block) (c : Chain) (b : Block) : Prop extends Fresh c b where
  joins : Outweighs c b → Joins g c b

/-- The indexes describe the branch of the block `head`: its blocks are indexed under
    their slots, up to the slot of `head` nothing else is, and its transactions are
    indexed at their places. -/
structure Canonical (g : Block) (db : Store) (head : Hash) : Prop where
  indexed : ∀ k x, Descends (db.parent g) head k → db.blocks.get k = some x →
    db.blockHashBySlotNumber.get x.slotNumber = some k
  named : ∀ y n k, db.blocks.get head = some y → n ≤ y.slotNumber →
    db.blockHashBySlotNumber.get n = some k →
    Descends (db.parent g) head k ∧ ∃ x, db.blocks.get k = some x ∧ x.slotNumber = n
  txs : ∀ k x, Descends (db.parent g) head k → db.blocks.get k = some x →
    ∀ txi ∈ x.indexedTxs, db.transactionMetaData.get (txHash txi.1) =
      some (txEntry k x.slotNumber txi)

structure Indexed (g : Block) (db : Store) : Prop where
  sound : db.Sound
  slots : SlotsIncrease g db
  genesis : ∃ x, db.blocks.get g.hash = some x
  canonical : ∀ m, db.mainChainMetaData = some m → Canonical g db m.lastBlockHeaderHash

section Branches

variable {db db' : Store}

theorem SlotsIncrease.closed (h : SlotsIncrease g db) (k p : Hash) (hp : db.parent g k = some p) :
    ∃ y, db.blocks.get p = some y := by
  rcases Store.parent_eq_some hp with ⟨hk, x, hx, rfl⟩
  rcases h k x hx hk with ⟨y, hy, -⟩
  exact ⟨y, hy⟩

theorem descends_stored (h : SlotsIncrease g db)
    (hkept : ∀ k x, db.blocks.get k = some x → db'.blocks.get k = some x)
    (hx : db.blocks.get k = some x) : Descends (db'.parent g) k a ↔ Descends (db.parent g) k a := by
  refine descends_congr (S := fun k => ∃ x, db.blocks.get k = some x) ?_ ?_ ⟨x, hx⟩
  · intro y z _ hstep
    exact h.closed y z hstep
  · rintro y ⟨z, hz⟩
    unfold Store.parent
    rw [hz, hkept y z hz]

theorem SlotsIncrease.slot_le (h : SlotsIncrease g db)
    (hdesc : Descends (db.parent g) k a) (hx : db.blocks.get k = some x)
    (hy : db.blocks.get a = some y) : k = a ∨ y.slotNumber < x.slotNumber := by
  rcases Descends.eq_or_lt h.slotOf_lt hdesc with heq | hlt
  · exact .inl heq
  · rw [Store.slotOf_of_get hx, Store.slotOf_of_get hy] at hlt
    exact .inr (UInt64.lt_iff_toNat_lt.2 hlt)

theorem SlotsIncrease.stored (h : SlotsIncrease g db)
    (hdesc : Descends (db.parent g) k a) (hx : db.blocks.get k = some x) :
    ∃ y, db.blocks.get a = some y := by
  induction hdesc with
  | refl => exact ⟨x, hx⟩
  | tail _ hstep _ => exact h.closed _ _ hstep

end Branches

section Step

variable {parentBlock : Block} {w : Pending} {a : Addition}

theorem takesHead_iff_outweighs (hslot : b.slotNumber ≠ 0)
    (hw : c.prepareBlock ext b parentBlock = .ok w) : w.TakesHead ↔ Outweighs c b := by
  rcases parent_of_prepareBlock hw hslot with ⟨pm, last, hpm, hlast, -, hptotal, hltotal⟩
  rcases prepareBlock_of_ok hw with ⟨-, -, -, -, -, hs, -, -, -, hmain⟩
  unfold Pending.TakesHead Pending.total
  rw [hptotal, hltotal, stake_of_prepareBlock hw hslot, hs, or_iff_right hslot]
  constructor
  · intro hmore
    exact ⟨_, pm, last, hmain, hpm, hlast, hmore⟩
  · rintro ⟨m, pm', last', hm, hpm', hlast', hmore⟩
    rw [hmain, Option.some.injEq] at hm
    subst hm
    rw [hpm, Option.some.injEq] at hpm'
    rw [hlast, Option.some.injEq] at hlast'
    rw [hpm', hlast']
    exact hmore

theorem Executed.outweighs_iff (ha : Executed ext c b a) :
    Outweighs c b ↔ a.last.totalStakeAmount < (a.core b).totalStakeAmount := by
  constructor
  · rintro ⟨m, pm, last, hm, hpm, hlast, hmore⟩
    rw [ha.main, Option.some.injEq] at hm
    subst hm
    rw [ha.parent, Option.some.injEq] at hpm
    rw [ha.last, Option.some.injEq] at hlast
    subst hpm hlast
    exact hmore
  · intro hmore
    exact ⟨a.main, a.parent, a.last, ha.main, ha.parent, ha.last, hmore⟩

variable (hs : c.db.Sound) (hinc : SlotsIncrease g c.db) (hv : Fresh c b)
variable (hw : c.prepareBlock ext b parentBlock = .ok w)
include hs hv hw

theorem write_stored (k : Hash) (x : Block) (hx : c.db.blocks.get k = some x) :
    (w.write c.db).blocks.get k = some x := by
  rw [write_blocks_get hw]
  by_cases hk : b.hash = k
  · exact absurd (hk ▸ hx) (not_stored_of_new hs hv.fresh x)
  · rw [if_neg hk]
    exact hx

include hinc

theorem canonical_kept (htakes : ¬w.TakesHead) {head : Hash}
    (hhead : c.db.blocks.get head = some y) (hi : Canonical g c.db head) :
    Canonical g (w.write c.db) head := by
  have hkept := write_stored hs hv hw
  have hindex : (w.write c.db).blockHashBySlotNumber = c.db.blockHashBySlotNumber := by
    rw [w.write_eq c.db]
    exact if_neg htakes
  have htxs : (w.write c.db).transactionMetaData = c.db.transactionMetaData := by
    rw [w.write_eq c.db]
    exact if_neg htakes
  -- What is stored under an ancestor of the head was stored before.
  have hold : ∀ k x, Descends ((w.write c.db).parent g) head k →
      (w.write c.db).blocks.get k = some x →
      Descends (c.db.parent g) head k ∧ c.db.blocks.get k = some x := by
    intro k x hdesc hx
    have hdesc' := (descends_stored hinc hkept hhead).1 hdesc
    rcases hinc.stored hdesc' hhead with ⟨x', hx'⟩
    rw [hkept k x' hx', Option.some.injEq] at hx
    exact ⟨hdesc', hx ▸ hx'⟩
  refine ⟨?_, ?_, ?_⟩
  · intro k x hdesc hx
    rcases hold k x hdesc hx with ⟨hdesc', hx'⟩
    rw [hindex]
    exact hi.indexed k x hdesc' hx'
  · intro y' n k hy' hn hk
    rw [hkept head y hhead, Option.some.injEq] at hy'
    rw [hindex] at hk
    rcases hi.named y n k hhead (hy' ▸ hn) hk with ⟨hdesc, x, hx, hslot⟩
    exact ⟨(descends_stored hinc hkept hhead).2 hdesc, x, hkept k x hx, hslot⟩
  · intro k x hdesc hx txi htxi
    rcases hold k x hdesc hx with ⟨hdesc', hx'⟩
    rw [htxs]
    exact hi.txs k x hdesc' hx' txi htxi

theorem descends_new (hne : b.hash ≠ g.hash) {parent : Block}
    (hparent : c.db.blocks.get b.parentHash = some parent) (k : Hash) :
    Descends ((w.write c.db).parent g) b.hash k ↔
      k = b.hash ∨ Descends (c.db.parent g) b.parentHash k := by
  have hlink : (w.write c.db).parent g b.hash = some b.parentHash := by
    unfold Store.parent
    rw [if_neg hne, write_blocks_get hw, if_pos rfl, Option.map_some, (write_block_fields hw).1]
  rw [← descends_stored hinc (write_stored hs hv hw) hparent]
  constructor
  · intro hdesc
    rcases Relation.ReflTransGen.cases_head hdesc with heq | ⟨p, hstep, hrest⟩
    · exact .inl heq.symm
    · rw [hlink, Option.some.injEq] at hstep
      exact .inr (hstep ▸ hrest)
  · rintro (rfl | hdesc)
    · exact Descends.refl _ _
    · exact Descends.of_parent hlink hdesc

theorem canonical_moved (htakes : w.TakesHead) (hne : b.hash ≠ g.hash) {parent : Block}
    (hparent : c.db.blocks.get b.parentHash = some parent) {m : MainChainMetaData}
    (hm : c.db.mainChainMetaData = some m) (hhead : c.db.blocks.get m.lastBlockHeaderHash = some y)
    (hi : Canonical g c.db m.lastBlockHeaderHash) (hj : Joins g c b) :
    Canonical g (w.write c.db) b.hash := by
  have hkept := write_stored hs hv hw
  have hbranch := descends_new hs hinc hv hw hne hparent
  rcases prepareBlock_of_ok hw with ⟨-, -, -, -, -, hcs, -, hch, -, -⟩
  rcases write_block_fields hw with ⟨-, hwslot, -⟩
  have hafter := hv.after parent hparent
  have hself : (w.write c.db).blocks.get b.hash = some w.block := by
    rw [write_blocks_get hw, if_pos rfl]
  have hindex : (w.write c.db).blockHashBySlotNumber =
      c.db.blockHashBySlotNumber.put b.slotNumber b.hash := by
    rw [w.write_eq c.db, ← hcs, ← hch]
    exact if_pos htakes
  have htxs : (w.write c.db).transactionMetaData = b.indexedTxs.foldl (fun m txi =>
      m.put (txHash txi.1) (txEntry b.hash b.slotNumber txi)) c.db.transactionMetaData := by
    rcases prepareBlock_of_ok hw with ⟨-, ⟨pbloom, bloom, hblock⟩, -⟩
    have hsame : w.block.indexedTxs = b.indexedTxs := by
      rw [hblock]
      rfl
    rw [w.write_eq c.db, ← hsame, ← hcs, ← hch]
    dsimp only
    rw [if_pos htakes, putTransactionMetaData_eq]
    rfl
  have hmain := hj.onMain m hm
  -- An older block of the branch was on the branch of the old head, below the parent.
  have hold : ∀ k x, Descends (c.db.parent g) b.parentHash k →
      (w.write c.db).blocks.get k = some x → c.db.blocks.get k = some x ∧
        x.slotNumber ≤ parent.slotNumber := by
    intro k x hdesc hx
    rcases hinc.stored hdesc hparent with ⟨x', hx'⟩
    rw [hkept k x' hx', Option.some.injEq] at hx
    subst hx
    refine ⟨hx', ?_⟩
    rcases hinc.slot_le hdesc hparent hx' with heq | hlt
    · rw [← heq, hparent, Option.some.injEq] at hx'
      rw [hx']
      exact UInt64.le_refl _
    · exact UInt64.le_of_lt hlt
  refine ⟨?_, ?_, ?_⟩
  · intro k x hdesc hx
    rw [hindex]
    rcases (hbranch k).1 hdesc with rfl | hdesc
    · rw [hself, Option.some.injEq] at hx
      rw [← hx, hwslot, AssocMap.get_put_self]
    · rcases hold k x hdesc hx with ⟨hx', hle⟩
      rw [AssocMap.get_put_ne _ _ (UInt64.ne_of_lt (UInt64.lt_of_le_of_lt hle hafter)).symm]
      exact hi.indexed k x (hmain.trans hdesc) hx'
  · intro y' n k hy' hn hk
    rw [hself, Option.some.injEq] at hy'
    rw [← hy', hwslot] at hn
    rw [hindex, AssocMap.get_put] at hk
    by_cases hslot : b.slotNumber = n
    · rw [if_pos hslot, Option.some.injEq] at hk
      rw [← hk]
      exact ⟨Descends.refl _ _, w.block, hself, hwslot.trans hslot⟩
    · rw [if_neg hslot] at hk
      have hlt : n < b.slotNumber := UInt64.lt_of_le_of_ne hn (Ne.symm hslot)
      have hbelow : n ≤ parent.slotNumber := by
        refine UInt64.not_lt.1 (fun habove => ?_)
        rw [hj.clear parent n hparent habove hlt] at hk
        cases hk
      have hnhead : n ≤ y.slotNumber := by
        rcases hinc.slot_le hmain hhead hparent with heq | hless
        · rw [heq, hparent, Option.some.injEq] at hhead
          exact hhead ▸ hbelow
        · exact UInt64.le_trans hbelow (UInt64.le_of_lt hless)
      rcases hi.named y n k hhead hnhead hk with ⟨hdesc, x, hx, hxslot⟩
      refine ⟨(hbranch k).2 (.inr ?_), x, hkept k x hx, hxslot⟩
      -- On the old branch the block lies at or below the parent.
      rcases Descends.total hmain hdesc with hdown | hup
      · exact hdown
      · rcases hinc.slot_le hup hx hparent with heq | hless
        · rw [heq]
          exact Descends.refl _ _
        · rw [hxslot] at hless
          exact absurd hless (UInt64.not_lt.2 hbelow)
  · intro k x hdesc hx txi htxi
    rw [htxs]
    rcases (hbranch k).1 hdesc with rfl | hdesc
    · rw [hself, Option.some.injEq] at hx
      subst hx
      have hmem : txi ∈ b.indexedTxs := by
        rcases prepareBlock_of_ok hw with ⟨-, ⟨pbloom, bloom, hblock⟩, -⟩
        rw [hblock] at htxi
        exact htxi
      rw [hwslot]
      exact AssocMap.get_foldl_put_of_mem _ (txEntry b.hash b.slotNumber) hj.distinct hmem
    · rcases hold k x hdesc hx with ⟨hx', -⟩
      have hnew : txHash txi.1 ∉ b.txHashes :=
        hj.unused k x hdesc hx' _ (List.mem_map_of_mem htxi)
      rw [AssocMap.get_foldl_put_of_not_mem _ (txEntry b.hash b.slotNumber) hnew]
      exact hi.txs k x (hmain.trans hdesc) hx' txi htxi

end Step

theorem Canonical.relinked {db db' : Store} {head : Hash} (hi : Canonical g db head)
    (h : Relinked db db') : Canonical g db' head := by
  have hparent : db'.parent g = db.parent g := by
    funext k
    unfold Store.parent
    rw [h.blocks]
  rcases hi with ⟨hindexed, hnamed, htxs⟩
  refine ⟨?_, ?_, ?_⟩
  · rw [hparent, h.blocks, h.blockHashBySlotNumber]
    exact hindexed
  · rw [hparent, h.blocks, h.blockHashBySlotNumber]
    exact hnamed
  · rw [hparent, h.blocks, h.transactionMetaData]
    exact htxs

theorem Indexed.addBlock (hi : Indexed g c.db) (hv : Aligned g c b)
    (h : c.addBlock ext now b = .ok (true, c')) : Indexed g c'.db := by
  rcases parent_of_addBlock h with ⟨parent, hparent⟩
  have hslot : b.slotNumber ≠ 0 := slotNumber_ne_zero (hv.after parent hparent)
  rcases added_of_addBlock hi.sound hslot h with ⟨a, ha⟩
  rcases writes_of_addBlock hi.sound.keyed h with ⟨parentBlock, w, -, hw, hrelinked⟩
  rcases hi.slots.addBlock hi.sound hv.ascending h with ⟨hsound, hslots⟩
  rcases hi.genesis with ⟨x, hx⟩
  have hne : b.hash ≠ g.hash := by
    intro heq
    exact not_stored_of_new hi.sound hv.fresh x (heq ▸ hx)
  rcases hi.sound.headed with ⟨m, hm, y, hy⟩
  have hmain : m = a.main := Option.some.inj (hm.symm.trans ha.main)
  subst hmain
  have hcanonical := hi.canonical _ hm
  refine ⟨hsound, hslots, ?_, ?_⟩
  · rw [hrelinked.blocks]
    exact ⟨x, write_stored hi.sound hv.toFresh hw _ x hx⟩
  · intro m' hm'
    rcases ha.mainChain with ⟨m'', hm'', hlast⟩
    have hsame : m' = m'' := Option.some.inj (hm'.symm.trans hm'')
    rw [hsame, hlast]
    refine Canonical.relinked ?_ hrelinked
    have htakes := takesHead_iff_outweighs hslot hw
    rcases ha.choice with ⟨hmore, hhead⟩ | ⟨hless, hhead⟩
    · rw [hhead]
      have hout := ha.outweighs_iff.2 hmore
      exact canonical_moved hi.sound hi.slots hv.toFresh hw (htakes.2 hout) hne hparent hm hy
        hcanonical (hv.joins hout)
    · rw [hhead]
      have hnot : ¬w.TakesHead := fun hmore =>
        absurd (ha.outweighs_iff.1 (htakes.1 hmore)) (Int.not_lt.2 hless)
      exact canonical_kept hi.sound hi.slots hv.toFresh hw hnot hy hcanonical

theorem Indexed.genesisChain (hg : g.slotNumber = 0) (hdistinct : g.txHashes.Nodup)
    (h : genesisChain ext g preState = .ok c₀) : Indexed g c₀.db := by
  rcases genesisNode_of_ok hg h with ⟨e, trie, total, hnode⟩
  rcases genesis_lists hg h with ⟨-, ctx, -, -, hindex, ⟨hch, hcs⟩, htxs⟩
  have hroot : c₀.db.parent g g.hash = none := if_pos rfl
  have honly : ∀ k, Descends (c₀.db.parent g) g.hash k → k = g.hash := by
    intro k hdesc
    rcases Relation.ReflTransGen.cases_head hdesc with heq | ⟨p, hstep, -⟩
    · exact heq.symm
    · rw [hroot] at hstep
      cases hstep
  rcases hnode.blocks with ⟨pbloom, bloom, hblocks⟩
  have hself : c₀.db.blocks.get g.hash =
      some (g.updateRoots (ext.stateRoot trie.get) pbloom bloom) := by
    rw [hblocks, AssocMap.get_put_self]
  refine ⟨hnode.sound hg, fun k x hx hk => absurd (hnode.block hx).1 hk, ⟨_, hself⟩, ?_⟩
  intro m hm
  have hlast : m.lastBlockHeaderHash = g.hash := by
    rw [hnode.main, Option.some.injEq] at hm
    rw [← hm]
  rw [hlast]
  refine ⟨?_, ?_, ?_⟩
  · intro k x hdesc hx
    rw [honly k hdesc] at hx ⊢
    rw [hindex, (hnode.block hx).2.2.2.1, hg, AssocMap.get_put_self]
  · intro y n k _ _ hk
    rw [hindex, AssocMap.get_put] at hk
    by_cases hn : 0 = n
    · rw [if_pos hn, Option.some.injEq] at hk
      rw [← hk]
      exact ⟨Descends.refl _ _, _, hself, hn ▸ hg⟩
    · rw [if_neg hn] at hk
      cases hk
  · intro k x hdesc hx txi htxi
    rw [honly k hdesc] at hx ⊢
    rw [hself, Option.some.injEq] at hx
    subst hx
    rw [htxs, putTransactionMetaData_eq, hch, hcs,
      show (g.updateRoots (ext.stateRoot trie.get) pbloom bloom).slotNumber = 0 from hg]
    exact AssocMap.get_foldl_put_of_mem _ (txEntry g.hash 0) hdistinct htxi

/-- In every run whose head moves only along the indexed branch: up to the slot of the
    head, the slot index finds exactly the ancestors of the head, and every
    transaction of the branch is found at its place. -/
theorem canonical_indexes (hg : g.slotNumber = 0) (hdistinct : g.txHashes.Nodup)
    (h₀ : genesisChain ext g preState = .ok c₀) (hrun : Run ext (Aligned g) c₀ c) :
    ∃ m head, c.db.mainChainMetaData = some m ∧
      c.db.blocks.get m.lastBlockHeaderHash = some head ∧
      (∀ n x, n ≤ head.slotNumber → (c.db.getBlockByNumber n = some x ↔
        ∃ k, Descends (c.db.parent g) m.lastBlockHeaderHash k ∧ c.db.blocks.get k = some x ∧
          x.slotNumber = n)) ∧
      ∀ k x, Descends (c.db.parent g) m.lastBlockHeaderHash k → c.db.blocks.get k = some x →
        ∀ txi ∈ x.indexedTxs, c.db.getTransactionMetaData (txHash txi.1) =
          some { blockHash := k, blockNumber := x.slotNumber, index := txi.2
                 transaction := txi.1 } := by
  have hall := hrun.invariant (fun c => Indexed g c.db)
    (fun hi hP hadd => hi.addBlock hP hadd) (Indexed.genesisChain hg hdistinct h₀)
  rcases hall.sound.headed with ⟨m, hm, head, hhead⟩
  have hcanonical := hall.canonical m hm
  refine ⟨m, head, hm, hhead, ?_, hcanonical.txs⟩
  intro n x hn
  unfold Store.getBlockByNumber
  rw [Option.bind_eq_some_iff]
  constructor
  · rintro ⟨k, hk, hx⟩
    rcases hcanonical.named head n k hhead hn hk with ⟨hdesc, x', hx', hslot⟩
    rw [hx, Option.some.injEq] at hx'
    exact ⟨k, hdesc, hx, hx' ▸ hslot⟩
  · rintro ⟨k, hdesc, hx, hslot⟩
    exact ⟨k, hslot ▸ hcanonical.indexed k x hdesc hx, hx⟩

/-- `Aligned`, computed, with every block held to what one that takes the head is. -/
def continuesMain (g : Block) (c : Chain) (b : Block) : Bool :=
  ascendsFresh c b && c.db.mainChainMetaData.all (fun m =>
      (path (c.db.parent g) 5 m.lastBlockHeaderHash).any (fun l => decide (b.parentHash ∈ l))) &&
    c.db.blockHashBySlotNumber.keys.all (fun n => (c.db.blocks.get b.parentHash).all
      (fun parent => !(parent.slotNumber < n && n < b.slotNumber))) &&
    decide b.txHashes.Nodup &&
    c.db.blocks.entries.all (fun entry => entry.2.txHashes.all (fun h => !b.txHashes.contains h))

theorem aligned_of_continuesMain (g : Block) (c : Chain) (b : Block)
    (h : continuesMain g c b = true) : Aligned g c b := by
  unfold continuesMain at h
  simp only [Bool.and_eq_true, decide_eq_true_eq] at h
  rcases h with ⟨⟨⟨⟨hfresh, hmain⟩, hclear⟩, hdistinct⟩, hunused⟩
  refine ⟨fresh_of_ascendsFresh c b hfresh, fun _ => ⟨?_, ?_, hdistinct, ?_⟩⟩
  · intro m hm
    rw [hm, Option.all_some] at hmain
    exact descends_of_path hmain
  · intro parent n hparent hlow hhigh
    refine Option.eq_none_iff_forall_ne_some.2 (fun k hk => ?_)
    have hfree := List.all_eq_true.1 hclear n (AssocMap.mem_keys hk)
    rw [hparent, Option.all_some, decide_eq_true hlow, decide_eq_true hhigh] at hfree
    cases hfree
  · intro k x _ hx hash hmem
    have hfree := List.all_eq_true.1 hunused (k, x) (AssocMap.mem_of_find hx)
    have hnot := List.all_eq_true.1 hfree hash hmem
    rw [Bool.not_eq_true', List.contains_eq_mem, decide_eq_false_iff_not] at hnot
    exact hnot

/-- A genesis with two validators more than an epoch has slots: slot 1 has an attestor. -/
def toyGathering : Block :=
  toyBlock 1 0 Config.genesisPrevHeaderHash
    ((List.range 101).map fun i => toyStakeTx (UInt8.ofNat (i + 2)) Config.stakeAmount 0) 0

def toyGatheringPreState : List (List UInt8 × UInt64) :=
  toyCrowdPreState ++ [((toyAddress 102).val, 1000000000000000)]

def toyLone : Block := toyBlock 3 2 toyGathering.hash [] 1

def toySeconded : Block :=
  let b := newBlock 0 0 (toyKey 2).pk 1 toyGathering.hash [] [] 1
  match (do
    let tx ← b.attest toyCrypto (toyKey 102) 0 1
    (← b.addAttestTx toyCrypto tx).signByProposer toyCrypto (toyKey 2) : Go Block) with
  | .ok signed => signed
  | .error _ => b

theorem toyGathering_txHashes : toyGathering.txHashes.Nodup ∧ toyGathering.slotNumber = 0 := by
  refine ⟨List.Nodup.of_map (fun h => h.val.foldl (fun n b => n * 256 + b.toNat) 0) ?_, ?_⟩ <;>
    decide +kernel

theorem toyRun_aligned : ∃ c₀ c,
    genesisChain toyExternals toyGathering toyGatheringPreState = .ok c₀ ∧
    Run toyExternals (Aligned toyGathering) c₀ c ∧
    c.db.mainChainMetaData.map MainChainMetaData.lastBlockHeaderHash = some toySeconded.hash ∧
    (c.db.getBlockByNumber 2).map Block.hash = some toyLone.hash ∧
    (path (c.db.parent toyGathering) 5 toySeconded.hash).any
      (fun l => decide (toyLone.hash ∉ l)) = true := by
  refine exists_run_of_check toyNow [toyLone, toySeconded] _
    (aligned_of_continuesMain toyGathering) ?_
  decide +kernel

/-- The head moves from the block of slot 2 to one of slot 1 that two validators have signed. -/
theorem toyRun_canonical_indexes : ∃ c₀ c head,
    genesisChain toyExternals toyGathering toyGatheringPreState = .ok c₀ ∧
    Run toyExternals (Aligned toyGathering) c₀ c ∧
    (c.db.getBlockByNumber 2).map Block.hash = some toyLone.hash ∧
    ¬Descends (c.db.parent toyGathering) toySeconded.hash toyLone.hash ∧
    c.db.blocks.get toySeconded.hash = some head ∧
    c.db.getBlockByNumber head.slotNumber = some head ∧
    ∀ txi ∈ head.indexedTxs, (c.db.getTransactionMetaData (txHash txi.1)).map
      TransactionMetaData.blockHash = some toySeconded.hash := by
  rcases toyRun_aligned with ⟨c₀, c, h₀, hrun, hlast, hleft, haway⟩
  rcases canonical_indexes toyGathering_txHashes.2 toyGathering_txHashes.1 h₀ hrun with
    ⟨m, head, hm, hhead, hindex, htxs⟩
  rw [hm, Option.map_some, Option.some.injEq] at hlast
  refine ⟨c₀, c, head, h₀, hrun, hleft, not_descends_of_path haway, hlast ▸ hhead, ?_, ?_⟩
  · exact (hindex _ head (UInt64.le_refl _)).2 ⟨_, Descends.refl _ _, hhead, rfl⟩
  · intro txi htxi
    rw [htxs _ head (Descends.refl _ _) hhead txi htxi, Option.map_some, hlast]

def toyOvertaking : List Block := toyBranch toyGenesis.hash [(2, 101, 1), (1, 200, 2)]

/-- The head moves from a branch of one block to one of two. Slot 100 still names the
    block that was left behind, and slot 101 names nothing although the new branch has
    a block there. -/
theorem index_stale : ∃ c₀ c, genesisChain toyExternals toyGenesis toyPreState = .ok c₀ ∧
    Run toyExternals (fun _ _ => True) c₀ c ∧
    c.db.mainChainMetaData.map MainChainMetaData.lastBlockHeaderHash
      = some (lastHash toyOvertaking) ∧
    (c.db.getBlockByNumber 100).map Block.hash = some toyFirst.hash ∧
    ¬Descends (c.db.parent toyGenesis) (lastHash toyOvertaking) toyFirst.hash ∧
    c.db.getBlockByNumber 101 = none ∧
    Descends (c.db.parent toyGenesis) (lastHash toyOvertaking) (firstHash toyOvertaking) ∧
    (c.db.blocks.get (firstHash toyOvertaking)).map Block.slotNumber = some 101 := by
  have hrun := exists_toyRun (toyFirst :: toyOvertaking) (fun _ c =>
    c.db.mainChainMetaData.map MainChainMetaData.lastBlockHeaderHash
      = some (lastHash toyOvertaking) ∧
    (c.db.getBlockByNumber 100).map Block.hash = some toyFirst.hash ∧
    (path (c.db.parent toyGenesis) 5 (lastHash toyOvertaking)).any
      (fun l => decide (toyFirst.hash ∉ l)) = true ∧
    (c.db.getBlockByNumber 101).isNone = true ∧
    (path (c.db.parent toyGenesis) 5 (lastHash toyOvertaking)).any
      (fun l => decide (firstHash toyOvertaking ∈ l)) = true ∧
    (c.db.blocks.get (firstHash toyOvertaking)).map Block.slotNumber = some 101)
    (by decide +kernel)
  rcases hrun with ⟨c₀, c, h₀, hrun, hlast, hold, haway, hnone, hnew, hslot⟩
  exact ⟨c₀, c, h₀, hrun, hlast, hold, not_descends_of_path haway,
    Option.isNone_iff_eq_none.1 hnone, descends_of_path hnew, hslot⟩

end Zond
