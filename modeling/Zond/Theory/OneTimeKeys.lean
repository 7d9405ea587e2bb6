import Zond.Theory.Commitment
import Zond.Theory.Nonces

/-!
# One-Time Keys Along a Branch

An XMSS key signs with a one-time key per transaction, and the account remembers which are
used. The field is made when the first one is marked; until then every index counts as
unused, and after it every index past the field counts as used.

Since there are fewer than `2 ^ 32` indexes the nonce of such an account never returns to
zero, and so it is never deleted with its marks. The one way out is an account that does not
reach the trie because an amount in it has become negative: its marks are gone with the rest.

## Theorems

* `oneTimeKeys_used_once`: Along a branch each accepted transaction of an XMSS address finds its
  index unused and marks it.
-/

namespace Zond

open StateDB

section Fields

variable {x : Address} {i : Nat} {field field' : List (List.Vector UInt8 8)}

theorem isUsedOTSIndex_iff (hfield : field ≠ []) (j : Nat) : isUsedOTSIndex j field = true ↔
    ∀ byte, field[j / 8]? = some byte → byte.val[j % 8]? = some 1 := by
  unfold isUsedOTSIndex
  rw [if_neg (fun h => hfield (List.length_eq_zero_iff.1 h))]
  cases hbyte : field[j / 8]? with
  | none => simp only [reduceCtorEq, false_implies, implies_true]
  | some byte => simp only [beq_iff_eq, Option.some.injEq, forall_eq']

theorem isUsedOTSIndex_nil (j : Nat) : isUsedOTSIndex j [] = false := rfl

theorem getElem?_zeros (n : Nat) : (Bytes.zeros 8).val[n]? ≠ some 1 := by
  unfold Bytes.zeros
  show (List.replicate 8 (0 : UInt8))[n]? ≠ some 1
  rw [List.getElem?_replicate]
  split
  · decide
  · exact fun h => nomatch h

theorem isUsedOTSIndex_otsField (x : Address) (hmade : otsField x [] ≠ []) (j : Nat) :
    isUsedOTSIndex j (otsField x []) = true ↔ getMaxOTSBitfieldSizeFromAddress x ≤ j / 8 := by
  have hfield : otsField x []
      = List.replicate (getMaxOTSBitfieldSizeFromAddress x) (Bytes.zeros 8) := if_pos rfl
  rw [isUsedOTSIndex_iff hmade, hfield, List.getElem?_replicate]
  by_cases hin : j / 8 < getMaxOTSBitfieldSizeFromAddress x
  · rw [if_pos hin]
    refine ⟨fun h => absurd (h _ rfl) (getElem?_zeros _), fun h => absurd hin (by omega)⟩
  · rw [if_neg hin]
    exact ⟨fun _ => by omega, fun _ _ h => nomatch h⟩

theorem otsField_of_ne (hfield : field ≠ []) : otsField x field = field :=
  if_neg (fun h => hfield (List.length_eq_zero_iff.1 h))

theorem OTSMarked.exists_byte (h : OTSMarked x i field field') :
    ∃ byte byte' : List.Vector UInt8 8, (otsField x field)[i / 8]? = some byte ∧
      byte'.val = byte.val.set (i % 8) 1 ∧ field' = (otsField x field).set (i / 8) byte' := by
  rcases h with ⟨byte, hbyte, hset⟩
  exact ⟨byte, _, hbyte, rfl, hset⟩

theorem OTSMarked.ne_nil (h : OTSMarked x i field field') : otsField x field ≠ [] := by
  rcases h with ⟨byte, hbyte, -⟩
  intro hnil
  rw [hnil] at hbyte
  cases hbyte

theorem isUsedOTSIndex_of_marked (h : OTSMarked x i field field') (j : Nat) :
    isUsedOTSIndex j field' = true ↔ j = i ∨ isUsedOTSIndex j (otsField x field) = true := by
  have hmade := h.ne_nil
  rcases h.exists_byte with ⟨byte, byte', hbyte, hval, rfl⟩
  have hlt : i / 8 < (otsField x field).length := (List.getElem?_eq_some_iff.1 hbyte).1
  rw [isUsedOTSIndex_iff (fun hnil => hmade ((List.set_eq_nil_iff ..).1 hnil)),
    isUsedOTSIndex_iff hmade, List.getElem?_set]
  by_cases hsame : i / 8 = j / 8
  · rw [if_pos hsame, if_pos (hsame ▸ hlt), ← hsame, hbyte]
    simp only [Option.some.injEq, forall_eq']
    rw [hval, List.getElem?_set]
    by_cases hbit : i % 8 = j % 8
    · have heq : j = i := by omega
      rw [if_pos hbit, if_pos (by rw [byte.property]; omega)]
      exact ⟨fun _ => .inl heq, fun _ => rfl⟩
    · have hne : j ≠ i := fun heq => hbit (by rw [heq])
      rw [if_neg hbit]
      exact ⟨.inr, fun h => h.resolve_left hne⟩
  · have hne : j ≠ i := fun heq => hsame (by rw [heq])
    rw [if_neg hsame]
    exact ⟨.inr, fun h => h.resolve_left hne⟩

theorem isUsedOTSIndex_marked (h : OTSMarked x i field field') (j : Nat) :
    isUsedOTSIndex j field' = true ↔ j = i ∨ isUsedOTSIndex j field = true ∨
      field = [] ∧ getMaxOTSBitfieldSizeFromAddress x ≤ j / 8 := by
  rw [isUsedOTSIndex_of_marked h]
  by_cases hnil : field = []
  · rw [hnil, isUsedOTSIndex_otsField x (hnil ▸ h.ne_nil), isUsedOTSIndex_nil]
    simp only [Bool.false_eq_true, true_and, false_or]
  · rw [otsField_of_ne hnil]
    simp only [hnil, false_and, or_false]

end Fields

theorem TxBase.otsIndex_lt {tx : TxBase} {i : Nat} (h : tx.otsIndex = .ok i) : i < 2 ^ 32 := by
  unfold TxBase.otsIndex at h
  split at h
  · rename_i b0 b1 b2 b3 _ _
    rw [Except.ok.injEq] at h
    have h0 := b0.toNat_lt
    have h1 := b1.toNat_lt
    have h2 := b2.toNat_lt
    have h3 := b3.toNat_lt
    omega
  · cases h

def AnyTransaction.otsIndex : AnyTransaction → Go Nat
  | .inl tx => tx.base.otsIndex
  | .inr _ => .error (.panic .indexOutOfRange)

def userTransactions (pk : List UInt8) (bs : List Block) : List Transaction :=
  bs.flatMap (fun b => b.transactions.filter (fun tx => tx.base.pk = pk))

theorem userTransactions_sublist (c : Crypto) (pk : List UInt8) (bs : List Block) :
    ((userTransactions pk bs).map .inl).Sublist
      (ownTransactions c (c.getAddressFromUnSizedPK pk) bs) := by
  have hown : ∀ b : Block, ((b.transactions.filter (fun tx => tx.base.pk = pk)).map .inl).Sublist
      (signedBy c (c.getAddressFromUnSizedPK pk) b.allTransactions) := by
    intro b
    unfold signedBy Block.allTransactions
    rw [List.filter_append, List.filter_map, List.filter_map]
    refine List.Sublist.trans (List.Sublist.map _ ?_) (List.sublist_append_right _ _)
    refine List.monotone_filter_right _ (fun tx htx => ?_)
    refine decide_eq_true ?_
    show c.getAddressFromUnSizedPK tx.base.pk = _
    rw [of_decide_eq_true htx]
  unfold userTransactions ownTransactions
  rw [List.map_flatMap]
  induction bs with
  | nil => exact .slnil
  | cons b bs ih =>
    rw [List.flatMap_cons, List.flatMap_cons]
    exact (hown b).append ih

namespace Account

/-- The account has marked the one-time keys in a list, one with each nonce. -/
structure Keyed (used : List Nat) (a : Account) : Prop where
  nonce : a.nonce = UInt64.ofNat used.length
  nodup : used.Nodup
  bound : ∀ i ∈ used, i < 2 ^ 32
  spent : ∀ i ∈ used, isUsedOTSIndex i a.otsBitfield = true
  unspent : used = [] → a.otsBitfield = []

section Keyed

variable {c : Crypto} {x : Address} {used : List Nat} {a a' : Account}

theorem Keyed.length_le (h : a.Keyed used) : used.length ≤ 2 ^ 32 := by
  have hsub : used ⊆ List.range (2 ^ 32) := fun i hi => List.mem_range.2 (h.bound i hi)
  have hle := (h.nodup.subperm hsub).length_le
  rwa [List.length_range] at hle

theorem Keyed.field_nil (h : a.Keyed used) (hzero : a.nonce = 0) : a.otsBitfield = [] := by
  refine h.unspent (List.length_eq_zero_iff.1 ?_)
  have hfew := h.length_le
  have hlength := congrArg UInt64.toNat (h.nonce.symm.trans hzero)
  rwa [UInt64.toNat_ofNat_of_lt' (lt_of_le_of_lt hfew (by norm_num))] at hlength

theorem Keyed.congr (h : a.Keyed used) (hnonce : a'.nonce = a.nonce)
    (hfield : a'.otsBitfield = a.otsBitfield) : a'.Keyed used where
  nonce := hnonce.trans h.nonce
  nodup := h.nodup
  bound := h.bound
  spent := hfield ▸ h.spent
  unspent := hfield ▸ h.unspent

theorem Keyed.drifts (h : a.Keyed used) (hdrift : a.Drifts a') : a'.Keyed used :=
  h.congr hdrift.nonce (hdrift.otsBitfield h.field_nil)

theorem Keyed.moves (h : a.Keyed used) (hmoves : a.Moves a') : a'.Keyed used :=
  h.congr hmoves.nonce hmoves.otsBitfield

theorem Keyed.marks (h : a.Keyed used) (hvalid : c.isValidXMSSAddress x = true) {tx : Transaction}
    (hsize : tx.base.pk.length = Config.xmssExtendedPKSize) (hacts : a.Acts c x (.inl tx) a') :
    ∃ i, tx.base.otsIndex = .ok i ∧ isUsedOTSIndex i a.otsBitfield = false ∧
      OTSMarked x i a.otsBitfield a'.otsBitfield := by
  rcases hacts with ⟨m, hdrift, -, hfield, -⟩
  simp only [OTSAfter, if_pos hvalid] at hfield
  rw [hdrift.otsBitfield h.field_nil] at hfield
  rcases hfield with ⟨i, hi, hfresh, hmarked⟩
  exact ⟨i, hi, hfresh hsize, hmarked⟩

theorem Keyed.acts (h : a.Keyed used) (hvalid : c.isValidXMSSAddress x = true) {tx : Transaction}
    (hsize : tx.base.pk.length = Config.xmssExtendedPKSize) (hacts : a.Acts c x (.inl tx) a') :
    ∃ i, tx.base.otsIndex = .ok i ∧ a'.Keyed (used ++ [i]) := by
  rcases h.marks hvalid hsize hacts with ⟨i, hi, hunused, hmarked⟩
  have hnew : i ∉ used := by
    intro hmem
    rw [h.spent i hmem] at hunused
    cases hunused
  refine ⟨i, hi, ?_⟩
  constructor
  case nonce =>
    rw [hacts.nonce, h.nonce, List.length_append, UInt64.ofNat_add]
    rfl
  case nodup =>
    exact List.nodup_append.2 ⟨h.nodup, List.nodup_singleton i, fun j hj k hk heq =>
      hnew (List.mem_singleton.1 hk ▸ heq ▸ hj)⟩
  case bound =>
    intro j hj
    rcases List.mem_append.1 hj with hj | hj
    · exact h.bound j hj
    · exact List.mem_singleton.1 hj ▸ TxBase.otsIndex_lt hi
  case spent =>
    intro j hj
    rw [isUsedOTSIndex_marked hmarked]
    rcases List.mem_append.1 hj with hj | hj
    · exact .inr (.inl (h.spent j hj))
    · exact .inl (List.mem_singleton.1 hj)
  case unspent =>
    exact fun hnil => absurd hnil (List.append_ne_nil_of_right_ne_nil _ (List.cons_ne_nil _ _))

end Keyed

end Account

/-- A valid XMSS address is the address of an XMSS key, of no Dilithium key, and not the zero
    address, which stands for no key. -/
structure XMSSAddresses (c : Crypto) : Prop where
  valid : ∀ addr, c.isValidXMSSAddress addr = true ↔ ∃ pk, c.getXMSSAddressFromPK pk = some addr
  dilithium : ∀ pk, c.isValidXMSSAddress (c.getDilithiumAddressFromPK pk) = false
  zero : c.isValidXMSSAddress zeroAddress = false

section Keys

variable {c : Crypto} {x : Address} {used : List Nat} {a a' : Account}

theorem XMSSAddresses.user_of_signer (hc : XMSSAddresses c) (hvalid : c.isValidXMSSAddress x = true)
    {tx : AnyTransaction} (hsigner : tx.signer c = x) :
    ∃ t, tx = .inl t ∧ t.base.pk.length = Config.xmssExtendedPKSize := by
  have hdilithium : ∀ pk, c.getDilithiumAddressFromUnSizedPK pk ≠ x := by
    rintro pk rfl
    have hfalse := hc.dilithium (unSizedDilithiumPKToSizedPK pk)
    unfold Crypto.getDilithiumAddressFromUnSizedPK at hvalid
    rw [hvalid] at hfalse
    cases hfalse
  cases tx with
  | inr tx => exact absurd hsigner (hdilithium tx.pk)
  | inl tx =>
    refine ⟨tx, rfl, ?_⟩
    by_contra hsize
    simp only [AnyTransaction.signer, Crypto.getAddressFromUnSizedPK, if_neg hsize] at hsigner
    split at hsigner
    · exact hdilithium _ hsigner
    · rw [← hsigner, hc.zero] at hvalid
      cases hvalid

theorem keyed_of_runs (hc : XMSSAddresses c) (hvalid : c.isValidXMSSAddress x = true)
    {txs : List AnyTransaction} (ha : a.Keyed used) (h : a.Runs c x txs a') :
    ∃ more, (signedBy c x txs).map AnyTransaction.otsIndex = more.map .ok ∧
      a'.Keyed (used ++ more) := by
  induction txs generalizing a used with
  | nil =>
    refine ⟨[], rfl, ?_⟩
    rw [List.append_nil]
    exact ha.drifts h
  | cons tx txs ih =>
    rcases h with ⟨m, hstep, hrest⟩
    by_cases hself : tx.signer c = x
    · rcases hc.user_of_signer hvalid hself with ⟨t, rfl, hsize⟩
      rcases ha.acts hvalid hsize (hstep.own hself).2 with ⟨i, hi, hm⟩
      rcases ih hm hrest with ⟨more, hmore, hlast⟩
      refine ⟨i :: more, ?_, ?_⟩
      · rw [signedBy_cons_self txs hself, List.map_cons, List.map_cons, hmore]
        exact congrArg (· :: _) hi
      · rwa [List.append_assoc, List.singleton_append] at hlast
    · rw [signedBy_cons_ne txs hself]
      exact ih (ha.drifts (hstep.other hself)) hrest

theorem keyed_of_history (hc : XMSSAddresses c) (hvalid : c.isValidXMSSAddress x = true)
    {bs : List Block} (h : a.History c x bs) :
    ∃ used, (ownTransactions c x bs).map AnyTransaction.otsIndex = used.map .ok ∧
      a.Keyed used := by
  induction h with
  | birth hv =>
    exact ⟨[], rfl, ⟨rfl, .nil, fun _ hi => (nomatch hi), fun _ hi => (nomatch hi), fun _ => rfl⟩⟩
  | @block bs b a a' _ hb ih =>
    rcases ih with ⟨used, hused, ha⟩
    rcases hb with ⟨m, m', m'', hmoves, hruns, hmoves', hdrifts⟩
    rcases keyed_of_runs hc hvalid (ha.moves hmoves) hruns with ⟨more, hmore, hm'⟩
    refine ⟨used ++ more, ?_, (hm'.moves hmoves').drifts hdrifts⟩
    have hsplit : ownTransactions c x (bs ++ [b])
        = ownTransactions c x bs ++ signedBy c x b.allTransactions := by
      unfold ownTransactions
      rw [List.flatMap_append, List.flatMap_singleton]
    rw [hsplit, List.map_append, List.map_append, hused, hmore]

end Keys

/-- While the node processes a block on its parent, a user transaction of the block takes one
    state to the next. -/
def Block.Executes (ext : Externals) (c : Chain) (b : Block) (tx : Transaction)
    (st st' : ExecState) : Prop :=
  ∃ parent w pm opened moved e env st₀ last n,
    Prepared ext c b parent w pm opened moved e env st₀ last ∧ b.transactions[n]? = some tx ∧
    processUpTo ext env st₀ n = .ok st ∧ processTx ext env st (tx, n) = .ok st'

section Run

variable {vm : Machine} {x : Address} {c : Chain} {b : Block} {tx : Transaction}
variable {st st' : ExecState}

theorem keyed_of_executes (hc : XMSSAddresses vm.toCrypto) (hvm : vm.Apart)
    (hvalid : vm.isValidXMSSAddress x = true) (hx : ¬vm.Creates x)
    (hreserve : Config.coinBaseAddress ≠ x) (hmoderate : b.Moderate) {s : StateDB}
    {bs : List Block} (hs : c.stateAt b.parentHash = .ok s) (hsolvent : s.Solvent vm)
    (hhistory : (s.account x).History vm.toCrypto x bs) (h : b.Executes vm c tx st st') :
    (∃ used, (st.statedb.account x).Keyed used) ∧
      (st.statedb.account x).Steps vm.toCrypto x (.inl tx) (st'.statedb.account x) := by
  rcases h with ⟨parent, w, pm, opened, moved, e, env, st₀, last, n, hp, htx, hst, hstep⟩
  have hopened := hp.opened_eq hs
  subst hopened
  rcases keyed_of_history hc hvalid hhistory with ⟨used, -, hkeyed⟩
  have hsteady : opened.Steady x := steady_of_stateAt hs
  have hmoved := (booked_of_calculateEpochMetaData hp.moves).keeps (x := x)
  have hmoves := hmoved.account hsteady
  have hsteady₀ : st₀.statedb.Steady x := hp.start ▸ hmoved.steady hsteady
  have hsolvent₀ := (hp.solvent hvm hmoderate hsolvent).1
  have hattest := attestorReward_of_ok hp.loops
  rw [← hp.block] at hmoderate htx
  have hruns := runs_processUpTo hvm hx hreserve hmoderate hattest hsteady₀ hsolvent₀ hst
  have hrun := hruns.account hsteady₀
  rw [hp.start] at hrun
  rcases keyed_of_runs hc hvalid (hkeyed.moves hmoves) hrun with ⟨more, -, hkeyed'⟩
  have hsteady' := hruns.steady hsteady₀
  have hsteps := steps_processTx hvm hx (solvent_processUpTo hvm hmoderate hattest hsolvent₀ hst)
    hsteady' (hmoderate.user tx (List.mem_of_getElem? htx)) hmoderate.baseFee hstep
  exact ⟨⟨_, hkeyed'⟩, hsteps.account hsteady'⟩

/-- On a branch of regular blocks no one-time key of an XMSS key is used twice. Accepting a
    transaction changes the answer for its index, and beyond that only when it is the first
    of its address, for the indexes past the field that is made then. -/
theorem oneTimeKeys_used_once {pk : List UInt8} {g : Block}
    {preState : List (List UInt8 × UInt64)} {c₀ : Chain} (hc : XMSSAddresses vm.toCrypto)
    (hvm : vm.Apart) (hpk : pk.length = Config.xmssExtendedPKSize)
    (haddress : (vm.getXMSSAddressFromPK (unSizedXMSSPKToSizedPK pk)).isSome = true)
    (hg : g.slotNumber = 0) (hmoderate : g.Moderate) (hpre : ModeratePreState preState)
    (h₀ : genesisChain vm g preState = .ok c₀) (hzero : c₀.tries.get zeroHash = none)
    (hrun : Run vm (Regular vm) c₀ c) {k : Hash} {bs : List Block}
    (hbranch : c.db.Branch g.hash k bs) :
    ((userTransactions pk bs).map (fun tx => tx.base.otsIndex)).Nodup ∧
      ∀ (b : Block) (tx : Transaction) (i : Nat) (st st' : ExecState), b.parentHash = k →
        b.Moderate → b.Executes vm c tx st st' → tx.base.pk = pk → tx.base.otsIndex = .ok i →
        ∀ j, isUsedOTSIndex j (st'.statedb.account (vm.getAddressFromUnSizedPK pk)).otsBitfield ≠
            isUsedOTSIndex j (st.statedb.account (vm.getAddressFromUnSizedPK pk)).otsBitfield ↔
          j = i ∨ (st.statedb.account (vm.getAddressFromUnSizedPK pk)).otsBitfield = [] ∧
            getMaxOTSBitfieldSizeFromAddress (vm.getAddressFromUnSizedPK pk) ≤ j / 8 := by
  have hx := hvm.not_creates pk
  have hvalid : vm.isValidXMSSAddress (vm.getAddressFromUnSizedPK pk) = true := by
    rcases Option.isSome_iff_exists.1 haddress with ⟨addr, haddr⟩
    unfold Crypto.getAddressFromUnSizedPK Crypto.getXMSSAddressFromUnSizedPK
    rw [if_pos hpk, haddr]
    exact (hc.valid _).2 ⟨_, haddr⟩
  have hreserve : Config.coinBaseAddress ≠ vm.getAddressFromUnSizedPK pk := by
    intro heq
    rw [← heq] at hvalid
    exact absurd (hvalid.symm.trans hc.zero) (by decide)
  rcases history_of_branch hvm hx hreserve hg hmoderate hpre h₀ hzero hrun hbranch with
    ⟨s, hs, hhistory, hsolvent⟩
  refine ⟨?_, ?_⟩
  · rcases keyed_of_history hc hvalid hhistory with ⟨used, hused, hkeyed⟩
    have hnodup : ((ownTransactions vm.toCrypto (vm.getAddressFromUnSizedPK pk) bs).map
        AnyTransaction.otsIndex).Nodup := by
      rw [hused]
      exact hkeyed.nodup.map (fun _ _ => Except.ok.inj)
    have hsub := (userTransactions_sublist vm.toCrypto pk bs).map AnyTransaction.otsIndex
    rw [List.map_map] at hsub
    exact hnodup.sublist hsub
  · intro b tx i st st' hk hb hexec htx hi j
    subst hk
    generalize haddr : vm.getAddressFromUnSizedPK pk = x at *
    rcases keyed_of_executes hc hvm hvalid hx hreserve hb hs hsolvent hhistory hexec with
      ⟨⟨used, hkeyed⟩, hsteps⟩
    have hown : AnyTransaction.signer vm.toCrypto (.inl tx) = x := by
      show vm.getAddressFromUnSizedPK tx.base.pk = x
      rw [htx, haddr]
    rcases hkeyed.marks hvalid (htx ▸ hpk) (hsteps.own hown).2 with ⟨i', hi', hunused, hmarked⟩
    rw [hi, Except.ok.injEq] at hi'
    subst hi'
    have hanswer := isUsedOTSIndex_marked hmarked j
    cases hbefore : isUsedOTSIndex j (st.statedb.account x).otsBitfield with
    | false =>
      rw [hbefore] at hanswer
      rw [ne_eq, Bool.not_eq_false, hanswer]
      simp only [Bool.false_eq_true, false_or]
    | true =>
      rw [hbefore] at hanswer
      rw [hanswer.2 (.inr (.inl rfl))]
      refine ⟨fun h => absurd rfl h, ?_⟩
      rintro (rfl | ⟨hnil, -⟩)
      · exact absurd (hbefore.symm.trans hunused) (by decide)
      · rw [hnil] at hbefore
        cases hbefore

end Run

def toyXMSSAddress : Address := Bytes.alignLeft 20 [0x10, 2]

def toyXMSS : Externals :=
  { toyExternals with
    getXMSSAddressFromPK := fun _ => some toyXMSSAddress
    isValidXMSSAddress := fun addr => decide (toyXMSSAddress = addr)
    xmssVerify := fun _ _ _ => some true }

def toyXMSSKey : List UInt8 := List.replicate Config.xmssExtendedPKSize 0

def toyXMSSTx (index : UInt8) (nonce : UInt64) : Transaction :=
  let tx := { newTransfer 0 (toyAddress 2).val 0 21000 0 [] nonce toyXMSSKey with
    signature := [0, 0, 0, index] }
  .transfer { tx with hash := tx.generateTxHash toyCrypto }

theorem toyXMSS_addresses : XMSSAddresses toyXMSS.toCrypto where
  valid := fun addr => ⟨fun h => ⟨Bytes.zeros _, congrArg some (of_decide_eq_true h)⟩, fun ⟨_, h⟩ =>
    decide_eq_true (Option.some.inj h)⟩
  dilithium := by
    intro pk
    refine decide_eq_false (fun h => ?_)
    have hhead := (congrArg (fun addr : Address => addr.val.headD 0) h).trans (toyCrypto_head pk)
    exact absurd hhead (by decide)
  zero := by decide

def toyXMSSVm : Machine :=
  { toyXMSS with
    createAddress2 := fun _ _ _ => toyContract
    interprets := fun _ _ s _ _ => .start s }

theorem toyXMSSVm_apart : toyXMSSVm.Apart := by
  refine ⟨?_, toyVm_apart.reserve⟩
  rintro x (⟨pk, hx⟩ | hx)
  · cases hx
    rintro (⟨_, _, h⟩ | ⟨_, _, _, h⟩)
    · exact absurd (show toyXMSSAddress = toyContract from h) (by decide)
    · exact absurd (show toyXMSSAddress = toyContract from h) (by decide)
  · exact toyVm_apart.keys x (.inr hx)

def toyMarking : Block := toyBlock 1 100 toyGenesis.hash [toyXMSSTx 5 0] 2

def toyMarkingMore : Block := toyBlock 1 102 toyMarking.hash [toyXMSSTx 6 1] 3

theorem toyRun_marking : ∃ c₀ c, genesisChain toyXMSS toyGenesis toyPreState = .ok c₀ ∧
    Run toyXMSS (Regular toyXMSS) c₀ c ∧ c₀.tries.get zeroHash = none ∧
    ((c.db.branchTo toyGenesis.hash 3 toyMarkingMore.hash).map fun bs =>
      (userTransactions toyXMSSKey bs).length) = some 2 := by
  refine exists_run_of_check toyNow [toyMarking, toyMarkingMore] _ (fun _ _ => regular_of_test) ?_
  decide +kernel

theorem toyRun_used_once : ∃ c₀ c bs, genesisChain toyXMSS toyGenesis toyPreState = .ok c₀ ∧
    Run toyXMSS (Regular toyXMSS) c₀ c ∧ c.db.Branch toyGenesis.hash toyMarkingMore.hash bs ∧
    (userTransactions toyXMSSKey bs).length = 2 ∧
    ((userTransactions toyXMSSKey bs).map (fun tx => tx.base.otsIndex)).Nodup := by
  rcases toyRun_marking with ⟨c₀, c, h₀, hrun, hzero, hown⟩
  rcases Option.map_eq_some_iff.1 hown with ⟨bs, hbs, hlength⟩
  have hbranch := Store.branch_of_branchTo hbs
  have hsize : toyXMSSKey.length = Config.xmssExtendedPKSize := by decide
  have honce := oneTimeKeys_used_once toyXMSS_addresses toyXMSSVm_apart hsize rfl
    toyGenesis_slotNumber (by decide +kernel) (by decide +kernel) h₀ hzero hrun hbranch
  exact ⟨c₀, c, bs, h₀, hrun, hbranch, hlength, honce.1⟩

/-- Another child of the first. The key signs, and then key 2 stakes `2 ^ 63`, which counts
    as money it has, and sends as much to the XMSS address, which leaves it with less than
    nothing. -/
def toyDropping : Block :=
  toyBlock 1 102 toyMarking.hash [toyXMSSTx 6 1, toyStakeTx 2 (2 ^ 63) 1,
    .transfer (toyTransferTx 2 toyXMSSAddress.val (2 ^ 63) 2)] 3

def toyReusing : Block := toyBlock 1 104 toyDropping.hash [toyXMSSTx 6 1] 4

/-- A branch on which a one-time key is used twice. Its first block also changes the answer
    for an index no transaction has carried. -/
theorem oneTimeKey_reused : ∃ c₀ c bs,
    genesisChain toyXMSS toyGenesis toyPreState = .ok c₀ ∧
    Run toyXMSS (fun _ _ => True) c₀ c ∧ c.db.Branch toyGenesis.hash toyReusing.hash bs ∧
    (userTransactions toyXMSSKey bs).map (fun tx => tx.base.otsIndex) = [.ok 5, .ok 6, .ok 6] ∧
    (c.stateAt toyGenesis.hash).map (fun s =>
      isUsedOTSIndex 40 (s.account toyXMSSAddress).otsBitfield) = .ok false ∧
    (c.stateAt toyMarking.hash).map (fun s =>
      isUsedOTSIndex 40 (s.account toyXMSSAddress).otsBitfield) = .ok true := by
  have hrun : ∃ c₀ c, genesisChain toyXMSS toyGenesis toyPreState = .ok c₀ ∧
      Run toyXMSS (fun _ _ => True) c₀ c ∧
      ((c.db.branchTo toyGenesis.hash 4 toyReusing.hash).map fun bs =>
        (userTransactions toyXMSSKey bs).map (fun tx => tx.base.otsIndex))
          = some [.ok 5, .ok 6, .ok 6] ∧
      (c.stateAt toyGenesis.hash).map (fun s =>
        isUsedOTSIndex 40 (s.account toyXMSSAddress).otsBitfield) = .ok false ∧
      (c.stateAt toyMarking.hash).map (fun s =>
        isUsedOTSIndex 40 (s.account toyXMSSAddress).otsBitfield) = .ok true := by
    refine exists_run_of_check toyNow [toyMarking, toyDropping, toyReusing] _
      (fun _ _ (_ : true = true) => trivial) ?_
    decide +kernel
  rcases hrun with ⟨c₀, c, h₀, hrun, hown, hbefore, hafter⟩
  rcases Option.map_eq_some_iff.1 hown with ⟨bs, hbs, hindexes⟩
  exact ⟨c₀, c, bs, h₀, hrun, Store.branch_of_branchTo hbs, hindexes, hbefore, hafter⟩

-- The blocks of that branch have hashes of their own.
example : ([toyMarking, toyDropping, toyReusing].map Block.hash).Nodup := by decide +kernel

end Zond
