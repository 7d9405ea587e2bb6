import Zond.Core.Producer
import Zond.Core.Snapshot

/-!
# Snapshot Against Trie

Both encodings read back field by field, with nil written as zero or as the empty string.
The snapshot's short forms are undone: an absent root becomes the root of the empty
trie, an absent code hash the hash of no code, and a zero root is replaced on both
paths.

## Theorems

* `snapshot_agrees_iff`: When both paths of `getDeletedStateObject` read the same account.
* `slim_round_trip_iff`: When an account comes back from its short form.
-/

namespace Zond

section Numbers

theorem writeBigIntPtr_eq_ok_iff (x : Option Int) (i : Rlp.Item) :
    writeBigIntPtr x = .ok i ↔ 0 ≤ x.getD 0 ∧ i = Rlp.ofNat (x.getD 0).toNat := by
  cases x with
  | none =>
    rw [writeBigIntPtr, Except.ok.injEq]
    exact ⟨fun h => ⟨le_refl _, h.symm⟩, fun h => h.2.symm⟩
  | some x =>
    rw [writeBigIntPtr, Option.getD_some]
    by_cases hx : x < 0
    · rw [if_pos hx]
      exact ⟨fun h => (nomatch h), fun h => absurd h.1 (Int.not_le.2 hx)⟩
    · rw [if_neg hx, Except.ok.injEq]
      exact ⟨fun h => ⟨Int.not_lt.1 hx, h.symm⟩, fun h => h.2.symm⟩

theorem decodeBigInt_ofNat {x : Int} (h : 0 ≤ x) :
    decodeBigInt (Rlp.ofNat x.toNat) = some (some x) := by
  rw [decodeBigInt, Rlp.toNat?_ofNat, Option.map_some, Int.ofNat_eq_natCast,
    Int.toNat_of_nonneg h]

theorem encodeFields_eq_ok_iff {nonce : UInt64} {balance stake pending : Option Int}
    {root codeHash : List UInt8} {ots : List (List.Vector UInt8 8)} {item : Rlp.Item} :
    encodeFields nonce balance stake pending root codeHash ots = .ok item ↔
      (0 ≤ balance.getD 0 ∧ 0 ≤ stake.getD 0 ∧ 0 ≤ pending.getD 0) ∧
      item = .list [Rlp.ofNat nonce.toNat, Rlp.ofNat (balance.getD 0).toNat,
        Rlp.ofNat (stake.getD 0).toNat, Rlp.ofNat (pending.getD 0).toNat, .string root,
        .string codeHash, .list (ots.map (fun page => .string page.val))] := by
  rw [encodeFields]
  simp only [Outcome.bind_eq_ok, writeBigIntPtr_eq_ok_iff]
  constructor
  · rintro ⟨_, ⟨hb, rfl⟩, _, ⟨hs, rfl⟩, _, ⟨hp, rfl⟩, hitem⟩
    exact ⟨⟨hb, hs, hp⟩, (Except.ok.inj hitem).symm⟩
  · rintro ⟨⟨hb, hs, hp⟩, rfl⟩
    exact ⟨_, ⟨hb, rfl⟩, _, ⟨hs, rfl⟩, _, ⟨hp, rfl⟩, rfl⟩

theorem toListOf?_pages (ots : List (List.Vector UInt8 8)) :
    (Rlp.Item.list (ots.map (fun page => .string page.val))).toListOf?
      (fun page => page.toArray? 8) = some ots :=
  Rlp.toListOf?_map Rlp.toArray?_val ots

end Numbers

namespace StateAccount

def NonNegative (a : StateAccount) : Prop :=
  0 ≤ a.balance.getD 0 ∧ 0 ≤ a.stakeBalance.getD 0 ∧ 0 ≤ a.pendingStakeBalance.getD 0

/-- The account after encoding and decoding: nothing is nil. -/
def decoded (a : StateAccount) : StateAccount :=
  { a with
    balance := some (a.balance.getD 0)
    stakeBalance := some (a.stakeBalance.getD 0)
    pendingStakeBalance := some (a.pendingStakeBalance.getD 0)
    codeHash := some (a.codeHash.getD []) }

theorem encode_eq_ok_iff (a : StateAccount) : (∃ item, a.encode = .ok item) ↔ a.NonNegative :=
  ⟨fun ⟨_, h⟩ => (encodeFields_eq_ok_iff.1 h).1,
    fun h => ⟨_, encodeFields_eq_ok_iff.2 ⟨h, rfl⟩⟩⟩

theorem decode_of_encode {a : StateAccount} {item : Rlp.Item} (h : a.encode = .ok item) :
    decode item = some a.decoded := by
  rcases encodeFields_eq_ok_iff.1 h with ⟨⟨hb, hs, hp⟩, rfl⟩
  simp only [decode, Rlp.toUint64?_ofNat, decodeBigInt_ofNat hb, decodeBigInt_ofNat hs,
    decodeBigInt_ofNat hp, Rlp.toArray?_val, Rlp.Item.toBytes?, toListOf?_pages]
  rfl

end StateAccount

theorem slimAccountRLP_eq_ok_iff (c : Crypto) (a : StateAccount) :
    (∃ item, slimAccountRLP c a = .ok item) ↔ a.NonNegative :=
  ⟨fun ⟨_, h⟩ => (encodeFields_eq_ok_iff.1 h).1,
    fun h => ⟨_, encodeFields_eq_ok_iff.2 ⟨h, rfl⟩⟩⟩

theorem decode_of_slimAccountRLP {c : Crypto} {a : StateAccount} {item : Rlp.Item}
    (h : slimAccountRLP c a = .ok item) :
    SnapshotAccount.decode item = some (slimAccount c a.decoded) := by
  rcases encodeFields_eq_ok_iff.1 h with ⟨⟨hb, hs, hp⟩, rfl⟩
  simp only [SnapshotAccount.decode, Rlp.toUint64?_ofNat, decodeBigInt_ofNat hb,
    decodeBigInt_ofNat hs, decodeBigInt_ofNat hp, Rlp.Item.toBytes?, toListOf?_pages]
  rfl

section Paths

variable (c : Crypto) (a : StateAccount)
variable {item : Rlp.Item}

def StateAccount.viaTrie : StateAccount := a.decoded.newObject c

def StateAccount.viaSnapshot : StateAccount :=
  ((slimAccount c a.decoded).toStateAccount c).newObject c

theorem bytesToHash_nil : bytesToHash [] = zeroHash := rfl

theorem emptyRoot_ne_zeroHash : emptyRoot ≠ zeroHash := by decide

theorem emptyCodeHash_ne_nil : emptyCodeHash c ≠ [] := by
  intro h
  have hlength := (c.keccak256 []).property
  rw [show (c.keccak256 []).val = [] from h] at hlength
  cases hlength

theorem toStateAccount_root (acc : SnapshotAccount) : (acc.toStateAccount c).root =
    if bytesToHash acc.root = zeroHash then emptyRoot else bytesToHash acc.root := rfl

theorem toStateAccount_codeHash (acc : SnapshotAccount) : (acc.toStateAccount c).codeHash =
    some (if acc.codeHash.length = 0 then emptyCodeHash c else acc.codeHash) := rfl

theorem newObject_root : (a.newObject c).root =
    if a.root = zeroHash then emptyRoot else a.root := rfl

theorem slimAccount_root : ((slimAccount c a).toStateAccount c).root =
    if a.root = zeroHash then emptyRoot else a.root := by
  rw [toStateAccount_root]
  by_cases hempty : a.root = emptyRoot
  · have hslim : (slimAccount c a).root = [] := if_neg (not_not.2 hempty)
    rw [hslim, bytesToHash_nil, if_pos rfl, hempty, if_neg emptyRoot_ne_zeroHash]
  · have hslim : (slimAccount c a).root = a.root.val := if_pos hempty
    rw [hslim, show bytesToHash a.root.val = a.root from Bytes.alignRight_val a.root]

theorem slimAccount_fullRoot : (if (slimAccount c a).root.length = 0 then emptyRoot.val
    else (slimAccount c a).root) = a.root.val := by
  by_cases hempty : a.root = emptyRoot
  · have hslim : (slimAccount c a).root = [] := if_neg (not_not.2 hempty)
    rw [hslim, if_pos List.length_nil, hempty]
  · have hslim : (slimAccount c a).root = a.root.val := if_pos hempty
    rw [hslim, a.root.property, if_neg (by decide)]

theorem slimAccount_codeHash : ((slimAccount c a).toStateAccount c).codeHash =
    some (if a.codeHash.getD [] = [] then emptyCodeHash c else a.codeHash.getD []) := by
  rw [toStateAccount_codeHash]
  by_cases hempty : a.codeHash.getD [] = emptyCodeHash c
  · have hslim : (slimAccount c a).codeHash = [] := if_neg (not_not.2 hempty)
    rw [hslim, if_pos List.length_nil, hempty, if_neg (emptyCodeHash_ne_nil c)]
  · have hslim : (slimAccount c a).codeHash = a.codeHash.getD [] := if_pos hempty
    rw [hslim]
    by_cases hnil : a.codeHash.getD [] = []
    · rw [if_pos (List.length_eq_zero_iff.2 hnil), if_pos hnil]
    · rw [if_neg (fun h => hnil (List.length_eq_zero_iff.1 h)), if_neg hnil]

theorem viaSnapshot_root : (a.viaSnapshot c).root = (a.viaTrie c).root := by
  rw [StateAccount.viaSnapshot, StateAccount.viaTrie, newObject_root, newObject_root,
    slimAccount_root]
  by_cases hzero : a.decoded.root = zeroHash
  · rw [if_pos hzero, if_neg emptyRoot_ne_zeroHash]
  · rw [if_neg hzero, if_neg hzero]

theorem viaSnapshot_codeHash : (a.viaSnapshot c).codeHash =
    some (if a.codeHash.getD [] = [] then emptyCodeHash c else a.codeHash.getD []) := by
  have hslim := slimAccount_codeHash c a.decoded
  rw [StateAccount.viaSnapshot, StateAccount.newObject, hslim]
  rfl

theorem viaSnapshot_codeHash_eq_iff :
    (a.viaSnapshot c).codeHash = (a.viaTrie c).codeHash ↔ a.codeHash.getD [] ≠ [] := by
  rw [viaSnapshot_codeHash, show (a.viaTrie c).codeHash = some (a.codeHash.getD []) from rfl,
    Option.some_inj]
  by_cases hnil : a.codeHash.getD [] = []
  · rw [if_pos hnil, hnil]
    exact ⟨fun h => absurd h (emptyCodeHash_ne_nil c), fun h => absurd rfl h⟩
  · rw [if_neg hnil]
    exact ⟨fun _ => hnil, fun _ => rfl⟩

theorem viaSnapshot_eq_iff : a.viaSnapshot c = a.viaTrie c ↔
    a.stakeBalance.getD 0 = 0 ∧ a.pendingStakeBalance.getD 0 = 0 ∧ a.codeHash.getD [] ≠ [] := by
  constructor
  · intro h
    have hstake : some (0 : Int) = some (a.stakeBalance.getD 0) :=
      congrArg StateAccount.stakeBalance h
    have hpending : some (0 : Int) = some (a.pendingStakeBalance.getD 0) :=
      congrArg StateAccount.pendingStakeBalance h
    exact ⟨(Option.some_inj.1 hstake).symm, (Option.some_inj.1 hpending).symm,
      (viaSnapshot_codeHash_eq_iff c a).1 (congrArg StateAccount.codeHash h)⟩
  · rintro ⟨hstake, hpending, hcode⟩
    have hroot := viaSnapshot_root c a
    have hcodeHash := (viaSnapshot_codeHash_eq_iff c a).2 hcode
    have hzero : some (0 : Int) = some (a.stakeBalance.getD 0) := congrArg some hstake.symm
    have hzero' : some (0 : Int) = some (a.pendingStakeBalance.getD 0) :=
      congrArg some hpending.symm
    exact StateAccount.mk.injEq .. |>.mpr
      ⟨rfl, rfl, hzero, hzero', hroot, hcodeHash, rfl⟩

/-- The full encoding of the account, but with another code hash. -/
def StateAccount.encodingWith (code : List UInt8) : Rlp.Item :=
  .list [Rlp.ofNat a.nonce.toNat, Rlp.ofNat (a.balance.getD 0).toNat,
    Rlp.ofNat (a.stakeBalance.getD 0).toNat, Rlp.ofNat (a.pendingStakeBalance.getD 0).toNat,
    .string a.root.val, .string code, .list (a.otsBitfield.map (fun page => .string page.val))]

/-- The account with every field as it is, a nil balance as zero and a code hash without
    bytes as the hash of no code. -/
def StateAccount.restored : SnapshotAccount :=
  { nonce := a.nonce, balance := some (a.balance.getD 0)
    stakeBalance := some (a.stakeBalance.getD 0)
    pendingStakeBalance := some (a.pendingStakeBalance.getD 0)
    root := a.root.val
    codeHash := if a.codeHash.getD [] = [] then emptyCodeHash c else a.codeHash.getD []
    otsBitfield := a.otsBitfield }

theorem fullAccount_of_slimAccountRLP (h : slimAccountRLP c a = .ok item) :
    fullAccount c item = .ok (a.restored c) := by
  have hcode := Option.some_inj.1 (slimAccount_codeHash c a.decoded)
  rw [fullAccount, decode_of_slimAccountRLP h]
  exact congrArg Except.ok (SnapshotAccount.mk.injEq .. |>.mpr
    ⟨rfl, rfl, rfl, rfl, slimAccount_fullRoot c a.decoded, hcode, rfl⟩)

theorem fullAccountRLP_of_slimAccountRLP (h : slimAccountRLP c a = .ok item) :
    fullAccountRLP c item = .ok (a.encodingWith
      (if a.codeHash.getD [] = [] then emptyCodeHash c else a.codeHash.getD [])) := by
  rw [fullAccountRLP, fullAccount_of_slimAccountRLP c a h, Outcome.ok_bind]
  exact encodeFields_eq_ok_iff.2 ⟨(encodeFields_eq_ok_iff.1 h).1, rfl⟩

/-- The slim encoding turned into a full one is the account's full encoding, unless the
    code hash is empty. Nothing else is lost in the slim form, the stakes included. -/
theorem fullAccountRLP_slimAccountRLP (h : slimAccountRLP c a = .ok item) :
    fullAccountRLP c item = a.encode ↔ a.codeHash.getD [] ≠ [] := by
  have hright : a.encode = .ok (a.encodingWith (a.codeHash.getD [])) :=
    encodeFields_eq_ok_iff.2 ⟨(encodeFields_eq_ok_iff.1 h).1, rfl⟩
  rw [fullAccountRLP_of_slimAccountRLP c a h, hright]
  by_cases hnil : a.codeHash.getD [] = []
  · rw [if_pos hnil, hnil]
    refine ⟨fun heq => absurd ?_ (emptyCodeHash_ne_nil c), fun hne => absurd rfl hne⟩
    simpa [StateAccount.encodingWith] using heq
  · rw [if_neg hnil]
    exact ⟨fun _ => hnil, fun _ => rfl⟩

/-- An account without a negative balance has both encodings. The slim one gives back
    every field, and the full encoding made of it is the account's own exactly if the
    code hash has bytes. -/
theorem slim_round_trip_iff (h : a.NonNegative) :
    ∃ slim full, slimAccountRLP c a = .ok slim ∧ a.encode = .ok full ∧
      fullAccount c slim = .ok (a.restored c) ∧
      (fullAccountRLP c slim = .ok full ↔ a.codeHash.getD [] ≠ []) := by
  rcases (slimAccountRLP_eq_ok_iff c a).2 h with ⟨slim, hslim⟩
  rcases a.encode_eq_ok_iff.2 h with ⟨full, hfull⟩
  have hiff := fullAccountRLP_slimAccountRLP c a hslim
  rw [hfull] at hiff
  exact ⟨slim, full, hslim, hfull, fullAccount_of_slimAccountRLP c a hslim, hiff⟩

end Paths

def toyHolder (stake : Int) : StateAccount :=
  { nonce := 1, balance := some 3, stakeBalance := some stake, pendingStakeBalance := some 0
    root := emptyRoot, codeHash := some (emptyCodeHash toyCrypto), otsBitfield := [] }

theorem toyHolder_slim_round_trip : ∃ slim full, slimAccountRLP toyCrypto (toyHolder 7) = .ok slim ∧
    (toyHolder 7).encode = .ok full ∧ fullAccountRLP toyCrypto slim = .ok full := by
  rcases slim_round_trip_iff toyCrypto (toyHolder 7) ⟨by decide, by decide, by decide⟩ with
    ⟨slim, full, hslim, hfull, -, hiff⟩
  exact ⟨slim, full, hslim, hfull, hiff.2 (emptyCodeHash_ne_nil toyCrypto)⟩

/-- An empty code hash comes back as the hash of no code, and the encodings differ. -/
theorem slim_replaces_empty_codeHash : ∃ slim full,
    slimAccountRLP toyCrypto { toyHolder 7 with codeHash := some [] } = .ok slim ∧
    StateAccount.encode { toyHolder 7 with codeHash := some [] } = .ok full ∧
    fullAccountRLP toyCrypto slim ≠ .ok full := by
  refine ⟨_, _, rfl, rfl, fun h => ?_⟩
  exact (fullAccountRLP_slimAccountRLP toyCrypto { toyHolder 7 with codeHash := some [] } rfl).1 h
    rfl

/-- The account as `types.StateAccount` has it: the storage and the code as hashes. -/
def Account.toStateAccount (c : Crypto) (storageRoot : AssocMap Hash Hash → Hash)
    (a : Account) : StateAccount :=
  { nonce := a.nonce, balance := some a.balance, stakeBalance := some a.stakeBalance
    pendingStakeBalance := some a.pendingStakeBalance, root := storageRoot a.storage
    codeHash := some (c.keccak256 a.code).val, otsBitfield := a.otsBitfield }

theorem Account.encodable_iff (c : Crypto) (storageRoot : AssocMap Hash Hash → Hash)
    (a : Account) : a.Encodable ↔ ∃ item, (a.toStateAccount c storageRoot).encode = .ok item :=
  (StateAccount.encode_eq_ok_iff (a.toStateAccount c storageRoot)).symm

section Reading

variable {ε : Type} {c : Crypto} {s : AccountReader ε} {addr : Address} {a : StateAccount}

theorem getDeletedStateObject_of_trie {item : Rlp.Item} (hlive : s.stateObjects.get addr = none)
    (hsnap : s.snap = none) (htrie : s.trie addr = .ok (some item))
    (hitem : a.encode = .ok item) : s.getDeletedStateObject c addr =
      .ok (s.insert c addr a.decoded) := by
  rw [AccountReader.getDeletedStateObject, hlive, hsnap]
  simp only [AccountReader.readTrie, htrie, StateAccount.decode_of_encode hitem]

theorem getDeletedStateObject_of_snapshot {item : Rlp.Item}
    {layer : Hash → Except ε (Option Rlp.Item)} (hlive : s.stateObjects.get addr = none)
    (hsnap : s.snap = some layer) (hlayer : layer (c.keccak256 addr.val) = .ok (some item))
    (hitem : slimAccountRLP c a = .ok item) : s.getDeletedStateObject c addr =
      .ok (s.insert c addr ((slimAccount c a.decoded).toStateAccount c)) := by
  rw [AccountReader.getDeletedStateObject, hlive, hsnap]
  simp only [AccountReader.snapAccount, hlayer, decode_of_slimAccountRLP hitem]

/-- Snapshot and trie, for every account. A layer that holds the slim encoding of the
    account and a trie that holds its full encoding answer with the same nonce, balance,
    storage root and bitfield, and with the same account exactly when nothing is staked
    or pending and the code hash is not empty. -/
theorem snapshot_agrees_iff (s : AccountReader ε) (addr : Address) (a : StateAccount)
    {layer : Hash → Except ε (Option Rlp.Item)} {slim full : Rlp.Item}
    (hlive : s.stateObjects.get addr = none) (hsnap : s.snap = some layer)
    (hslim : slimAccountRLP c a = .ok slim)
    (hlayer : layer (c.keccak256 addr.val) = .ok (some slim))
    (hfull : a.encode = .ok full) (htrie : s.trie addr = .ok (some full)) :
    ∃ viaSnapshot viaTrie s₁ s₂,
      s.getDeletedStateObject c addr = .ok (some viaSnapshot, s₁) ∧
      { s with snap := none }.getDeletedStateObject c addr = .ok (some viaTrie, s₂) ∧
      viaSnapshot.nonce = viaTrie.nonce ∧ viaSnapshot.balance = viaTrie.balance ∧
      viaSnapshot.root = viaTrie.root ∧ viaSnapshot.otsBitfield = viaTrie.otsBitfield ∧
      (viaSnapshot = viaTrie ↔ a.stakeBalance.getD 0 = 0 ∧ a.pendingStakeBalance.getD 0 = 0 ∧
        a.codeHash.getD [] ≠ []) := by
  have h₁ := getDeletedStateObject_of_snapshot hlive hsnap hlayer hslim
  have hlive' : { s with snap := none }.stateObjects.get addr = none := hlive
  have h₂ := @getDeletedStateObject_of_trie ε c _ addr a full hlive' rfl htrie hfull
  exact ⟨a.viaSnapshot c, a.viaTrie c, _, _, h₁, h₂, rfl, rfl, viaSnapshot_root c a, rfl,
    viaSnapshot_eq_iff c a⟩

end Reading

def toyReader (a : StateAccount) : AccountReader Unit :=
  { stateObjects := .empty
    snap := some (fun _ => .ok (slimAccountRLP toyCrypto a).toOption)
    trie := fun _ => .ok a.encode.toOption
    dbErr := none }

theorem toyHolder_agrees : ∃ acc s₁ s₂,
    (toyReader (toyHolder 0)).getDeletedStateObject toyCrypto zeroAddress = .ok (some acc, s₁) ∧
    { toyReader (toyHolder 0) with snap := none }.getDeletedStateObject toyCrypto zeroAddress =
      .ok (some acc, s₂) := by
  rcases snapshot_agrees_iff (c := toyCrypto) (toyReader (toyHolder 0)) zeroAddress (toyHolder 0)
    rfl rfl rfl rfl rfl rfl with ⟨v, t, s₁, s₂, h₁, h₂, _, _, _, _, hiff⟩
  have heq : v = t := hiff.2 ⟨rfl, rfl, emptyCodeHash_ne_nil toyCrypto⟩
  exact ⟨v, s₁, s₂, h₁, heq ▸ h₂⟩

/-- An account with 7 coins at stake has none of them when it is read from the snapshot. -/
theorem snapshot_drops_stake : ∃ v t s₁ s₂,
    (toyReader (toyHolder 7)).getDeletedStateObject toyCrypto zeroAddress = .ok (some v, s₁) ∧
    { toyReader (toyHolder 7) with snap := none }.getDeletedStateObject toyCrypto zeroAddress =
      .ok (some t, s₂) ∧
    v.stakeBalance = some 0 ∧ t.stakeBalance = some 7 :=
  ⟨_, _, _, _, rfl, rfl, rfl, rfl⟩

end Zond
