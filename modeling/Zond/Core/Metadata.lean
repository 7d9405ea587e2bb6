import Mathlib.Data.List.OfFn
import Zond.Core.Vm

/-!
# Chain Metadata

The records kept about blocks and epochs.

## Main definitions

* `BlockMetaData`: The parent link and the accumulated stake of a block.
* `EpochMetaData`: The validators of an epoch with the slots they are allotted.
* `MainChainMetaData`: The head and the finalized block.
-/

namespace Zond

/-- A Dilithium public key as it stands in a validator list. -/
abbrev PublicKey := List UInt8

/-- `BlockMetaData`. The total stake is kept as the number its text denotes. -/
structure BlockMetaData where
  parentHeaderHash : Hash
  headerHash : Hash
  slotNumber : UInt64
  totalStakeAmount : Int
  trieRoot : Hash
  childHeaderHashes : List Hash
  finalizedChildHeaderHash : Option Hash
deriving DecidableEq

namespace BlockMetaData

def new (parentHeaderHash headerHash : Hash) (slotNumber : UInt64) (totalStakeAmount : Int)
    (trieRoot : Hash) : BlockMetaData :=
  { parentHeaderHash := parentHeaderHash, headerHash := headerHash, slotNumber := slotNumber,
    totalStakeAmount := totalStakeAmount, trieRoot := trieRoot, childHeaderHashes := [],
    finalizedChildHeaderHash := none }

def epoch (bm : BlockMetaData) : UInt64 := epochOf bm.slotNumber

def addChildHeaderHash (bm : BlockMetaData) (h : Hash) : BlockMetaData :=
  { bm with childHeaderHashes := bm.childHeaderHashes ++ [h] }

def updateFinalizedChildHeaderHash (bm : BlockMetaData) (h : Hash) : BlockMetaData :=
  { bm with finalizedChildHeaderHash := some h }

end BlockMetaData

structure MainChainMetaData where
  finalizedBlockHeaderHash : Hash
  finalizedBlockSlotNumber : UInt64
  lastBlockHeaderHash : Hash
  lastBlockSlotNumber : UInt64
deriving DecidableEq

namespace MainChainMetaData

def updateFinalizedBlockData (m : MainChainMetaData) (h : Hash) (slot : UInt64) :
    MainChainMetaData :=
  { m with finalizedBlockHeaderHash := h, finalizedBlockSlotNumber := slot }

def updateLastBlockData (m : MainChainMetaData) (h : Hash) (slot : UInt64) : MainChainMetaData :=
  { m with lastBlockHeaderHash := h, lastBlockSlotNumber := slot }

end MainChainMetaData

/-- `EpochBlockHashesMetaData`: the blocks seen at each slot of an epoch. -/
structure EpochBlockHashes where
  epoch : UInt64
  blockHashesBySlotNumber : List (UInt64 × List Hash)
deriving DecidableEq

namespace EpochBlockHashes

def new (epoch : UInt64) : EpochBlockHashes :=
  { epoch := epoch
    blockHashesBySlotNumber := (List.range Config.blocksPerEpoch.toNat).map
      (fun i => (epoch * Config.blocksPerEpoch + UInt64.ofNat i, [])) }

/-- `EpochBlockHashes.AddHeaderHashBySlotNumber`. The test for a hash that is
    already listed compares a byte slice with an array and never fires. -/
def addHeaderHashBySlotNumber (e : EpochBlockHashes) (headerHash : Hash) (slotNumber : UInt64) :
    Go EpochBlockHashes := do
  errorIf (epochOf slotNumber ≠ e.epoch) (.slotNotInEpoch slotNumber e.epoch)
  let index := (slotNumber - e.epoch * Config.blocksPerEpoch).toNat
  match e.blockHashesBySlotNumber[index]? with
  | none => .error (.panic .indexOutOfRange)
  | some (slot, hashes) =>
    errorIf (slot ≠ slotNumber) (.unexpectedSlotAtIndex slot index)
    pure { e with blockHashesBySlotNumber :=
      e.blockHashesBySlotNumber.set index (slot, hashes ++ [headerHash]) }

end EpochBlockHashes

/-- `protos.SlotInfo`: indexes into the epoch's validator list. -/
structure SlotInfo where
  slotLeader : Nat
  attestors : List Nat
deriving DecidableEq

/-- `EpochMetaData`. A `none` among the slots is a nil pointer. -/
structure EpochMetaData where
  epoch : UInt64
  prevSlotLastBlockHeaderHash : Hash
  slotInfo : List (Option SlotInfo)
  validators : List PublicKey
  totalStakeAmountFound : UInt64
  totalStakeAmountAlloted : UInt64
deriving DecidableEq

namespace EpochMetaData

def new (epoch : UInt64) (prevSlotLastBlockHeaderHash : Hash) (validators : List PublicKey) :
    EpochMetaData :=
  { epoch := epoch, prevSlotLastBlockHeaderHash := prevSlotLastBlockHeaderHash, slotInfo := [],
    validators := validators, totalStakeAmountFound := 0, totalStakeAmountAlloted := 0 }

/-- The record after `Serialize` and `DeSerialize`. -/
def stored (e : EpochMetaData) : EpochMetaData :=
  { e with slotInfo := e.slotInfo.map (fun info =>
      some (info.getD { slotLeader := 0, attestors := [] })) }

def updatePrevEpochStakeData (e : EpochMetaData) (found alloted : UInt64) : EpochMetaData :=
  { e with totalStakeAmountFound := found, totalStakeAmountAlloted := alloted }

def addTotalStakeAmountFound (e : EpochMetaData) (amount : UInt64) : EpochMetaData :=
  { e with totalStakeAmountFound := e.totalStakeAmountFound + amount }

def addValidators (e : EpochMetaData) (pk : PublicKey) : EpochMetaData :=
  if pk ∈ e.validators then e else { e with validators := e.validators ++ [pk] }

/-- `EpochMetaData.RemoveValidators`: the first occurrence only. -/
def removeValidators (e : EpochMetaData) (pk : PublicKey) : EpochMetaData :=
  { e with validators := e.validators.erase pk }

/-- One pass of the inner loop of `AllotSlots`: row `i` deals validator
    `i * blocksPerEpoch + j` to slot `j`, as its leader in the first row and as an
    attestor in the others. -/
def allotSlot (i : Nat) (infos : List (Option SlotInfo)) (j : Nat) : List (Option SlotInfo) :=
  if i = 0 then infos.set j (some { slotLeader := i + j, attestors := [] })
  else infos.modify j (fun info => info.map (fun info =>
    { info with attestors := info.attestors ++ [i * Config.blocksPerEpoch.toNat + j] }))

/-- The two loops of `AllotSlots` over `n` validators. -/
def allotments (n : Nat) : List (Option SlotInfo) :=
  let perEpoch := Config.blocksPerEpoch.toNat
  (List.range ((n + (perEpoch - 1)) / perEpoch)).foldl
    (fun infos i => (List.range (min perEpoch (n - i * perEpoch))).foldl (allotSlot i) infos)
    (List.replicate perEpoch none)

/-- A list rearranged by a permutation of its indexes. -/
def shuffled {α : Type} (l : List α) (σ : Equiv.Perm (Fin l.length)) : List α :=
  List.ofFn (fun i => l.get (σ i))

def allotSlots (ext : Externals) (e : EpochMetaData) (randomSeed : Int) (epoch : UInt64)
    (prevSlotLastBlockHeaderHash : Hash) : Go EpochMetaData :=
  if e.validators.length = 0 then .error (.panic .noValidators)
  else .ok { e with
    epoch := epoch
    prevSlotLastBlockHeaderHash := prevSlotLastBlockHeaderHash
    validators := shuffled e.validators (ext.shuffle randomSeed e.validators.length)
    slotInfo := allotments e.validators.length }

/-- `e.SlotInfo()[slotNumber % blocksPerEpoch]`, dereferenced. -/
def slotInfoAt (e : EpochMetaData) (slotNumber : UInt64) : Go SlotInfo :=
  match e.slotInfo[(slotNumber % Config.blocksPerEpoch).toNat]? with
  | none => .error (.panic .indexOutOfRange)
  | some none => .error (.panic .nilDereference)
  | some (some info) => .ok info

/-- `e.Validators()[index]`. -/
def validatorAt (e : EpochMetaData) (index : Nat) : Go PublicKey :=
  Outcome.orFail (.panic .indexOutOfRange) e.validators[index]?

end EpochMetaData

/-- `SlotValidatorsMetaData`: a slot's leader, and every validator of the slot
    marked as leader (`true`) or attestor (`false`). -/
structure SlotValidatorsMetaData where
  slotLeaderPK : PublicKey
  validatorsType : AssocMap PublicKey Bool

namespace SlotValidatorsMetaData

def new (slotNumber : UInt64) (e : EpochMetaData) : Go SlotValidatorsMetaData := do
  let info ← e.slotInfoAt slotNumber
  let slotLeaderPK ← e.validatorAt info.slotLeader
  let attestors ← info.attestors.mapM e.validatorAt
  pure { slotLeaderPK := slotLeaderPK
         validatorsType := attestors.foldl (fun m pk => m.put pk false)
          (AssocMap.empty.put slotLeaderPK true) }

def IsSlotLeader (m : SlotValidatorsMetaData) (pk : PublicKey) : Prop :=
  m.validatorsType.get pk = some true

def IsAttestor (m : SlotValidatorsMetaData) (pk : PublicKey) : Prop :=
  m.validatorsType.get pk = some false

instance (m : SlotValidatorsMetaData) (pk : PublicKey) : Decidable (m.IsSlotLeader pk) :=
  inferInstanceAs (Decidable (_ = _))

instance (m : SlotValidatorsMetaData) (pk : PublicKey) : Decidable (m.IsAttestor pk) :=
  inferInstanceAs (Decidable (_ = _))

end SlotValidatorsMetaData

def getRandomSeed (c : Crypto) (hash : Hash) : Int :=
  int64 (UInt64.ofNat (((c.md5 hash.val).val.take 8).foldl (fun n b => n * 256 + b.toNat) 0))

end Zond
