import Zond.Core.Store

/-!
# State Context

A block with slot number zero is taken for genesis: its signers are neither
checked against the slot nor counted.

## Main definitions

* `StateContext`: The working context of one block: who has signed, the stake they add up
  to, and copies of the chain records made when the context was opened.
* `StateContext.processValidatorStakeAmount`: Count one signer.
-/

namespace Zond

structure StateContext where
  slotNumber : UInt64
  parentBlockHeaderHash : Hash
  blockHeaderHash : Hash
  partialBlockSigningHash : Hash
  blockSigningHash : Hash
  currentBlockTotalStakeAmount : Int
  validatorsFlag : AssocMap PublicKey Bool
  epochMetaData : EpochMetaData
  epochBlockHashes : EpochBlockHashes
  mainChainMetaData : MainChainMetaData

namespace StateContext

def initialFlags (slotNumber : UInt64) (e : EpochMetaData) : Go (AssocMap PublicKey Bool) :=
  if slotNumber = 0 then .ok AssocMap.empty
  else do
    let info ← e.slotInfoAt slotNumber
    let attestors ← info.attestors.mapM e.validatorAt
    let leader ← e.validatorAt info.slotLeader
    pure ((attestors.foldl (fun m pk => m.put pk false) AssocMap.empty).put leader false)

def new (db : Store) (slotNumber : UInt64) (parentBlockHeaderHash blockHeaderHash
    partialBlockSigningHash blockSigningHash : Hash) (e : EpochMetaData) : Go StateContext := do
  let mainChainMetaData ← db.getMainChainMetaData
  let flags ← initialFlags slotNumber e
  pure { slotNumber := slotNumber
         parentBlockHeaderHash := parentBlockHeaderHash
         blockHeaderHash := blockHeaderHash
         partialBlockSigningHash := partialBlockSigningHash
         blockSigningHash := blockSigningHash
         currentBlockTotalStakeAmount := 0
         validatorsFlag := flags
         epochMetaData := e
         epochBlockHashes := db.getEpochBlockHashes (epochOf slotNumber)
         mainChainMetaData := mainChainMetaData }

variable (c : Crypto)

/-- `StateContext.processValidatorStakeAmount`, and marking the signer as seen. -/
def processValidatorStakeAmount (ctx : StateContext) (pk : PublicKey) (stakeBalance : Int) :
    Go StateContext := do
  let requiredStakeAmount := int64 Config.stakeAmount
  errorIf (stakeBalance < requiredStakeAmount)
    (.invalidStakeBalance stakeBalance (c.getAddressFromUnSizedPK pk))
  pure { ctx with
    currentBlockTotalStakeAmount := ctx.currentBlockTotalStakeAmount + requiredStakeAmount
    validatorsFlag := ctx.validatorsFlag.put pk true }

def processAttestorsFlag (ctx : StateContext) (pk : PublicKey) (stakeBalance : Int) :
    Go StateContext :=
  if ctx.slotNumber = 0 then .ok ctx
  else match ctx.validatorsFlag.get pk with
    | none => .error (.error .attestorNotAssigned)
    | some true => .error (.error .attestorAlreadyAttested)
    | some false => ctx.processValidatorStakeAmount c pk stakeBalance

def processBlockProposerFlag (ctx : StateContext) (pk : PublicKey) (stakeBalance : Int) :
    Go StateContext :=
  if ctx.slotNumber = 0 then .ok ctx
  else do
    let info ← ctx.epochMetaData.slotInfoAt ctx.slotNumber
    let slotLeader ← ctx.epochMetaData.validatorAt info.slotLeader
    errorIf (slotLeader ≠ pk) .unexpectedBlockProposer
    match ctx.validatorsFlag.get pk with
    | none => .error (.error .proposerNotAssigned)
    | some true => .error (.error .proposerAlreadyProcessed)
    | some false => ctx.processValidatorStakeAmount c pk stakeBalance

def prepareValidators (ctx : StateContext) (pk : PublicKey) : StateContext :=
  { ctx with validatorsFlag := ctx.validatorsFlag.put pk false }

end StateContext

end Zond
