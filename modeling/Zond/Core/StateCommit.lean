import Zond.Core.StateDB

/-!
# Committing the State, With Its Errors

An error that occurs while an account is written to the trie is remembered in
`dbErr`, the first one for good, and the write is left out. `Commit` looks at the
field once, before it calls `IntermediateRoot`, which is where the accounts are
written. What is remembered there is returned by the next `Commit` only.

## Main definitions

* `Committer.commit`: `StateDB.Commit`, with the error field it goes by.
* `Faults`: Which writes fail.
-/

namespace Zond

inductive TrieErr where
  | negativeBigInt
  | missingNode
deriving DecidableEq, Repr

inductive StateErr where
  | updateStateObject (addr : Address) (cause : TrieErr)
  | deleteStateObject (addr : Address) (cause : TrieErr)
deriving DecidableEq

inductive CommitErr where
  | abortedDueToEarlierError (e : StateErr)
  | storageTrie (addr : Address)
  | accountTrie
deriving DecidableEq

/-- Where the tries fail: writing or deleting an account, committing the storage of an
    object, committing the account trie. -/
structure Faults where
  account : Address → Bool
  storage : Address → Bool
  commit : Bool

def Faults.none : Faults := { account := fun _ => false, storage := fun _ => false, commit := false }

/-- The state database with its error field. An account of the trie was decoded from
    RLP, so none of its numbers is negative. -/
structure Committer where
  db : StateDB
  stateObjectsDirty : List Address
  dbErr : Option StateErr
  encodable : ∀ addr a, db.trie.get addr = some a → a.Encodable

def setError (dbErr : Option StateErr) (e : StateErr) : Option StateErr := some (dbErr.getD e)

abbrev Writing := AssocMap Address Account × Option StateErr

def updateStateObject (faults : Faults) (w : Writing) (addr : Address) (data : Account) : Writing :=
  if ¬data.Encodable then (w.1, setError w.2 (.updateStateObject addr .negativeBigInt))
  else if faults.account addr then (w.1, setError w.2 (.updateStateObject addr .missingNode))
  else (w.1.put addr data, w.2)

def deleteStateObject (faults : Faults) (w : Writing) (addr : Address) : Writing :=
  if faults.account addr then (w.1, setError w.2 (.deleteStateObject addr .missingNode))
  else (w.1.erase addr, w.2)

/-- One address of the second loop of `IntermediateRoot`. -/
def writeBack (faults : Faults) (s : StateDB) (w : Writing) (addr : Address) : Writing :=
  match s.stateObjects.get addr with
  | none => w
  | some obj =>
    if obj.deleted then deleteStateObject faults w addr
    else updateStateObject faults w addr obj.data

theorem encodable_writeBack {faults : Faults} {s : StateDB} {w : Writing} {addr : Address}
    (h : ∀ x a, w.1.get x = some a → a.Encodable) :
    ∀ x a, (writeBack faults s w addr).1.get x = some a → a.Encodable := by
  intro x a hget
  unfold writeBack deleteStateObject updateStateObject at hget
  split at hget
  · exact h x a hget
  · split at hget
    · split at hget
      · exact h x a hget
      · rw [AssocMap.get_erase] at hget
        split at hget
        · cases hget
        · exact h x a hget
    · split at hget
      · exact h x a hget
      · split at hget
        · exact h x a hget
        · rename_i hfit _
          rw [AssocMap.get_put] at hget
          split at hget
          · rw [← Option.some_inj.1 hget]
            exact not_not.1 hfit
          · exact h x a hget

theorem encodable_foldl_writeBack {faults : Faults} {s : StateDB} {l : List Address}
    {w : Writing} (h : ∀ x a, w.1.get x = some a → a.Encodable) :
    ∀ x a, (l.foldl (writeBack faults s) w).1.get x = some a → a.Encodable := by
  induction l generalizing w with
  | nil => exact h
  | cons addr rest ih => exact ih (encodable_writeBack h)

namespace Committer

variable (faults : Faults) (c : Committer)

/-- The account trie and the error field after the second loop of `IntermediateRoot`. -/
def writing : Writing :=
  let s := c.db.finalise
  s.stateObjectsPending.foldl (writeBack faults s) (s.trie, c.dbErr)

def intermediateRoot : Committer :=
  let s := c.db.finalise
  { db := { s with trie := (c.writing faults).1, stateObjectsPending := [] }
    stateObjectsDirty := c.stateObjectsDirty ++ c.db.dirties.filter
      (fun addr => (c.db.stateObjects.get addr).isSome)
    dbErr := (c.writing faults).2
    encodable := encodable_foldl_writeBack (by rw [StateDB.trie_finalise]; exact c.encodable) }

/-- An object whose storage `CommitTrie` is called for, and fails. -/
def storageFault (addr : Address) : Bool :=
  ((c.db.stateObjects.get addr).any (fun obj => !obj.deleted)) && faults.storage addr

/-- `StateDB.Commit(true)`: the committed trie or an error, and the state after. -/
def commit : Except CommitErr (AssocMap Address Account) × Committer :=
  match c.dbErr with
  | some e => (.error (.abortedDueToEarlierError e), c)
  | none =>
    let c := c.intermediateRoot faults
    match c.stateObjectsDirty.find? (c.storageFault faults) with
    | some addr => (.error (.storageTrie addr), c)
    | none =>
      let c := { c with stateObjectsDirty := [] }
      -- The error field is not looked at again.
      if faults.commit then (.error .accountTrie, c) else (.ok c.db.trie, c)

end Committer

end Zond
