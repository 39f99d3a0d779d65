import ExecutionLayer.World.Journal

/-!
# What a journaled world answers

The readings of a journaled world: its answer to every read and the changes it would
turn into effects. Caches and the journal are not part of them. The operations act on
readings as they act on worlds, without anything to undo.
-/

set_option autoImplicit false

namespace ExecutionLayer

/-- All that reads of a journaled world and its effects can tell. -/
structure Readings where
  base : WorldView
  account : Address → Except StateError (Option Account)
  slot : Address → Word → Except StateError Word
  /-- The accounts as written, where they were written. -/
  writtenAccount : Address → Option (Option Account)
  /-- The slots as written, where they were written. -/
  writtenSlot : Address → Word → Option Word
  cleared : Std.ExtTreeSet Address
  touched : Std.ExtTreeSet Address

namespace Readings

/-- The readings of a world that nothing was done to. -/
def ofView (view : WorldView) : Readings where
  base := view
  account := view.account
  slot := view.storage
  writtenAccount _ := none
  writtenSlot _ _ := none
  cleared := ∅
  touched := ∅

/-- What a slot held before the transaction; zero once the account was cleared. -/
def original (readings : Readings) (address : Address) (slot : Word) : Except StateError Word :=
  if readings.cleared.contains address then .ok 0 else readings.base.storage address slot

def touch (readings : Readings) (address : Address) : Readings :=
  { readings with touched := readings.touched.insert address }

def writeAccount (readings : Readings) (address : Address) (account : Option Account) :
    Readings :=
  { readings with
    account := fun other => if address = other then .ok account else readings.account other
    writtenAccount := fun other =>
      if address = other then some account else readings.writtenAccount other
    touched := readings.touched.insert address }

def clearStorage (readings : Readings) (address : Address) : Readings :=
  { readings with
    slot := fun other slot => if address = other then .ok 0 else readings.slot other slot
    writtenSlot := fun other slot =>
      if address = other then none else readings.writtenSlot other slot
    cleared := readings.cleared.insert address }

def setStorage (readings : Readings) (address : Address) (slot value : Word) : Readings :=
  { readings with
    slot := fun other otherSlot =>
      if address = other ∧ slot = otherSlot then .ok value else readings.slot other otherSlot
    writtenSlot := fun other otherSlot =>
      if address = other ∧ slot = otherSlot then some value
      else readings.writtenSlot other otherSlot }

def deleteAccount (readings : Readings) (address : Address) : Readings :=
  (readings.clearStorage address).writeAccount address none

end Readings

/-- An operation on readings. After an error they are as the operation left them. -/
abbrev Observed := EStateM StateError Readings

namespace Observed

/-- A question to the readings. -/
def ask {Value : Type} (question : Readings → Except StateError Value) : Observed Value :=
  fun readings =>
    match question readings with
    | .ok value => .ok value readings
    | .error error => .error error readings

theorem ask_eq_ok {Value : Type} {question : Readings → Except StateError Value}
    {readings after : Readings} {value : Value} (asked : ask question readings = .ok value after) :
    question readings = .ok value ∧ after = readings := by
  unfold ask at asked
  split at asked
  · rename_i answered
    injection asked with same unchanged
    exact ⟨same ▸ answered, unchanged.symm⟩
  · cases asked

def account (address : Address) : Observed (Option Account) :=
  ask (·.account address)

/-- Writes what `change` makes of the account, where an absent one counts as empty. -/
def modifyAccount (address : Address) (change : Account → Except StateError Account) :
    Observed Unit := do
  let account := (← account address).getD {}
  let changed ← ask fun _ => change account
  modify (·.writeAccount address (some changed))

/-- Moves value between accounts. Moving nothing only touches the recipient. -/
def transfer (sender recipient : Address) (value : Word) : Observed Unit :=
  if value = 0 then modify (·.touch recipient)
  else do
    modifyAccount sender (Account.debit sender value)
    modifyAccount recipient (Account.credit recipient value)

/-- The balance, zero for absent accounts. -/
def balance (address : Address) : Observed Word := do
  return ((← account address).getD {}).balance

/-- Makes the account a fresh contract that keeps its balance. -/
def createContract (address : Address) : Observed Unit := do
  let balance ← balance address
  modify (·.clearStorage address)
  modify (·.writeAccount address (some { nonce := 1, balance }))

def deleteEmptyAccounts : List Address → Observed Unit
  | [] => pure ()
  | address :: rest => do
      if (← account address).any Account.isEmpty then modify (·.deleteAccount address)
      deleteEmptyAccounts rest

/-- Deletes the destroyed accounts, then every touched account that is left empty. -/
def finalize (destroyed : Std.ExtTreeSet Address) : Observed Unit := do
  modify (destroyed.toList.foldl Readings.deleteAccount)
  deleteEmptyAccounts (← get).touched.toList

end Observed

end ExecutionLayer
