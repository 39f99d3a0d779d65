import ExecutionLayer.World.Effects
import ExecutionLayer.World.View
import Std.Data.ExtTreeSet

/-!
# Journaled worlds

A view with the changes of one transaction over it. Every write records what it
replaced, so that a frame can go back to the checkpoint it took. Nothing reaches
the view itself: the finished journal turns into effects.
-/

set_option autoImplicit false

namespace ExecutionLayer

/-- An account as read or written. `dirty` tells written ones. -/
structure CachedAccount where
  account : Option Account
  dirty : Bool
deriving DecidableEq

structure CachedSlot where
  value : Word
  dirty : Bool
deriving DecidableEq

/-- What one write replaced. -/
inductive JournalEntry where
  | account (address : Address) (previous : Option CachedAccount)
  | slot (address : Address) (slot : Word) (previous : Option CachedSlot)
  | cleared (address : Address) (wasCleared : Bool)
      (slots : Option (Std.ExtTreeMap Word CachedSlot))
  | touched (address : Address)

/-- A place in the journal: the number of entries before it. -/
abbrev Checkpoint := Nat

/-- Accounts and slots read or written so far, with the journal of writes, last first. -/
structure JournaledWorld where
  base : WorldView
  accounts : Std.ExtTreeMap Address CachedAccount := ∅
  storage : Std.ExtTreeMap Address (Std.ExtTreeMap Word CachedSlot) := ∅
  /-- Accounts whose slots in the base no longer count. -/
  cleared : Std.ExtTreeSet Address := ∅
  /-- Accounts that are deleted at the end if they are left empty. -/
  touched : Std.ExtTreeSet Address := ∅
  journal : List JournalEntry := []

/-- An operation on a journaled world. After an error the world keeps whatever the
operation had done before it. -/
abbrev Journaled := EStateM StateError JournaledWorld

namespace JournaledWorld

/-! ## Going back -/

/-- A map with the value that one of its keys had before, if any. -/
def restore {Key Value : Type} [Ord Key] [Std.TransOrd Key] (values : Std.ExtTreeMap Key Value)
    (key : Key) : Option Value → Std.ExtTreeMap Key Value
  | some value => values.insert key value
  | none => values.erase key

def undo (world : JournaledWorld) : JournalEntry → JournaledWorld
  | .account address previous =>
      { world with accounts := restore world.accounts address previous }
  | .slot address slot previous =>
      { world with
        storage := world.storage.insert address
          (restore (world.storage.getD address ∅) slot previous) }
  | .cleared address wasCleared slots =>
      { world with
        cleared := if wasCleared then world.cleared else world.cleared.erase address
        storage := restore world.storage address slots }
  | .touched address => { world with touched := world.touched.erase address }

def undoLast (world : JournaledWorld) : Nat → JournaledWorld
  | 0 => world
  | count + 1 =>
      match world.journal with
      | [] => world
      | entry :: rest => undoLast (undo { world with journal := rest } entry) count

/-! ## Net changes -/

/-- The values that were written, without those only read. -/
def dirtySlots (slots : Std.ExtTreeMap Word CachedSlot) : Std.ExtTreeMap Word Word :=
  slots.filterMap fun _ cached => if cached.dirty then some cached.value else none

def effects (world : JournaledWorld) : StateEffects where
  accounts := world.accounts.filterMap fun _ cached =>
    if cached.dirty then some cached.account else none
  storage :=
    let written : Std.ExtTreeMap Address StorageDelta :=
      world.storage.filterMap fun address slots =>
        let slots := dirtySlots slots
        if slots.isEmpty then none
        else some { cleared := world.cleared.contains address, slots }
    world.cleared.toList.foldl
      (fun storage address => storage.insertIfNew address { cleared := true }) written

end JournaledWorld

/-! ## Changes of one account -/

namespace Account

/-- The account at an address with an amount more, if a word can hold the sum. -/
def credit (address : Address) (amount : Word) (account : Account) : Except StateError Account :=
  if account.balance.toNat + amount.toNat < Word.size then
    .ok { account with balance := account.balance + amount }
  else .error (.inconsistent address "balance overflow")

def debit (address : Address) (amount : Word) (account : Account) : Except StateError Account :=
  if amount ≤ account.balance then .ok { account with balance := account.balance - amount }
  else .error (.inconsistent address "insufficient balance")

def countUp (address : Address) (account : Account) : Except StateError Account :=
  if account.nonce.toNat + 1 < UInt64.size then .ok { account with nonce := account.nonce + 1 }
  else .error (.inconsistent address "nonce overflow")

end Account

namespace Journaled

def lift {Value : Type} : Except StateError Value → Journaled Value
  | .ok value => pure value
  | .error error => throw error

/-! ## Reads -/

/-- The account, loaded from the base on first access. -/
def account (address : Address) : Journaled (Option Account) := do
  let world ← get
  match world.accounts[address]? with
  | some cached => return cached.account
  | none =>
      let loaded ← lift (world.base.account address)
      modify fun world =>
        { world with accounts := world.accounts.insert address ⟨loaded, false⟩ }
      return loaded

def isPresent (address : Address) : Journaled Bool := do
  return (← account address).isSome

def isEmptyOrAbsent (address : Address) : Journaled Bool := do
  return (← account address).all Account.isEmpty

def blocksDeployment (address : Address) : Journaled Bool := do
  return (← account address).any Account.blocksDeployment

def balance (address : Address) : Journaled Word := do
  return ((← account address).getD {}).balance

def nonce (address : Address) : Journaled UInt64 := do
  return ((← account address).getD {}).nonce

def code (address : Address) : Journaled Code := do
  return ((← account address).getD {}).code

def storage (address : Address) (slot : Word) : Journaled Word := do
  let world ← get
  match (world.storage.getD address ∅)[slot]? with
  | some cached => return cached.value
  | none =>
      let value ←
        if world.cleared.contains address then pure 0 else lift (world.base.storage address slot)
      modify fun world =>
        { world with
          storage := world.storage.insert address
            ((world.storage.getD address ∅).insert slot ⟨value, false⟩) }
      return value

/-- The value the slot had before the transaction; zero once the account was cleared. -/
def originalStorage (address : Address) (slot : Word) : Journaled Word := do
  let world ← get
  if world.cleared.contains address then return 0
  lift (world.base.storage address slot)

/-! ## Writes -/

def touch (address : Address) : Journaled Unit :=
  modify fun world =>
    if world.touched.contains address then world
    else
      { world with
        touched := world.touched.insert address
        journal := .touched address :: world.journal }

def writeAccount (address : Address) (account : Option Account) : Journaled Unit := do
  modify fun world =>
    { world with
      accounts := world.accounts.insert address ⟨account, true⟩
      journal := .account address world.accounts[address]? :: world.journal }
  touch address

/-- Writes what `change` makes of the account, where an absent one counts as empty. -/
def modifyAccount (address : Address) (change : Account → Except StateError Account) :
    Journaled Unit := do
  let account := (← account address).getD {}
  writeAccount address (some (← lift (change account)))

/-- Credits an amount. The account is created if there is none. -/
def addBalance (address : Address) (amount : Word) : Journaled Unit :=
  modifyAccount address (Account.credit address amount)

def subBalance (address : Address) (amount : Word) : Journaled Unit :=
  modifyAccount address (Account.debit address amount)

/-- Moves value between accounts. Moving nothing only touches the recipient. -/
def transfer (sender recipient : Address) (value : Word) : Journaled Unit :=
  if value = 0 then touch recipient
  else do
    subBalance sender value
    addBalance recipient value

def incrementNonce (address : Address) : Journaled Unit :=
  modifyAccount address (Account.countUp address)

def clearStorage (address : Address) : Journaled Unit :=
  modify fun world =>
    { world with
      cleared := world.cleared.insert address
      storage := world.storage.erase address
      journal :=
        .cleared address (world.cleared.contains address) world.storage[address]?
          :: world.journal }

/-- Makes the account a fresh contract with nonce 1, no code and no storage that
keeps the balance it had. -/
def createContract (address : Address) : Journaled Unit := do
  let balance ← balance address
  clearStorage address
  writeAccount address (some { nonce := 1, balance })

def setCode (address : Address) (code : Code) : Journaled Unit :=
  modifyAccount address fun account => .ok { account with code }

def setStorage (address : Address) (slot value : Word) : Journaled Unit :=
  modify fun world =>
    let slots := world.storage.getD address ∅
    { world with
      storage := world.storage.insert address (slots.insert slot ⟨value, true⟩)
      journal := .slot address slot slots[slot]? :: world.journal }

def deleteAccount (address : Address) : Journaled Unit := do
  clearStorage address
  writeAccount address none

/-! ## Checkpoints -/

def checkpoint : Journaled Checkpoint := do
  return (← get).journal.length

def revertTo (checkpoint : Checkpoint) : Journaled Unit :=
  modify fun world => world.undoLast (world.journal.length - checkpoint)

/-! ## The end of a transaction -/

def deleteAccounts : List Address → Journaled Unit
  | [] => pure ()
  | address :: rest => do
      deleteAccount address
      deleteAccounts rest

def deleteEmptyAccounts : List Address → Journaled Unit
  | [] => pure ()
  | address :: rest => do
      if (← account address).any Account.isEmpty then deleteAccount address
      deleteEmptyAccounts rest

/-- Deletes the destroyed accounts, then every touched account that is left empty,
each in ascending order. -/
def finalize (destroyed : Std.ExtTreeSet Address) : Journaled Unit := do
  deleteAccounts destroyed.toList
  deleteEmptyAccounts (← get).touched.toList

end Journaled

end ExecutionLayer
