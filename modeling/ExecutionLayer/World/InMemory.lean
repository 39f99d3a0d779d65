import ExecutionLayer.Trie.Root
import ExecutionLayer.World.Effects
import ExecutionLayer.World.View

/-!
# Worlds held in memory

Finite maps of accounts and non-zero slots, the application of effects, and the
root that commits to the whole state.
-/

set_option autoImplicit false

namespace ExecutionLayer

structure World where
  accounts : Std.ExtTreeMap Address Account := ∅
  storage : Std.ExtTreeMap Address (Std.ExtTreeMap Word Word) := ∅

instance : Inhabited World := ⟨{}⟩

namespace World

def insertAccount (world : World) (address : Address) (account : Account) : World :=
  { world with accounts := world.accounts.insert address account }

/-- Sets a slot in a map of slots. Zero removes the slot. -/
def setSlot (slots : Std.ExtTreeMap Word Word) (slot value : Word) : Std.ExtTreeMap Word Word :=
  if value = 0 then slots.erase slot else slots.insert slot value

def insertStorage (world : World) (address : Address) (slot value : Word) : World :=
  { world with
    storage := world.storage.insert address
      (setSlot (world.storage.getD address ∅) slot value) }

def account? (world : World) (address : Address) : Option Account :=
  world.accounts[address]?

def slot (world : World) (address : Address) (slot : Word) : Word :=
  (world.storage.getD address ∅).getD slot 0

def size (world : World) : Nat :=
  world.accounts.size

def applyAccount (world : World) (address : Address) : Option Account → World
  | some account => world.insertAccount address account
  | none => { world with accounts := world.accounts.erase address }

/-- Wipes an account's storage if the delta says so, then writes its slots. -/
def applyStorage (world : World) (address : Address) (delta : StorageDelta) : World :=
  let start := if delta.cleared then { world with storage := world.storage.erase address } else world
  delta.slots.toList.foldl (fun world (slot, value) => world.insertStorage address slot value) start

/-- The world after the changes. No account keeps an empty map of slots. -/
def apply (world : World) (effects : StateEffects) : World :=
  let world := effects.accounts.toList.foldl
    (fun world (address, account) => world.applyAccount address account) world
  let world := effects.storage.toList.foldl
    (fun world (address, delta) => world.applyStorage address delta) world
  { world with storage := world.storage.filter fun _ slots => !slots.isEmpty }

/-- The root of the trie of accounts, each with the root of its own storage. -/
def root (world : World) : Hash :=
  Trie.secureRoot (world.accounts.toList.map fun (address, account) =>
    (address.toBytes,
      (account.item (Trie.storageRoot (world.storage.getD address ∅))).encode))

def view (world : World) : WorldView where
  account address := .ok (world.account? address)
  storage address slot := .ok (world.slot address slot)

end World

end ExecutionLayer
