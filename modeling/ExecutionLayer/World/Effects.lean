import ExecutionLayer.Account
import Std.Data.ExtTreeMap

/-!
# State effects

Net changes of accounts and storage as plain data, and how later changes are
laid over earlier ones.
-/

set_option autoImplicit false

namespace ExecutionLayer

/-- Changes of one account's storage. A written zero removes the slot. -/
structure StorageDelta where
  /-- All slots from before are wiped first. -/
  cleared : Bool := false
  slots : Std.ExtTreeMap Word Word := ∅

/-- Changes of accounts and storage. An account written as `none` is deleted. -/
structure StateEffects where
  accounts : Std.ExtTreeMap Address (Option Account) := ∅
  storage : Std.ExtTreeMap Address StorageDelta := ∅

instance : Inhabited StateEffects := ⟨{}⟩

/-- All entries of `later`, and those of `earlier` for other keys. -/
def overwrite {Key Value : Type} [Ord Key] [Std.TransOrd Key]
    (earlier later : Std.ExtTreeMap Key Value) : Std.ExtTreeMap Key Value :=
  earlier.insertMany later.toList

/-- A clearing delta forgets the earlier one, any other one adds its slots to it. -/
def StorageDelta.followedBy (earlier later : StorageDelta) : StorageDelta :=
  if later.cleared then later
  else { earlier with slots := overwrite earlier.slots later.slots }

namespace StateEffects

def isEmpty (effects : StateEffects) : Bool :=
  effects.accounts.isEmpty && effects.storage.isEmpty

def addStorage (storage : Std.ExtTreeMap Address StorageDelta) (address : Address)
    (later : StorageDelta) : Std.ExtTreeMap Address StorageDelta :=
  storage.insert address ((storage.getD address {}).followedBy later)

def merge (earlier later : StateEffects) : StateEffects where
  accounts := overwrite earlier.accounts later.accounts
  storage := later.storage.toList.foldl
    (fun storage (address, delta) => addStorage storage address delta) earlier.storage

/-- The account as these effects write it: `none` where they leave it alone, and
`some none` where they delete it. -/
def account? (effects : StateEffects) (address : Address) : Option (Option Account) :=
  effects.accounts[address]?

/-- The slot's value where the effects alone decide it. -/
def slot? (effects : StateEffects) (address : Address) (slot : Word) : Option Word :=
  match effects.storage[address]? with
  | none => none
  | some delta =>
      match delta.slots[slot]? with
      | some value => some value
      | none => if delta.cleared then some 0 else none

end StateEffects

end ExecutionLayer
