import ExecutionLayer.Genesis
import ExecutionLayer.Proofs.World.Edits
import ExecutionLayer.Proofs.World.Finalization

/-!
# Owners of slots

A slot that is not zero belongs to an account that is there. Writes keep that while code runs
only for such accounts, and an account that is removed at the end of a transaction takes its
slots with it.
-/

set_option autoImplicit false

namespace ExecutionLayer

/-! ## Readings -/

namespace Readings

variable {readings before after : Readings} {address other : Address} {addresses : List Address}

/-- Every slot that is not zero belongs to an account. -/
def Owned (readings : Readings) : Prop :=
  ∀ address slot value, readings.slot address slot = .ok value → value ≠ 0 → readings.Has address

theorem Owned.clearStorage (owned : readings.Owned) (address : Address) :
    (readings.clearStorage address).Owned := by
  intro other slot value read nonzero
  by_cases here : address = other
  · cases (if_pos here).symm.trans read
    exact absurd rfl nonzero
  · exact owned other slot value ((if_neg here).symm.trans read) nonzero

theorem Owned.writeAccount (owned : readings.Owned) (address : Address) (account : Account) :
    (readings.writeAccount address (some account)).Owned := by
  have edits : Edits ∅ readings (readings.writeAccount address (some account)) :=
    .write .refl address account
  exact fun other slot value read nonzero => edits.has (owned other slot value read nonzero)

theorem lasting_owned : Lasting Owned where
  touch owned _ := owned
  write owned address account := owned.writeAccount address account
  found owned address account := (owned.clearStorage address).writeAccount address account
  store owned address has slot value := by
    intro other otherSlot held read nonzero
    by_cases here : address = other
    · exact here ▸ has
    · exact owned other otherSlot held ((if_neg (mt And.left here)).symm.trans read) nonzero

theorem Owned.deleteAccount (owned : readings.Owned) (address : Address) :
    (readings.deleteAccount address).Owned := by
  intro other slot value read nonzero
  rw [slot_deleteAccount] at read
  split at read
  case isTrue =>
    cases read
    exact absurd rfl nonzero
  case isFalse elsewhere =>
    obtain ⟨account, held⟩ := owned other slot value read nonzero
    exact ⟨account, (if_neg elsewhere).trans held⟩

theorem Owned.foldl_deleteAccount (owned : readings.Owned) (addresses : List Address) :
    (addresses.foldl Readings.deleteAccount readings).Owned := by
  induction addresses generalizing readings with
  | nil => exact owned
  | cons first rest ih => exact ih (owned.deleteAccount first)

theorem Swept.owned (swept : Swept addresses before after) (owned : before.Owned) :
    after.Owned := by
  intro address slot value read nonzero
  by_cases removed : address ∈ addresses ∧ before.EmptyAt address
  · rw [(swept.gone address removed.1 removed.2).2 slot] at read
    cases read
    exact absurd rfl nonzero
  · obtain ⟨sameAccount, sameSlot⟩ := swept.kept address removed
    obtain ⟨account, held⟩ := owned address slot value ((sameSlot slot).symm.trans read) nonzero
    exact ⟨account, sameAccount.trans held⟩

end Readings

theorem Journaled.finalize_owned {destroyed : Std.ExtTreeSet Address}
    {world after : JournaledWorld} (ran : finalize destroyed world = .ok () after)
    (owned : world.readings.Owned) : after.readings.Owned :=
  (finalize_ok ran).1.owned (owned.foldl_deleteAccount destroyed.toList)

/-! ## Worlds -/

namespace World

variable {world : World} {address : Address}

/-- Every slot that is stored is not zero and belongs to an account. -/
def Owned (world : World) : Prop :=
  ∀ (address : Address) (slot value : Word), (world.slots address)[slot]? = some value →
    value ≠ 0 ∧ ∃ account, world.account? address = some account

theorem slot_eq (world : World) (address : Address) (slot : Word) :
    world.slot address slot = ((world.slots address)[slot]?).getD 0 := by
  rw [World.slot, ← slots, Std.ExtTreeMap.getD_eq_getD_getElem?]

theorem Owned.congr {other : World} (owned : world.Owned) (same : other.Matches world) :
    other.Owned := by
  intro address slot value held
  rw [same.slots] at held
  rw [account?, same.accounts]
  exact owned address slot value held

/-- Effects store no zero. -/
theorem ne_zero_of_apply {effects : StateEffects} {slot value : Word}
    (owned : world.Owned) (held : ((world.apply effects).slots address)[slot]? = some value) :
    value ≠ 0 := by
  rw [slots_apply] at held
  split at held
  · rw [StorageDelta.getElem?_applyTo] at held
    split at held
    · unfold StorageDelta.stored at held
      split at held
      · cases held
      · rename_i nonzero
        cases held
        exact nonzero
    · split at held
      · cases held
      · exact (owned address slot value held).1
  · exact (owned address slot value held).1

/-- The readings of a world after its effects show who owns the slots. -/
theorem Owned.apply {shown : JournaledWorld} (owned : world.Owned)
    (coherent : shown.readings.Coherent) (based : shown.base = world.view)
    (ownedAfter : shown.readings.Owned) : (world.apply shown.effects).Owned := by
  obtain ⟨accounts, slots⟩ := view_apply coherent based
  intro address slot value held
  have nonzero := ne_zero_of_apply owned held
  have value_eq : (world.apply shown.effects).slot address slot = value := by
    rw [slot_eq, held, Option.getD_some]
  have read : shown.readings.slot address slot = .ok value := by
    rw [← slots address slot, ← value_eq]
    rfl
  obtain ⟨account, found⟩ := ownedAfter address slot value read nonzero
  exact ⟨nonzero, account, Except.ok.inj ((accounts address).trans found)⟩

theorem Owned.readings (owned : world.Owned) : (Readings.ofView world.view).Owned := by
  intro address slot value read nonzero
  have held : (world.slots address)[slot]?.getD 0 = value := by
    rw [← slot_eq]
    exact Except.ok.inj read
  cases found : (world.slots address)[slot]? with
  | none =>
      rw [found] at held
      exact absurd held.symm nonzero
  | some stored =>
      obtain ⟨account, present⟩ := (owned address slot stored found).2
      exact ⟨account, congrArg Except.ok present⟩

theorem Owned.insertAccount (owned : world.Owned) (address : Address) (account : Account) :
    (world.insertAccount address account).Owned := by
  intro other slot value held
  obtain ⟨nonzero, present⟩ := owned other slot value held
  refine ⟨nonzero, ?_⟩
  rw [account?, World.insertAccount, Std.ExtTreeMap.getElem?_insert]
  split
  · exact ⟨account, rfl⟩
  · exact present

theorem Owned.insertStorage {account : Account} (owned : world.Owned)
    (present : world.account? address = some account) (slot value : Word) :
    (world.insertStorage address slot value).Owned := by
  intro other otherSlot held found
  rw [slots_insertStorage] at found
  split at found
  case isTrue here =>
    subst here
    rw [StorageDelta.getElem?_setSlot] at found
    split at found
    · unfold StorageDelta.stored at found
      split at found
      · cases found
      · rename_i nonzero
        cases found
        exact ⟨nonzero, account, present⟩
    · exact owned address otherSlot held found
  case isFalse => exact owned other otherSlot held found

/-! ## The first world -/

theorem owned_empty : Owned {} := by
  intro address slot value held
  simp [slots] at held

theorem Owned.allocate (owned : world.Owned) (address : Address) (account : GenesisAccount) :
    (Genesis.allocate world address account).Owned := by
  have filled (entries : List (Word × Word)) {world : World} {held : Account}
      (owned : world.Owned) (present : world.account? address = some held) :
      (entries.foldl (fun world entry => world.insertStorage address entry.1 entry.2)
        world).Owned := by
    induction entries generalizing world with
    | nil => exact owned
    | cons entry rest ih => exact ih (owned.insertStorage present entry.1 entry.2) present
  exact filled _ (owned.insertAccount address _) Std.ExtTreeMap.getElem?_insert_self

theorem owned_genesis (genesis : Genesis) : genesis.world.Owned := by
  have allocated (entries : List (Address × GenesisAccount)) {world : World}
      (owned : world.Owned) :
      (entries.foldl (fun world entry => Genesis.allocate world entry.1 entry.2) world).Owned := by
    induction entries generalizing world with
    | nil => exact owned
    | cons entry rest ih => exact ih (owned.allocate entry.1 entry.2)
  exact allocated _ owned_empty

end World

end ExecutionLayer
