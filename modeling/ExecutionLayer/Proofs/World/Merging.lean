import ExecutionLayer.Proofs.World.Overlay

/-!
# Merged effects

Three ways to the same state: effects applied one after another, the merged effects
applied at once, and the merged effects kept pending in an overlay.
-/

set_option autoImplicit false

namespace ExecutionLayer

/-! ## Slots of one account -/

namespace StorageDelta

/-- The slots of an account once the delta is applied to them. -/
def applyTo (delta : StorageDelta) (slots : Std.ExtTreeMap Word Word) :
    Std.ExtTreeMap Word Word :=
  delta.slots.toList.foldl (fun slots (slot, value) => World.setSlot slots slot value)
    (if delta.cleared then ∅ else slots)

/-- What a map of slots holds for a written value. -/
def stored (value : Word) : Option Word :=
  if value = 0 then none else some value

theorem getD_stored (value : Word) : (stored value).getD 0 = value := by
  unfold stored
  split
  case isTrue zero => exact zero.symm
  case isFalse => rfl

theorem getElem?_setSlot (slots : Std.ExtTreeMap Word Word) (slot other value : Word) :
    (World.setSlot slots slot value)[other]? =
      if slot = other then stored value else slots[other]? := by
  unfold World.setSlot stored
  split
  · simp [Std.ExtTreeMap.getElem?_erase]
  · simp [Std.ExtTreeMap.getElem?_insert]

theorem getElem?_applyTo (delta : StorageDelta) (slots : Std.ExtTreeMap Word Word) (slot : Word) :
    (delta.applyTo slots)[slot]? =
      match delta.slots[slot]? with
      | some value => stored value
      | none => if delta.cleared then none else slots[slot]? := by
  have read := read_foldl_toList
    (fun slots (entry : Word × Word) => World.setSlot slots entry.1 entry.2)
    (fun slots : Std.ExtTreeMap Word Word => slots[slot]?) (fun value _ => stored value) slot
    delta.slots
    (fun slots value => by rw [getElem?_setSlot, if_pos rfl])
    (fun slots other value different => by rw [getElem?_setSlot, if_neg different])
    (if delta.cleared then ∅ else slots)
  refine Eq.trans read ?_
  cases delta.slots[slot]? with
  | some value => rfl
  | none => cases delta.cleared <;> simp

/-- A delta laid over another one does what the two do in turn. -/
theorem applyTo_followedBy (earlier later : StorageDelta) (slots : Std.ExtTreeMap Word Word) :
    (earlier.followedBy later).applyTo slots = later.applyTo (earlier.applyTo slots) := by
  apply Std.ExtTreeMap.ext_getElem?
  intro slot
  rw [getElem?_applyTo, getElem?_applyTo, getElem?_applyTo]
  cases cleared : later.cleared with
  | true => simp [followedBy, cleared]
  | false =>
      simp only [followedBy, cleared, Bool.false_eq_true, ↓reduceIte, getElem?_overwrite]
      cases later.slots[slot]? <;> rfl

end StorageDelta

/-! ## Effects -/

namespace StateEffects

theorem getElem?_storage_merge (earlier later : StateEffects) (address : Address) :
    (earlier.merge later).storage[address]? =
      match later.storage[address]? with
      | some delta => some ((earlier.storage.getD address {}).followedBy delta)
      | none => earlier.storage[address]? := by
  have read := read_foldl_toList
    (fun storage (entry : Address × StorageDelta) => addStorage storage entry.1 entry.2)
    (fun storage : Std.ExtTreeMap Address StorageDelta => storage[address]?)
    (fun delta before => some (StorageDelta.followedBy (before.getD {}) delta))
    address later.storage
    (fun storage delta => by
      rw [addStorage, Std.ExtTreeMap.getElem?_insert_self,
        Std.ExtTreeMap.getD_eq_getD_getElem?])
    (fun storage other delta different => by
      simp [addStorage, Std.ExtTreeMap.getElem?_insert, different])
    earlier.storage
  refine Eq.trans read ?_
  rw [Std.ExtTreeMap.getD_eq_getD_getElem?]
  cases later.storage[address]? <;> rfl

end StateEffects

/-! ## Worlds in memory -/

namespace World

/-- The slots of an account that are not zero. -/
def slots (world : World) (address : Address) : Std.ExtTreeMap Word Word :=
  world.storage.getD address ∅

/-- No account keeps an empty map of slots. -/
def Tidy (world : World) : Prop :=
  ∀ (address : Address) (slots : Std.ExtTreeMap Word Word),
    world.storage[address]? = some slots → slots.isEmpty = false

/-- Two worlds with the same accounts and, for every address, the same slots. Only an
empty map of slots that one of them keeps can tell them apart. -/
structure Matches (left right : World) : Prop where
  accounts : left.accounts = right.accounts
  slots : ∀ address, left.slots address = right.slots address

theorem Matches.root {left right : World} (same : left.Matches right) : left.root = right.root := by
  have storage (address : Address) :
      left.storage.getD address ∅ = right.storage.getD address ∅ := same.slots address
  simp only [World.root, same.accounts, storage]

theorem Matches.view {left right : World} (same : left.Matches right) : left.view = right.view := by
  have storage (address : Address) :
      left.storage.getD address ∅ = right.storage.getD address ∅ := same.slots address
  simp only [World.view, account?, slot, same.accounts, storage]

theorem getElem?_storage_of_tidy {world : World} (tidy : world.Tidy) (address : Address) :
    world.storage[address]? =
      if (world.slots address).isEmpty then none else some (world.slots address) := by
  rw [slots, Std.ExtTreeMap.getD_eq_getD_getElem?]
  cases found : world.storage[address]? with
  | none => simp
  | some slots => simp [tidy address slots found]

theorem Matches.eq_of_tidy {left right : World} (same : left.Matches right)
    (tidyLeft : left.Tidy) (tidyRight : right.Tidy) : left = right := by
  have storage : left.storage = right.storage := by
    apply Std.ExtTreeMap.ext_getElem?
    intro address
    rw [getElem?_storage_of_tidy tidyLeft, getElem?_storage_of_tidy tidyRight,
      same.slots address]
  obtain ⟨accounts, _⟩ := same
  cases left
  cases right
  simp_all

theorem slots_insertStorage (world : World) (address other : Address) (slot value : Word) :
    (world.insertStorage address slot value).slots other =
      if address = other then setSlot (world.slots other) slot value else world.slots other := by
  by_cases here : address = other <;>
    simp [slots, insertStorage, Std.ExtTreeMap.getD_insert, here]

private theorem slots_foldl_insertStorage (address other : Address) (entries : List (Word × Word))
    (world : World) :
    (entries.foldl (fun world (slot, value) => world.insertStorage address slot value)
        world).slots other =
      if address = other then
        entries.foldl (fun slots (slot, value) => setSlot slots slot value) (world.slots other)
      else world.slots other := by
  induction entries generalizing world with
  | nil => simp
  | cons entry rest ih =>
      rw [List.foldl_cons, List.foldl_cons, ih, slots_insertStorage]
      by_cases here : address = other <;> simp [here]

theorem slots_applyStorage (world : World) (address other : Address) (delta : StorageDelta) :
    (world.applyStorage address delta).slots other =
      if address = other then delta.applyTo (world.slots other) else world.slots other := by
  unfold applyStorage StorageDelta.applyTo
  dsimp only
  rw [slots_foldl_insertStorage]
  cases delta.cleared with
  | false => rfl
  | true =>
      by_cases here : address = other <;> simp [slots, Std.ExtTreeMap.getD_erase, here]

private theorem storage_foldl_applyAccount (entries : List (Address × Option Account))
    (world : World) :
    (entries.foldl (fun world (address, account) => world.applyAccount address account)
      world).storage = world.storage := by
  induction entries generalizing world with
  | nil => rfl
  | cons entry rest ih =>
      obtain ⟨address, account⟩ := entry
      rw [List.foldl_cons, ih]
      cases account <;> rfl

private theorem getD_filter_not_isEmpty (found : Option (Std.ExtTreeMap Word Word)) :
    (found.filter fun slots => !slots.isEmpty).getD ∅ = found.getD ∅ := by
  cases found with
  | none => rfl
  | some slots =>
      cases empty : slots.isEmpty with
      | true => simp [Option.filter, Std.ExtTreeMap.isEmpty_iff.mp empty]
      | false => simp [Option.filter, empty]

theorem slots_apply (world : World) (effects : StateEffects) (address : Address) :
    (world.apply effects).slots address =
      match effects.storage[address]? with
      | some delta => delta.applyTo (world.slots address)
      | none => world.slots address := by
  let written := effects.accounts.toList.foldl
    (fun world (address, account) => world.applyAccount address account) world
  have start : written.slots address = world.slots address := by
    unfold slots
    rw [storage_foldl_applyAccount]
  have kept : (world.apply effects).slots address =
      (effects.storage.toList.foldl
        (fun world (entry : Address × StorageDelta) => world.applyStorage entry.1 entry.2)
        written).slots address := by
    unfold apply slots
    simp only [Std.ExtTreeMap.getD_eq_getD_getElem?, Std.ExtTreeMap.getElem?_filter']
    exact getD_filter_not_isEmpty _
  have read := read_foldl_toList
    (fun world (entry : Address × StorageDelta) => world.applyStorage entry.1 entry.2)
    (fun world : World => world.slots address) (fun delta slots => delta.applyTo slots) address
    effects.storage
    (fun world delta => by rw [slots_applyStorage, if_pos rfl])
    (fun world other delta different => by rw [slots_applyStorage, if_neg different]) written
  rw [kept, read, start]
  cases effects.storage[address]? <;> rfl

theorem tidy_apply (world : World) (effects : StateEffects) : (world.apply effects).Tidy := by
  intro address slots found
  simp only [apply, Std.ExtTreeMap.getElem?_filter', Option.filter_eq_some_iff] at found
  simpa using found.2

/-- A slot after effects: as they decide it, or as it was. -/
theorem slot_apply (world : World) (effects : StateEffects) (address : Address) (slot : Word) :
    (world.apply effects).slot address slot =
      (effects.slot? address slot).getD (world.slot address slot) := by
  have read (world : World) : world.slot address slot = ((world.slots address)[slot]?).getD 0 := by
    rw [World.slot, ← slots, Std.ExtTreeMap.getD_eq_getD_getElem?]
  rw [read, read, slots_apply, StateEffects.slot?]
  cases effects.storage[address]? with
  | none => rfl
  | some delta =>
      simp only [StorageDelta.getElem?_applyTo]
      cases delta.slots[slot]? with
      | some value => exact StorageDelta.getD_stored value
      | none => cases delta.cleared <;> rfl

/-! ## Merged effects applied -/

private theorem getElem?_accounts_apply (world : World) (effects : StateEffects)
    (address : Address) : (world.apply effects).accounts[address]? =
      (effects.account? address).getD world.accounts[address]? :=
  account?_apply world effects address

theorem Matches.apply {left right : World} (same : left.Matches right) (effects : StateEffects) :
    left.apply effects = right.apply effects := by
  refine eq_of_tidy ⟨?_, ?_⟩ (tidy_apply left effects) (tidy_apply right effects)
  · apply Std.ExtTreeMap.ext_getElem?
    intro address
    rw [getElem?_accounts_apply, getElem?_accounts_apply, same.accounts]
  · intro address
    rw [slots_apply, slots_apply, same.slots]

theorem apply_empty_matches (world : World) : (world.apply {}).Matches world := by
  constructor
  · apply Std.ExtTreeMap.ext_getElem?
    intro address
    have nothing : StateEffects.account? {} address = none := Std.ExtTreeMap.getElem?_empty
    rw [getElem?_accounts_apply, nothing, Option.getD_none]
  · intro address
    rw [slots_apply]
    simp

theorem apply_merge (world : World) (earlier later : StateEffects) :
    world.apply (earlier.merge later) = (world.apply earlier).apply later := by
  refine Matches.eq_of_tidy ⟨?_, ?_⟩ (tidy_apply _ _) (tidy_apply _ _)
  · apply Std.ExtTreeMap.ext_getElem?
    intro address
    rw [getElem?_accounts_apply, getElem?_accounts_apply, getElem?_accounts_apply,
      StateEffects.account?_merge]
    cases later.account? address <;> rfl
  · intro address
    rw [slots_apply, slots_apply, slots_apply, StateEffects.getElem?_storage_merge]
    cases later.storage[address]? with
    | none => rfl
    | some delta =>
        simp only [StorageDelta.applyTo_followedBy, Std.ExtTreeMap.getD_eq_getD_getElem?]
        cases earlier.storage[address]? with
        | some first => rfl
        | none =>
            have nothing : StorageDelta.applyTo {} (world.slots address) = world.slots address := by
              apply Std.ExtTreeMap.ext_getElem?
              intro slot
              simp [StorageDelta.getElem?_applyTo]
            simp only [Option.getD_none, nothing]

theorem apply_foldl_merge (world : World) (effects : StateEffects) (changes : List StateEffects) :
    world.apply (changes.foldl .merge effects) = changes.foldl apply (world.apply effects) := by
  induction changes generalizing effects with
  | nil => rfl
  | cons change rest ih => rw [List.foldl_cons, List.foldl_cons, ih, apply_merge]

end World

/-! ## Overlays -/

namespace Overlay

theorem effects_foldl_apply (overlay : Overlay) (changes : List StateEffects) :
    changes.foldl apply overlay =
      { overlay with effects := changes.foldl .merge overlay.effects } := by
  induction changes generalizing overlay with
  | nil => rfl
  | cons change rest ih => exact ih (overlay.apply change)

/-- Pending effects over a world show what the world shows once they are applied. -/
theorem view_eq_apply (world : World) (effects : StateEffects) :
    view ⟨world.view, effects⟩ = (world.apply effects).view := by
  unfold view World.view
  dsimp only
  congr 1
  · funext address
    rw [World.account?_apply]
    cases effects.account? address <;> rfl
  · funext address slot
    rw [World.slot_apply]
    cases effects.slot? address slot <;> rfl

end Overlay

namespace World

/-- Effects merged into one leave the state that they leave one after another: the same accounts,
slots and root. An overlay shows after each of them what the world shows then. As data, the two
worlds differ only for the empty list over a world that keeps an empty map of slots: merged effects
drop such maps even if they change nothing, and no effects do not. -/
theorem apply_merged (world : World) (changes : List StateEffects) :
    (world.apply (changes.foldl .merge {}) = changes.foldl apply world ↔
        changes ≠ [] ∨ world.Tidy) ∧
      (world.apply (changes.foldl .merge {})).Matches (changes.foldl apply world) ∧
      (world.apply (changes.foldl .merge {})).root = (changes.foldl apply world).root ∧
      ∀ count, ((changes.take count).foldl Overlay.apply { base := world.view }).view =
        ((changes.take count).foldl apply world).view := by
  have merged (changes : List StateEffects) :
      (world.apply (changes.foldl .merge {})).Matches (changes.foldl apply world) := by
    rw [apply_foldl_merge]
    cases changes with
    | nil => exact world.apply_empty_matches
    | cons change rest =>
        rw [List.foldl_cons, List.foldl_cons, world.apply_empty_matches.apply change]
        exact ⟨rfl, fun _ => rfl⟩
  refine ⟨⟨?_, ?_⟩, merged changes, (merged changes).root, ?_⟩
  · intro same
    cases changes with
    | nil =>
        -- Nothing was applied in turn, yet the merged effects dropped the empty maps.
        have untouched : world.apply {} = world := same
        exact .inr (untouched ▸ tidy_apply world {})
    | cons change rest => exact .inl (List.cons_ne_nil change rest)
  · intro applied
    refine (merged changes).eq_of_tidy (tidy_apply _ _) ?_
    rcases List.eq_nil_or_concat changes with rfl | ⟨rest, last, rfl⟩
    · exact applied.resolve_left fun different => different rfl
    · rw [List.concat_eq_append, List.foldl_append]
      exact tidy_apply _ last
  · intro count
    rw [Overlay.effects_foldl_apply, ← (merged (changes.take count)).view]
    exact Overlay.view_eq_apply world _

end World

end ExecutionLayer
