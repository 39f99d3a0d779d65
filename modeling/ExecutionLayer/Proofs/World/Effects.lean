import ExecutionLayer.Proofs.World.Refinement

/-!
# Effects by their readings

The effects of a journaled world depend on its readings alone: the accounts and slots
that were written, and the accounts that were cleared.
-/

set_option autoImplicit false

namespace ExecutionLayer.JournaledWorld

theorem account?_effects (world : JournaledWorld) (address : Address) :
    world.effects.account? address = world.readings.writtenAccount address := by
  simp only [StateEffects.account?, effects, Std.ExtTreeMap.getElem?_filterMap']
  rfl

/-- The slots of an account that were written, without those only read. -/
def writtenSlots (world : JournaledWorld) (address : Address) : Std.ExtTreeMap Word Word :=
  dirtySlots (world.storage.getD address ∅)

theorem getElem?_writtenSlots (world : JournaledWorld) (address : Address) (slot : Word) :
    (world.writtenSlots address)[slot]? = world.readings.writtenSlot address slot := by
  simp only [writtenSlots, dirtySlots, Std.ExtTreeMap.getElem?_filterMap']
  rfl

/-- The delta of an account in which slots were written, if any was. -/
private def writtenDelta (cleared : Bool) (slots : Std.ExtTreeMap Word Word) :
    Option StorageDelta :=
  if slots.isEmpty then none else some { cleared, slots }

private theorem getElem?_written (world : JournaledWorld) (address : Address) :
    (world.storage.filterMap fun address slots =>
        writtenDelta (world.cleared.contains address) (dirtySlots slots))[address]? =
      writtenDelta (world.cleared.contains address) (world.writtenSlots address) := by
  rw [Std.ExtTreeMap.getElem?_filterMap', writtenSlots, Std.ExtTreeMap.getD_eq_getD_getElem?]
  cases cached : world.storage[address]? with
  | some slots => rfl
  | none =>
      have nothing : dirtySlots ∅ = ∅ := by
        apply Std.ExtTreeMap.ext_getElem?
        intro slot
        simp [dirtySlots]
      simp [nothing, writtenDelta]

private theorem getElem?_foldl_insertIfNew (addresses : List Address) (delta : StorageDelta)
    (storage : Std.ExtTreeMap Address StorageDelta) (address : Address) :
    (addresses.foldl (fun storage address => storage.insertIfNew address delta) storage)[address]? =
      storage[address]?.or (if address ∈ addresses then some delta else none) := by
  induction addresses generalizing storage with
  | nil => simp
  | cons other rest ih =>
      rw [List.foldl_cons, ih, Std.ExtTreeMap.getElem?_insertIfNew]
      by_cases here : other = address
      · subst here
        cases found : storage[other]? with
        | some earlier =>
            have present : other ∈ storage := by
              rw [Std.ExtTreeMap.mem_iff_isSome_getElem?, found]
              rfl
            simp [present]
        | none =>
            have absent : other ∉ storage := by
              rw [Std.ExtTreeMap.mem_iff_isSome_getElem?, found]
              simp
            simp [absent]
      · simp [here, Ne.symm here]

private theorem getElem?_storage_effects (world : JournaledWorld) (address : Address) :
    world.effects.storage[address]? =
      (writtenDelta (world.cleared.contains address) (world.writtenSlots address)).or
        (if world.cleared.contains address then some { cleared := true } else none) := by
  refine (getElem?_foldl_insertIfNew world.cleared.toList { cleared := true } _ address).trans ?_
  have written := getElem?_written world address
  rw [← written]
  simp only [Std.ExtTreeSet.mem_toList, Std.ExtTreeSet.contains_iff_mem]
  rfl

/-- A cleared account without slots written since has a delta that only clears. -/
theorem storage_effects_of_cleared {world : JournaledWorld} {address : Address}
    (cleared : world.cleared.contains address = true)
    (unwritten : ∀ slot, world.readings.writtenSlot address slot = none) :
    world.effects.storage[address]? = some { cleared := true } := by
  have nothing : world.writtenSlots address = ∅ := by
    apply Std.ExtTreeMap.ext_getElem?
    intro slot
    rw [getElem?_writtenSlots, unwritten, Std.ExtTreeMap.getElem?_empty]
  rw [getElem?_storage_effects, nothing, if_pos cleared]
  rfl

/-- Where the effects alone decide a slot: it was written, or its account was cleared. -/
theorem slot?_effects (world : JournaledWorld) (address : Address) (slot : Word) :
    world.effects.slot? address slot =
      (world.readings.writtenSlot address slot).or
        (if world.cleared.contains address then some 0 else none) := by
  rw [StateEffects.slot?, getElem?_storage_effects, ← getElem?_writtenSlots]
  cases empty : (world.writtenSlots address).isEmpty with
  | true =>
      rw [Std.ExtTreeMap.isEmpty_iff.mp empty]
      cases world.cleared.contains address <;> simp [writtenDelta]
  | false =>
      simp only [writtenDelta, empty, Bool.false_eq_true, ↓reduceIte, Option.some_or]
      cases (world.writtenSlots address)[slot]? <;> rfl

/-- Worlds with the same readings have the same effects. -/
theorem effects_congr {left right : JournaledWorld} (same : left.readings = right.readings) :
    left.effects = right.effects := by
  have cleared : left.cleared = right.cleared := congrArg Readings.cleared same
  have accounts : left.effects.accounts = right.effects.accounts := by
    apply Std.ExtTreeMap.ext_getElem?
    intro address
    have leftAnswer := account?_effects left address
    have rightAnswer := account?_effects right address
    rw [same] at leftAnswer
    exact leftAnswer.trans rightAnswer.symm
  have slots (address : Address) : left.writtenSlots address = right.writtenSlots address := by
    apply Std.ExtTreeMap.ext_getElem?
    intro slot
    rw [getElem?_writtenSlots, getElem?_writtenSlots, same]
  have written :
      (left.storage.filterMap fun address slots =>
          writtenDelta (left.cleared.contains address) (dirtySlots slots)) =
        right.storage.filterMap fun address slots =>
          writtenDelta (right.cleared.contains address) (dirtySlots slots) := by
    apply Std.ExtTreeMap.ext_getElem?
    intro address
    rw [getElem?_written, getElem?_written, slots, cleared]
  have storage : left.effects.storage = right.effects.storage := by
    have wiped (world : JournaledWorld) : world.effects.storage =
        world.cleared.toList.foldl
          (fun storage address => storage.insertIfNew address { cleared := true })
          (world.storage.filterMap fun address slots =>
            writtenDelta (world.cleared.contains address) (dirtySlots slots)) := rfl
    rw [wiped, wiped, written, cleared]
  cases leftEffects : left.effects
  cases rightEffects : right.effects
  simp only [leftEffects, rightEffects] at accounts storage
  rw [accounts, storage]

end ExecutionLayer.JournaledWorld
