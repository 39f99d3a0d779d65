import ExecutionLayer.Proofs.World.Conservation
import Mathlib.Data.Set.Card

/-!
# Slots over a transaction

What each operation does to what slots hold and held before the transaction, and to the
slots that were emptied since.
-/

set_option autoImplicit false

namespace ExecutionLayer

namespace Readings

/-- Every slot reads the same, also as it was before the transaction. -/
structure StorageAlike (left right : Readings) : Prop where
  slot : right.slot = left.slot
  original : right.original = left.original

theorem StorageAlike.refl (readings : Readings) : StorageAlike readings readings :=
  ⟨rfl, rfl⟩

theorem StorageAlike.of_eq {left right : Readings} (same : right = left) :
    StorageAlike left right := by
  rw [same]
  exact .refl left

theorem StorageAlike.trans {left middle right : Readings} (first : StorageAlike left middle)
    (second : StorageAlike middle right) : StorageAlike left right :=
  ⟨second.slot.trans first.slot, second.original.trans first.original⟩

theorem storageAlike_writeAccount (readings : Readings) (address : Address)
    (account : Option Account) : StorageAlike readings (readings.writeAccount address account) :=
  ⟨rfl, rfl⟩

/-- Every slot reads what it held before the transaction, as it does until one is written. -/
def StorageUnwritten (readings : Readings) : Prop :=
  ∀ address slot, readings.slot address slot = readings.original address slot

/-- The slots that held something before the transaction and are empty now. -/
def emptied (readings : Readings) : Set SlotId :=
  {id | readings.slot id.1 id.2 = .ok 0 ∧
    ∃ original, readings.original id.1 id.2 = .ok original ∧ original ≠ 0}

variable {readings : Readings}

theorem StorageAlike.emptied {left right : Readings} (alike : StorageAlike left right) :
    right.emptied = left.emptied := by
  unfold Readings.emptied
  rw [alike.slot, alike.original]

theorem StorageUnwritten.emptied (unwritten : readings.StorageUnwritten) :
    readings.emptied = ∅ := by
  ext ⟨address, slot⟩
  simp only [Readings.emptied, Set.mem_ofPred_eq, Set.mem_empty_iff_false, iff_false]
  rintro ⟨empty, original, held, different⟩
  rw [unwritten address slot, held] at empty
  exact different (Except.ok.inj empty)

theorem mem_emptied_iff {address : Address} {slot current original : Word}
    (now : readings.slot address slot = .ok current)
    (before : readings.original address slot = .ok original) :
    (address, slot) ∈ readings.emptied ↔ original ≠ 0 ∧ current = 0 := by
  simp only [emptied, Set.mem_ofPred_eq, now, before, Except.ok.injEq]
  constructor
  · rintro ⟨empty, _, rfl, different⟩
    exact ⟨different, empty⟩
  · rintro ⟨different, empty⟩
    exact ⟨empty, original, rfl, different⟩

/-- A cleared account held nothing, as far as the transaction goes on. -/
theorem emptied_clearStorage_subset (readings : Readings) (address : Address) :
    (readings.clearStorage address).emptied ⊆ readings.emptied := by
  rintro ⟨other, slot⟩ ⟨empty, original, held, different⟩
  simp only [Readings.original, clearStorage, Std.ExtTreeSet.contains_insert, Bool.or_eq_true,
    beq_iff_eq, Std.compare_eq_iff_eq] at empty held
  by_cases here : address = other
  · rw [if_pos (.inl here)] at held
    exact absurd (Except.ok.inj held).symm different
  · rw [if_neg here] at empty
    have same : readings.original other slot = .ok original := by
      simpa only [Readings.original, here, false_or] using held
    exact ⟨empty, original, same, different⟩

/-- Writing one slot empties it or not, and leaves the others. -/
theorem ncard_emptied_setStorage {address : Address} {slot current original : Word}
    (now : readings.slot address slot = .ok current)
    (before : readings.original address slot = .ok original) (value : Word) :
    (readings.setStorage address slot value).emptied.ncard +
        (if original ≠ 0 ∧ current = 0 then 1 else 0) =
      readings.emptied.ncard + if original ≠ 0 ∧ value = 0 then 1 else 0 := by
  have split (slots : Set SlotId) [Decidable ((address, slot) ∈ slots)] :
      (slots \ {(address, slot)}).ncard + (if (address, slot) ∈ slots then 1 else 0) =
        slots.ncard := by
    split
    case isTrue member => exact Set.ncard_sdiff_singleton_add_one member
    case isFalse absent => rw [Set.sdiff_singleton_eq_self absent, Nat.add_zero]
  have others : (readings.setStorage address slot value).emptied \ {(address, slot)} =
      readings.emptied \ {(address, slot)} := by
    ext ⟨other, otherSlot⟩
    simp only [Set.mem_sdiff, Set.mem_singleton_iff, Prod.mk.injEq, and_congr_left_iff]
    intro elsewhere
    have kept : (readings.setStorage address slot value).slot other otherSlot =
        readings.slot other otherSlot :=
      if_neg fun same => elsewhere ⟨same.1.symm, same.2.symm⟩
    simp only [emptied, Set.mem_ofPred_eq, kept]
    rfl
  have written : (readings.setStorage address slot value).slot address slot = .ok value :=
    if_pos ⟨rfl, rfl⟩
  have held : (readings.setStorage address slot value).original address slot = .ok original :=
    before
  classical
  have after := split (readings.setStorage address slot value).emptied
  have earlier := split readings.emptied
  simp only [mem_emptied_iff written held, others] at after
  simp only [mem_emptied_iff now before] at earlier
  omega

end Readings

/-! ## Operations -/

namespace Journaled

open JournaledWorld

variable {world after : JournaledWorld}

theorem storageAlike_modifyAccount {address : Address}
    {change : Account → Except StateError Account}
    (ran : modifyAccount address change world = .ok () after) :
    world.readings.StorageAlike after.readings := by
  obtain ⟨_, changed, _, _, readings⟩ := modifyAccount_ok ran
  rw [readings]
  exact world.readings.storageAlike_writeAccount address (some changed)

theorem storageAlike_transfer {sender recipient : Address} {value : Word}
    (ran : transfer sender recipient value world = .ok () after) :
    world.readings.StorageAlike after.readings := by
  unfold transfer at ran
  split at ran
  · rw [(follows_touch recipient).modify_eq_ok ran]
    exact ⟨rfl, rfl⟩
  · obtain ⟨_, between, debited, credited⟩ := bind_eq_ok ran
    exact (storageAlike_modifyAccount debited).trans (storageAlike_modifyAccount credited)

theorem emptied_createContract_subset {address : Address}
    (ran : createContract address world = .ok () after) :
    after.readings.emptied ⊆ world.readings.emptied := by
  obtain ⟨_, _, readings⟩ := createContract_eq_ok ran
  rw [readings, (Readings.storageAlike_writeAccount _ address _).emptied]
  exact world.readings.emptied_clearStorage_subset address

end Journaled

end ExecutionLayer
