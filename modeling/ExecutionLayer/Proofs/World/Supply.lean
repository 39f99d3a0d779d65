import ExecutionLayer.Proofs.World.Refinement
import Mathlib.Algebra.BigOperators.Group.Finset.Basic
import Mathlib.Algebra.Order.BigOperators.Group.Finset
import Mathlib.Algebra.GroupWithZero.Nat
import Mathlib.Data.FinEnum

/-!
# What all accounts hold

The sum of all balances that a world reads, and what each operation does to it. Over a
view that never fails, the only fault of moving value is that a balance overflows, and
no balance does while all accounts together hold less than a word can.
-/

set_option autoImplicit false

namespace ExecutionLayer

/-- The balance that an account reads with, zero where there is none. -/
def heldBy : Except StateError (Option Account) → Word
  | .ok account => (account.getD {}).balance
  | .error _ => 0

/-- What all accounts of a view hold together. -/
def WorldView.supply (view : WorldView) : Nat :=
  ∑ address : Address, (heldBy (view.account address)).toNat

/-- No read of the view fails. -/
structure WorldView.FaultFree (view : WorldView) : Prop where
  account : ∀ address, ∃ found, view.account address = .ok found
  storage : ∀ address slot, ∃ value, view.storage address slot = .ok value

namespace Readings

def balance (readings : Readings) (address : Address) : Word :=
  heldBy (readings.account address)

/-- What all accounts hold together. -/
def supply (readings : Readings) : Nat :=
  ∑ address : Address, (readings.balance address).toNat

/-- Reads never fail, and an account that was not written reads as in the base. -/
structure Lawful (readings : Readings) : Prop where
  base : readings.base.FaultFree
  account : ∀ address, readings.account address =
    match readings.writtenAccount address with
    | some account => .ok account
    | none => readings.base.account address
  slot : ∀ address slot, ∃ value, readings.slot address slot = .ok value

theorem supply_ofView (view : WorldView) : (ofView view).supply = view.supply := rfl

theorem balance_le_supply (readings : Readings) (address : Address) :
    (readings.balance address).toNat ≤ readings.supply := by
  unfold supply
  exact Finset.single_le_sum (f := fun other => (readings.balance other).toNat)
    (fun _ _ => Nat.zero_le _) (Finset.mem_univ address)

@[simp] theorem supply_touch (readings : Readings) (address : Address) :
    (readings.touch address).supply = readings.supply := rfl

@[simp] theorem supply_clearStorage (readings : Readings) (address : Address) :
    (readings.clearStorage address).supply = readings.supply := rfl

@[simp] theorem supply_setStorage (readings : Readings) (address : Address) (slot value : Word) :
    (readings.setStorage address slot value).supply = readings.supply := rfl

theorem balance_writeAccount (readings : Readings) (address other : Address)
    (account : Option Account) :
    (readings.writeAccount address account).balance other =
      if address = other then (account.getD {}).balance else readings.balance other := by
  simp only [balance, writeAccount]
  split <;> rfl

/-- Replacing an account moves the supply by the difference of the two balances. -/
theorem supply_writeAccount (readings : Readings) (address : Address)
    (account : Option Account) :
    (readings.writeAccount address account).supply + (readings.balance address).toNat =
      readings.supply + (account.getD {}).balance.toNat := by
  have others : ∑ other ∈ Finset.univ.erase address,
        ((readings.writeAccount address account).balance other).toNat =
      ∑ other ∈ Finset.univ.erase address, (readings.balance other).toNat := by
    apply Finset.sum_congr rfl
    intro other member
    rw [balance_writeAccount, if_neg (Finset.ne_of_mem_erase member).symm]
  have here : (readings.writeAccount address account).balance address =
      (account.getD {}).balance := by
    rw [balance_writeAccount, if_pos rfl]
  rw [supply, supply, ← Finset.add_sum_erase _ _ (Finset.mem_univ address), others, here,
    ← Finset.add_sum_erase Finset.univ (fun other => (readings.balance other).toNat)
      (Finset.mem_univ address)]
  omega

/-- What some accounts hold together. -/
def holdings (readings : Readings) (addresses : List Address) : Nat :=
  (addresses.map fun address => (readings.balance address).toNat).sum

theorem balance_deleteAccount (readings : Readings) (address other : Address) :
    (readings.deleteAccount address).balance other =
      if address = other then 0 else readings.balance other := by
  unfold deleteAccount
  rw [balance_writeAccount]
  rfl

/-- A deleted account takes along what it holds. -/
theorem supply_deleteAccount (readings : Readings) (address : Address) :
    (readings.deleteAccount address).supply + (readings.balance address).toNat =
      readings.supply := by
  have moved := (readings.clearStorage address).supply_writeAccount address none
  have nothing : ((none : Option Account).getD {}).balance.toNat = 0 := rfl
  rw [nothing, supply_clearStorage, Nat.add_zero] at moved
  exact moved

theorem holdings_deleteAccount {address : Address} {addresses : List Address}
    (absent : address ∉ addresses) (readings : Readings) :
    (readings.deleteAccount address).holdings addresses = readings.holdings addresses := by
  unfold holdings
  congr 1
  apply List.map_congr_left
  intro other member
  have different : address ≠ other := fun same => absent (same ▸ member)
  rw [balance_deleteAccount, if_neg different]

theorem supply_foldl_deleteAccount {addresses : List Address} (distinct : addresses.Nodup)
    (readings : Readings) :
    (addresses.foldl deleteAccount readings).supply + readings.holdings addresses =
      readings.supply := by
  induction addresses generalizing readings with
  | nil => exact Nat.add_zero _
  | cons address rest ih =>
      obtain ⟨absent, distinctRest⟩ := List.nodup_cons.mp distinct
      have deleted := readings.supply_deleteAccount address
      have others := ih distinctRest (readings.deleteAccount address)
      rw [holdings_deleteAccount absent] at others
      have held : readings.holdings (address :: rest) =
          (readings.balance address).toNat + readings.holdings rest := List.sum_cons
      rw [List.foldl_cons]
      omega

namespace Lawful

variable {readings : Readings}

theorem ofView {view : WorldView} (faultFree : view.FaultFree) : Lawful (.ofView view) :=
  ⟨faultFree, fun _ => rfl, faultFree.storage⟩

theorem exists_account (lawful : Lawful readings) (address : Address) :
    ∃ found, readings.account address = .ok found := by
  rw [lawful.account address]
  cases readings.writtenAccount address with
  | some account => exact ⟨account, rfl⟩
  | none => exact lawful.base.account address

theorem exists_original (lawful : Lawful readings) (address : Address) (slot : Word) :
    ∃ value, readings.original address slot = .ok value := by
  unfold original
  split
  · exact ⟨0, rfl⟩
  · exact lawful.base.storage address slot

theorem touch (lawful : Lawful readings) (address : Address) :
    Lawful (readings.touch address) :=
  ⟨lawful.base, lawful.account, lawful.slot⟩

theorem writeAccount (lawful : Lawful readings) (address : Address)
    (account : Option Account) : Lawful (readings.writeAccount address account) := by
  refine ⟨lawful.base, ?_, lawful.slot⟩
  intro other
  by_cases here : address = other
  · simp only [Readings.writeAccount, if_pos here]
  · simp only [Readings.writeAccount, if_neg here]
    exact lawful.account other

theorem clearStorage (lawful : Lawful readings) (address : Address) :
    Lawful (readings.clearStorage address) := by
  refine ⟨lawful.base, lawful.account, ?_⟩
  intro other slot
  by_cases here : address = other
  · simp only [Readings.clearStorage, if_pos here]
    exact ⟨0, rfl⟩
  · simp only [Readings.clearStorage, if_neg here]
    exact lawful.slot other slot

theorem deleteAccount (lawful : Lawful readings) (address : Address) :
    Lawful (readings.deleteAccount address) :=
  (lawful.clearStorage address).writeAccount address none

theorem foldl_deleteAccount (lawful : Lawful readings) (addresses : List Address) :
    Lawful (addresses.foldl Readings.deleteAccount readings) := by
  induction addresses generalizing readings with
  | nil => exact lawful
  | cons address rest ih => exact ih (lawful.deleteAccount address)

theorem setStorage (lawful : Lawful readings) (address : Address) (slot value : Word) :
    Lawful (readings.setStorage address slot value) := by
  refine ⟨lawful.base, lawful.account, ?_⟩
  intro other otherSlot
  by_cases here : address = other ∧ slot = otherSlot
  · simp only [Readings.setStorage, if_pos here]
    exact ⟨value, rfl⟩
  · simp only [Readings.setStorage, if_neg here]
    exact lawful.slot other otherSlot

end Lawful

end Readings

end ExecutionLayer
