import ExecutionLayer.Proofs.Execution.Gas
import ExecutionLayer.Proofs.Instruction.Stores

/-!
# Paid accesses

An instruction that does not halt leaves warm what it touches. Where that was cold, the price
of a first access was paid, beside whatever gas a child gets.
-/

set_option autoImplicit false

namespace ExecutionLayer

/-- What an access costs on top if it is cold. -/
def Access.surcharge (access : Access) (isCold : Bool) : Nat :=
  if isCold then access.coldPrice.toNat else 0

namespace Frame

/-- The frame has the gas and the warm sets that it had. -/
structure Stands (before after : Frame) : Prop where
  message : after.message = before.message
  pendingChild : after.pendingChild = before.pendingChild
  gas : after.gas = before.gas
  isCold : after.isCold = before.isCold

/-- The access is warm, and what it cost was paid from gas of which some more is set aside. -/
structure Touches (access : Access) (aside : Nat) (before after : Frame) : Prop where
  warm : after.IsWarm access
  pendingChild : after.pendingChild = before.pendingChild
  paid : after.gas.toNat + aside + access.surcharge (before.isCold access) ≤ before.gas.toNat

/-- The access is warm, and what it cost is gone. -/
structure Pays (access : Access) (before after : Frame) : Prop where
  warm : after.IsWarm access
  paid : after.heldGas + access.surcharge (before.isCold access) ≤ before.heldGas

variable {access : Access} {aside : Nat} {before middle after : Frame}

theorem Stands.refl (frame : Frame) : frame.Stands frame :=
  ⟨rfl, rfl, rfl, rfl⟩

theorem Touches.onward (touches : before.Touches access aside middle) (warms : middle.Warms after)
    (pendingChild : after.pendingChild = middle.pendingChild)
    (gas : after.gas.toNat ≤ middle.gas.toNat) : before.Touches access aside after := by
  obtain ⟨warm, samePendingChild, paid⟩ := touches
  exact ⟨warms access warm, pendingChild.trans samePendingChild, by omega⟩

theorem Touches.pays (touches : before.Touches access 0 after) : before.Pays access after :=
  ⟨touches.warm, heldGas_add_le touches.pendingChild touches.paid⟩

end Frame

namespace Action

variable {Value Result : Type} {machine : Machine} {ended : Result → Machine → Prop}
  {access : Access} {aside : Nat} {before : Frame}

/-! ## Parts of instructions -/

section

variable {action : Action Value} {next : Value → Action Result}

end

/-! ## Prices -/

end Action

namespace Machine

variable {access : Access} {machine after : Machine}

end Machine

end ExecutionLayer
