import ExecutionLayer.Instruction.Basic
import ExecutionLayer.Machine.Frame

/-!
# Accesses

The account or the storage slot that an instruction touches, and whether it is warm for the
frame. Code pays more for what is cold.
-/

set_option autoImplicit false

namespace ExecutionLayer

/-- What an instruction touches outside of its frame. -/
inductive Access where
  | account (address : Address)
  | slot (id : SlotId)
deriving DecidableEq

/-- The price of a first access. -/
def Access.coldPrice : Access → UInt64
  | .account _ => Gas.coldAccount
  | .slot _ => Gas.coldSlot

namespace Frame

/-- The warm sets have what is accessed. -/
def IsWarm (frame : Frame) : Access → Prop
  | .account address => address ∈ frame.warmAddresses
  | .slot id => id ∈ frame.warmSlots

/-- What warming would tell. -/
def isCold (frame : Frame) : Access → Bool
  | .account address => (frame.warmAddress address).1
  | .slot id => (frame.warmSlot id.1 id.2).1

/-- Whatever was warm is. -/
def Warms (before after : Frame) : Prop :=
  ∀ access, before.IsWarm access → after.IsWarm access

theorem Warms.trans {before middle after : Frame} (first : before.Warms middle)
    (second : middle.Warms after) : before.Warms after :=
  fun access warm => second access (first access warm)

theorem warms_warmAddress (frame : Frame) (address : Address) :
    frame.Warms (frame.warmAddress address).2 := by
  intro access warm
  cases access with
  | account other => exact Std.ExtTreeSet.mem_insert.mpr (.inr warm)
  | slot _ => exact warm

theorem warms_warmSlot (frame : Frame) (address : Address) (slot : Word) :
    frame.Warms (frame.warmSlot address slot).2 := by
  intro access warm
  cases access with
  | account _ => exact warm
  | slot id => exact Std.ExtTreeSet.mem_insert.mpr (.inr warm)

theorem warms_addRefund (frame : Frame) (amount : Int) : frame.Warms (frame.addRefund amount) := by
  unfold addRefund
  split <;> exact fun _ => id

theorem warms_addLog (frame : Frame) (log : Log) : frame.Warms (frame.addLog log) := by
  unfold addLog
  split <;> exact fun _ => id

theorem warms_addSelfDestruct (frame : Frame) (address : Address) :
    frame.Warms (frame.addSelfDestruct address) := by
  unfold addSelfDestruct
  split <;> exact fun _ => id

end Frame

end ExecutionLayer
