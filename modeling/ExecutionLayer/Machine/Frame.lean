import ExecutionLayer.Account
import ExecutionLayer.Machine.Memory
import ExecutionLayer.Machine.Stack
import ExecutionLayer.World.Journal

/-!
# Message frames

One level of a call: the message that asked for it, the machine state of its
code, and what it leaves behind for its parent if it succeeds.
-/

set_option autoImplicit false

namespace ExecutionLayer

/-- What a message asks for: running an account's code, or running init code and
deploying its output. -/
inductive Message.Kind where
  | messageCall
  | contractCreation
deriving DecidableEq, Repr, Inhabited

structure Message where
  kind : Message.Kind := .messageCall
  /-- The number of frames above, zero for the root of a transaction. -/
  depth : Nat := 0
  sender : Address := 0
  /-- The account whose storage and balance the code acts on. -/
  recipient : Address := 0
  /-- The account the code comes from. -/
  contract : Address := 0
  /-- The amount moved from sender to recipient at the start. -/
  value : Word := 0
  /-- The amount the code is told. -/
  apparentValue : Word := 0
  input : Bytes := []
  code : Code := Code.empty
  gas : UInt64 := 0
  isStatic : Bool := false
deriving DecidableEq, Inhabited

/-- The life of a frame: code runs until it succeeds, reverts or halts exceptionally,
with pauses while a child runs; then the outcome is committed or rolled back. -/
inductive Frame.Status where
  | notStarted
  | codeExecuting
  | codeSuccess
  | codeSuspended
  | completedSuccess
  | completedFailed
  | revert
  | exceptionalHalt
deriving DecidableEq, Repr, Inhabited

namespace Frame.Status

def isCompleted : Frame.Status → Bool
  | .completedSuccess | .completedFailed => true
  | _ => false

def isFailed : Frame.Status → Bool
  | .revert | .exceptionalHalt | .completedFailed => true
  | _ => false

/-- True before the code ended: effects are still recorded. -/
def isRecording : Frame.Status → Bool
  | .notStarted | .codeExecuting | .codeSuspended => true
  | _ => false

end Frame.Status

structure Frame where
  message : Message
  status : Frame.Status := .notStarted
  pc : Nat := 0
  stack : Stack := .empty
  memory : Memory := .empty
  output : Bytes := []
  /-- The output of the child that completed last. -/
  returnData : Bytes := []
  gas : UInt64
  /-- The refund counter, which may be negative within a transaction. -/
  refund : Int := 0
  logs : List Log := []
  /-- Accounts to delete at the end of the transaction. -/
  selfDestructs : Std.ExtTreeSet Address := ∅
  warmAddresses : Std.ExtTreeSet Address := ∅
  warmSlots : Std.ExtTreeSet SlotId := ∅
  haltReason : Option Halt := none
  /-- The message of the child to run next while suspended. -/
  pendingChild : Option Message := none
  checkpoint : Option Checkpoint := none

namespace Frame

def ofMessage (message : Message) (warmAddresses : Std.ExtTreeSet Address)
    (warmSlots : Std.ExtTreeSet SlotId) : Frame :=
  { message, gas := message.gas, warmAddresses, warmSlots }

instance : Inhabited Frame := ⟨ofMessage {} ∅ ∅⟩

def currentOpcode (frame : Frame) : UInt8 :=
  frame.message.code.opcodeAt frame.pc

/-! ## Gas and memory -/

/-- Pays an amount, or takes nothing if less is left. -/
def useGas (frame : Frame) (amount : UInt64) : Except Halt Frame :=
  if amount ≤ frame.gas then .ok { frame with gas := frame.gas - amount }
  else .error .insufficientGas

/-- Gets gas back, up to the greatest 64-bit amount. -/
def returnGas (frame : Frame) (amount : UInt64) : Frame :=
  { frame with gas := UInt64.ofNat (min (frame.gas.toNat + amount.toNat) (UInt64.size - 1)) }

/-- Pays for making a window addressable, then grows the memory. -/
def chargeMemory (frame : Frame) (range : MemoryRange) : Except Halt Frame := do
  let frame ← frame.useGas (frame.memory.expansionCost range)
  return { frame with memory := frame.memory.expand range }

/-! ## Stack -/

def push (frame : Frame) (word : Word) : Except Halt Frame := do
  return { frame with stack := ← frame.stack.push word }

def pop (frame : Frame) : Except Halt (Word × Frame) := do
  let (word, stack) ← frame.stack.pop
  return (word, { frame with stack })

/-! ## Recorded effects -/

def addLog (frame : Frame) (log : Log) : Frame :=
  if frame.status.isRecording then { frame with logs := frame.logs ++ [log] } else frame

def addRefund (frame : Frame) (amount : Int) : Frame :=
  if frame.status.isRecording then
    { frame with refund := Gas.saturateRefund (frame.refund + amount) }
  else frame

def addSelfDestruct (frame : Frame) (address : Address) : Frame :=
  if frame.status.isRecording then
    { frame with selfDestructs := frame.selfDestructs.insert address }
  else frame

/-- Warms an account, and tells whether it was cold. -/
def warmAddress (frame : Frame) (address : Address) : Bool × Frame :=
  (!frame.warmAddresses.contains address,
    { frame with warmAddresses := frame.warmAddresses.insert address })

def warmSlot (frame : Frame) (address : Address) (slot : Word) : Bool × Frame :=
  (!frame.warmSlots.contains (address, slot),
    { frame with warmSlots := frame.warmSlots.insert (address, slot) })

/-- Takes over all that a successful child recorded. The child began with what was
warm here, so its warm sets replace the ones here. -/
def absorb (frame child : Frame) : Frame :=
  let frame :=
    { frame with
      logs := frame.logs ++ child.logs
      selfDestructs := frame.selfDestructs.insertMany child.selfDestructs.toList }
  let frame := frame.addRefund child.refund
  { frame with warmAddresses := child.warmAddresses, warmSlots := child.warmSlots }

/-! ## Ends of code -/

def succeed (frame : Frame) (output : Bytes) : Frame :=
  { frame with output, status := .codeSuccess }

def dropEffects (frame : Frame) : Frame :=
  { frame with logs := [], selfDestructs := ∅, refund := 0 }

/-- Ends the code with its effects dropped; output and gas stay. -/
def revert (frame : Frame) (output : Bytes) : Frame :=
  { frame.dropEffects with output, status := .revert }

/-- Ends the code with effects, output and all gas lost. -/
def halt (frame : Frame) (reason : Halt) : Frame :=
  { frame.dropEffects with
    gas := 0
    output := []
    haltReason := some reason
    status := .exceptionalHalt }

def suspend (frame : Frame) (child : Message) : Frame :=
  { frame with pendingChild := some child, status := .codeSuspended }

end Frame

end ExecutionLayer
