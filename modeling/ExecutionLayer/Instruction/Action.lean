import ExecutionLayer.Machine.Frame

/-!
# Actions

What instructions are made of: operations on the running frame and the world
that end in a value, a halt of the frame, or a fault of the world. What was done
before a halt stays done.
-/

set_option autoImplicit false

namespace ExecutionLayer

/-- A running frame and the world it acts on. -/
structure Machine where
  frame : Frame
  world : JournaledWorld

/-- Why an action did not finish: the frame must halt, or the world failed. -/
inductive Fault where
  | halt (reason : Halt)
  | state (error : StateError)
deriving DecidableEq, Repr

abbrev Action := EStateM Fault Machine

namespace Action

def halt {Value : Type} (reason : Halt) : Action Value :=
  throw (.halt reason)

def ofExcept {Value : Type} : Except Halt Value → Action Value
  | .ok value => pure value
  | .error reason => halt reason

def frame : Action Frame := do
  return (← get).frame

def modifyFrame (change : Frame → Frame) : Action Unit :=
  modify fun machine => { machine with frame := change machine.frame }

/-- Changes the running frame where that is possible, and halts it where not. -/
def tryFrame (change : Frame → Except Halt Frame) : Action Unit := do
  let changed ← ofExcept (change (← frame))
  modifyFrame fun _ => changed

def onWorld {Value : Type} (operation : Journaled Value) : Action Value := fun machine =>
  match operation machine.world with
  | .ok value world => .ok value { machine with world }
  | .error error world => .error (.state error) { machine with world }

def useGas (amount : UInt64) : Action Unit :=
  tryFrame (·.useGas amount)

def chargeMemory (range : MemoryRange) : Action Unit :=
  tryFrame (·.chargeMemory range)

def push (word : Word) : Action Unit :=
  tryFrame (·.push word)

def pop : Action Word := do
  let (word, popped) ← ofExcept (← frame).pop
  modifyFrame fun _ => popped
  return word

def peek (depth : Nat) : Action Word := do
  ofExcept ((← frame).stack.peek depth)

def dropWords (count : Nat) : Action Unit :=
  tryFrame fun frame => do return { frame with stack := ← frame.stack.drop count }

/-- Warms an account, and tells whether it was cold. -/
def warmAddress (address : Address) : Action Bool := do
  let (isCold, warmed) := (← frame).warmAddress address
  modifyFrame fun _ => warmed
  return isCold

def warmSlot (address : Address) (slot : Word) : Action Bool := do
  let (isCold, warmed) := (← frame).warmSlot address slot
  modifyFrame fun _ => warmed
  return isCold

def rangeOf (offset length : Word) : Action MemoryRange :=
  ofExcept (MemoryRange.ofWords offset length)

def readMemory (range : MemoryRange) : Action Bytes := do
  return (← frame).memory.read range

def writeMemory (offset : Nat) (data : Bytes) : Action Unit :=
  modifyFrame fun frame => { frame with memory := frame.memory.write offset data }

/-- Halts frames that may only read. -/
def requireWritable : Action Unit := do
  if (← frame).message.isStatic then halt .illegalStateChange

end Action

end ExecutionLayer
