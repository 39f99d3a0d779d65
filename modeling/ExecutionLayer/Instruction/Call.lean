import ExecutionLayer.Instruction.Action
import ExecutionLayer.Instruction.Basic

/-!
# Calls and creations

Instructions that ask for a child frame: they pay, set gas aside and suspend the
frame with the child's message. A completed child is taken back here too.
-/

set_option autoImplicit false

namespace ExecutionLayer

def Message.maxDepth : Nat := 1024

def CallKind.memoryRanges (kind : CallKind) (stack : Stack) :
    Except Halt (MemoryRange × MemoryRange) := do
  let first := kind.memoryOperandsAt
  let input ← MemoryRange.ofWords (← stack.peek first) (← stack.peek (first + 1))
  let output ← MemoryRange.ofWords (← stack.peek (first + 2)) (← stack.peek (first + 3))
  return (input, output)

def CreateKind.cost (kind : CreateKind) (schedule : GasSchedule) (length : Nat) : UInt64 :=
  let hashing :=
    match kind with
    | .create => 0
    | .create2 => Gas.keccakWord * Gas.wordCount length
  Gas.create + hashing + schedule.initCodeCost length

namespace Action

/-- Gives up on a child: the operands go, a zero word takes their place. -/
def abandon (operands : Nat) : Action Unit := do
  modifyFrame fun frame => { frame with returnData := [] }
  dropWords operands
  push 0

def holdsLess (address : Address) (amount : Word) : Action Bool := do
  return (← onWorld (Journaled.balance address)) < amount

/-- Pays for a call and suspends the frame with its message. A call that is too deep or
moves more than the caller has is given up and its gas comes back. -/
def call (kind : CallKind) : Action Unit := do
  let requestedGas ← peek 0
  let target := Address.ofWord (← peek 1)
  let value ← if kind.hasValueOperand then peek 2 else pure 0
  let (inputRange, outputRange) ← ofExcept (kind.memoryRanges (← frame).stack)
  if kind = .call ∧ (← frame).message.isStatic ∧ value ≠ 0 then halt .illegalStateChange
  let isCold ← warmAddress target
  let createsAccount ←
    if kind = .call ∧ value ≠ 0 then onWorld (Journaled.isEmptyOrAbsent target) else pure false
  useGas (Gas.callCost isCold (value ≠ 0) createsAccount)
  chargeMemory (inputRange.furthest outputRange)
  let forwarded := Gas.forwarded (← frame).gas requestedGas
  useGas forwarded
  let gas := forwarded + if value = 0 then 0 else Gas.callStipend
  let caller := (← frame).message
  let isUnderfunded ←
    if kind.hasValueOperand then holdsLess caller.recipient value else pure false
  if caller.depth + 1 > Message.maxDepth ∨ isUnderfunded then
    modifyFrame (·.returnGas gas)
    abandon kind.operandCount
  else
    let input ← readMemory inputRange
    let code ← onWorld (Journaled.code target)
    let child : Message :=
      { kind := .messageCall
        depth := caller.depth + 1
        sender := if kind = .delegateCall then caller.sender else caller.recipient
        recipient := if kind = .call ∨ kind = .staticCall then target else caller.recipient
        contract := target
        value := value
        apparentValue := if kind = .delegateCall then caller.apparentValue else value
        input, code, gas
        isStatic := caller.isStatic || kind = .staticCall }
    modifyFrame (·.suspend child)

/-- Pays for a creation and suspends the frame with its message. A creation that is too
deep, moves more than the creator has, or exhausts the creator's nonce is given up. -/
def create (schedule : GasSchedule) (kind : CreateKind) : Action Unit := do
  requireWritable
  let value ← peek 0
  let range ← rangeOf (← peek 1) (← peek 2)
  let salt ← if kind = .create2 then peek 3 else pure 0
  if schedule.maxInitCodeSize.any (range.length > ·) then halt .initCodeTooLarge
  useGas (kind.cost schedule range.length)
  chargeMemory range
  let creator := (← frame).message
  let nonce ← onWorld (Journaled.nonce creator.recipient)
  let isPossible ←
    if creator.depth + 1 > Message.maxDepth then pure false
    else if ← holdsLess creator.recipient value then pure false
    else pure (decide (nonce.toNat + 1 < UInt64.size))
  if !isPossible then abandon kind.operandCount
  else
    let initCode ← readMemory range
    let address :=
      match kind with
      | .create => Address.created creator.recipient nonce
      | .create2 => Address.createdWithSalt creator.recipient salt initCode
    onWorld (Journaled.incrementNonce creator.recipient)
    let _ ← warmAddress address
    let gas := Gas.allButOne64th (← frame).gas
    useGas gas
    let child : Message :=
      { kind := .contractCreation
        depth := creator.depth + 1
        sender := creator.recipient
        recipient := address
        contract := address
        value := value
        apparentValue := value
        code := Code.ofBytes initCode
        gas }
    modifyFrame (·.suspend child)

end Action

namespace Frame

/-- Goes on after a call: the child's output goes to memory as far as the call made
room for it, and the top word tells whether the child succeeded. -/
def resumeCall (frame : Frame) (kind : CallKind) (child : Frame) : Except Halt Frame := do
  let (_, outputRange) ← kind.memoryRanges frame.stack
  let stack ← frame.stack.drop kind.operandCount
  let memory := frame.memory.write outputRange.offset (child.output.take outputRange.length)
  let frame := { frame with stack, memory }.returnGas child.gas
  let succeeded := child.status == .completedSuccess
  let frame := if succeeded then frame.absorb child else frame
  let frame ← { frame with returnData := child.output }.push (.ofBool succeeded)
  return { frame with status := .codeExecuting, pc := frame.pc + 1 }

/-- Goes on after a creation: the top word is the new contract's address, or zero if
the child failed, and only a failed child's output stays readable. -/
def resumeCreate (frame : Frame) (kind : CreateKind) (child : Frame) : Except Halt Frame := do
  let stack ← frame.stack.drop kind.operandCount
  let frame := { frame with stack }.returnGas child.gas
  let succeeded := child.status == .completedSuccess
  let frame := if succeeded then frame.absorb child else frame
  let frame := { frame with returnData := if succeeded then [] else child.output }
  let frame ← frame.push (if succeeded then child.message.recipient.toWord else 0)
  return { frame with status := .codeExecuting, pc := frame.pc + 1 }

/-- Goes on with a completed child, by the instruction that asked for it. A frame that
is at no such instruction stays as it is. -/
def resumeBy (frame child : Frame) : Instruction → Except Halt Frame
  | .call kind => frame.resumeCall kind child
  | .create kind => frame.resumeCreate kind child
  | _ => .ok frame

def resume (schedule : GasSchedule) (frame child : Frame) : Frame :=
  let resumed : Except Halt Frame :=
    match Instruction.ofOpcode? schedule frame.currentOpcode with
    | some instruction => frame.resumeBy child instruction
    | none => .error (.invalidOperation frame.currentOpcode)
  match resumed with
  | .ok frame => frame
  | .error reason => frame.halt reason

end Frame

end ExecutionLayer
