import ExecutionLayer.Instruction.Call
import ExecutionLayer.Instruction.Computation
import ExecutionLayer.Instruction.Control
import ExecutionLayer.Instruction.Environment
import ExecutionLayer.Instruction.Storage

/-!
# Single steps

One instruction of the running frame: the opcode at the program counter is
looked up, the stack is checked against the instruction's declared shape, and
the instruction runs.
-/

set_option autoImplicit false

namespace ExecutionLayer

namespace Instruction

/-- Runs an instruction and gives how far the program counter moves if the frame goes on. -/
def execute (schedule : GasSchedule) (context : Context) (instruction : Instruction) :
    Action Nat := do
  match instruction with
  | .jump => return ← Action.jump
  | .jumpIf => return ← Action.jumpIf
  | .stop => Action.stop
  | .unary op => Action.unary op
  | .binary op => Action.binary op
  | .ternary op => Action.ternary op
  | .exp => Action.exp
  | .keccak => Action.keccak
  | .query what => Action.query context what
  | .accountQuery what => Action.accountQuery what
  | .callDataLoad => Action.callDataLoad
  | .copy source => Action.copy source
  | .extCodeCopy => Action.extCodeCopy
  | .blockHash => Action.blockHash context
  | .pop => Action.discardTop
  | .mload => Action.mload
  | .mstore => Action.mstore
  | .mstore8 => Action.mstore8
  | .sload => Action.sload
  | .sstore => Action.sstore schedule.storeClearRefund
  | .jumpDest => Action.useGas Gas.jumpDest
  | .push size => Action.pushImmediate size
  | .dup depth => Action.dup depth
  | .swap depth => Action.swap depth
  | .log topics => Action.log topics
  | .create kind => Action.create schedule kind
  | .call kind => Action.call kind
  | .return => Action.returnOutput
  | .revert => Action.revertOutput
  | .invalid => Action.halt (.invalidOperation 0xFE)
  | .selfDestruct => Action.selfDestruct
  return instruction.size

def stackFault? (instruction : Instruction) (height : Nat) : Option Halt :=
  if height < instruction.consumed then some .insufficientStackItems
  else if height - instruction.consumed + instruction.produced > Stack.limit then
    some .tooManyStackItems
  else none

end Instruction

namespace Machine

def halt (machine : Machine) (reason : Halt) : Machine :=
  { machine with frame := machine.frame.halt reason }

/-- Moves the program counter of a frame that goes on. -/
def advance (machine : Machine) (count : Nat) : Machine :=
  if machine.frame.status = .codeExecuting then
    { machine with frame := { machine.frame with pc := machine.frame.pc + count } }
  else machine

/-- Runs the instruction at the program counter. Only faults of the world are errors:
whatever else goes wrong halts the frame. -/
def step (schedule : GasSchedule) (context : Context) (machine : Machine) :
    Except StateError Machine :=
  let opcode := machine.frame.currentOpcode
  match Instruction.ofOpcode? schedule opcode with
  | none => .ok (machine.halt (.invalidOperation opcode))
  | some instruction =>
      match instruction.stackFault? machine.frame.stack.height with
      | some reason => .ok (machine.halt reason)
      | none =>
          match instruction.execute schedule context machine with
          | .ok count machine => .ok (machine.advance count)
          | .error (.halt reason) machine => .ok (machine.halt reason)
          | .error (.state error) _ => .error error

end Machine

end ExecutionLayer
