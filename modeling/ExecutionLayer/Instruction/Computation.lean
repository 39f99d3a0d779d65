import ExecutionLayer.Instruction.Action
import ExecutionLayer.Instruction.Basic

/-!
# Computation on the stack and in memory

Arithmetic, comparison, bit operations, hashing, pushes, copies of stack words,
and loads and stores in memory.
-/

set_option autoImplicit false

namespace ExecutionLayer

def UnaryOp.apply : UnaryOp → Word → Word
  | .isZero, a => .ofBool (a == 0)
  | .not, a => ~~~a

/-- The value of an operation on two words, the top word first. -/
def BinaryOp.apply : BinaryOp → Word → Word → Word
  | .add, a, b => a + b
  | .mul, a, b => a * b
  | .sub, a, b => a - b
  | .div, a, b => Word.div a b
  | .sdiv, a, b => Word.signedDiv a b
  | .mod, a, b => Word.mod a b
  | .smod, a, b => Word.signedMod a b
  | .signExtend, a, b => Word.signExtend a b
  | .lt, a, b => .ofBool (a < b)
  | .gt, a, b => .ofBool (b < a)
  | .slt, a, b => .ofBool (Word.signedCompare a b == .lt)
  | .sgt, a, b => .ofBool (Word.signedCompare a b == .gt)
  | .eq, a, b => .ofBool (a == b)
  | .and, a, b => a &&& b
  | .or, a, b => a ||| b
  | .xor, a, b => a ^^^ b
  | .byte, a, b => Word.byteAt a b
  | .shl, a, b => Word.shiftLeft a b
  | .shr, a, b => Word.shiftRight a b
  | .sar, a, b => Word.shiftRightSigned a b

def BinaryOp.cost : BinaryOp → UInt64
  | .mul | .div | .sdiv | .mod | .smod | .signExtend => Gas.low
  | _ => Gas.veryLow

def TernaryOp.apply : TernaryOp → Word → Word → Word → Word
  | .addMod, a, b, modulus => Word.addMod a b modulus
  | .mulMod, a, b, modulus => Word.mulMod a b modulus

namespace Action

def unary (op : UnaryOp) : Action Unit := do
  useGas Gas.veryLow
  push (op.apply (← pop))

def binary (op : BinaryOp) : Action Unit := do
  useGas op.cost
  let a ← pop
  let b ← pop
  push (op.apply a b)

def ternary (op : TernaryOp) : Action Unit := do
  useGas Gas.mid
  let a ← pop
  let b ← pop
  let c ← pop
  push (op.apply a b c)

def exp : Action Unit := do
  let base ← pop
  let exponent ← pop
  useGas (Gas.expCost exponent)
  push (Word.exp base exponent)

def keccak : Action Unit := do
  let offset ← pop
  let length ← pop
  let range ← rangeOf offset length
  useGas (Gas.keccakCost range.length)
  chargeMemory range
  push (keccak256 (← readMemory range))

/-- Pushes the immediate bytes behind the opcode; past the end of code they are zeros. -/
def pushImmediate (size : Fin 33) : Action Unit := do
  useGas (if size.val = 0 then Gas.base else Gas.veryLow)
  let frame ← frame
  push (Word.ofBytes (frame.message.code.window (frame.pc + 1) size))

def dup (depth : Fin 16) : Action Unit := do
  useGas Gas.veryLow
  tryFrame fun frame => do return { frame with stack := ← frame.stack.dup depth }

def swap (depth : Fin 16) : Action Unit := do
  useGas Gas.veryLow
  tryFrame fun frame => do return { frame with stack := ← frame.stack.swap (depth + 1) }

def discardTop : Action Unit := do
  useGas Gas.base
  let _ ← pop

def mload : Action Unit := do
  let range ← ofExcept (MemoryRange.sized (← pop) 32)
  useGas Gas.veryLow
  chargeMemory range
  push ((← frame).memory.readWord range.offset)

def mstore : Action Unit := do
  let offset ← pop
  let word ← pop
  let range ← ofExcept (MemoryRange.sized offset 32)
  useGas Gas.veryLow
  chargeMemory range
  writeMemory range.offset word.toBytes

def mstore8 : Action Unit := do
  let offset ← pop
  let word ← pop
  let range ← ofExcept (MemoryRange.sized offset 1)
  useGas Gas.veryLow
  chargeMemory range
  writeMemory range.offset [UInt8.ofNat word.toNat]

end Action

end ExecutionLayer
