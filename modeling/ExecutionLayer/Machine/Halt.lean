import ExecutionLayer.Hex

/-!
# Exceptional halts

The reasons for which a frame loses its remaining gas and everything it did.
-/

set_option autoImplicit false

namespace ExecutionLayer

/-- Why a frame halted exceptionally. -/
inductive Halt where
  | insufficientGas
  | insufficientStackItems
  | tooManyStackItems
  | invalidOperation (opcode : UInt8)
  | invalidJumpDestination
  | illegalStateChange
  | invalidReturnDataBufferAccess
  | codeTooLarge
  | initCodeTooLarge
  /-- The deployed code starts with the reserved byte. -/
  | invalidCode
  | contractCollision
  | precompileFailed
deriving DecidableEq, Repr, Inhabited

def Halt.message : Halt → String
  | .insufficientGas => "insufficient gas"
  | .insufficientStackItems => "insufficient stack items"
  | .tooManyStackItems => "too many stack items"
  | .invalidOperation opcode => "invalid operation: " ++ Hex.ofBytes [opcode]
  | .invalidJumpDestination => "invalid jump destination"
  | .illegalStateChange => "illegal state change in static context"
  | .invalidReturnDataBufferAccess => "invalid return data buffer access"
  | .codeTooLarge => "code too large"
  | .initCodeTooLarge => "init code too large"
  | .invalidCode => "invalid code: starts with 0xEF"
  | .contractCollision => "contract address collision"
  | .precompileFailed => "precompile failed"

end ExecutionLayer
