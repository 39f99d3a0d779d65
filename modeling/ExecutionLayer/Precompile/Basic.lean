import ExecutionLayer.Address
import ExecutionLayer.Gas

/-!
# Native contracts

What every native contract takes and gives, and how it fails.
-/

set_option autoImplicit false

namespace ExecutionLayer

inductive PrecompileError where
  | outOfGas
  | invalidInput (reason : String)
deriving DecidableEq, Repr

def PrecompileError.message : PrecompileError → String
  | .outOfGas => "precompile out of gas"
  | .invalidInput reason => "invalid precompile input: " ++ reason

structure PrecompileOutput where
  gasUsed : UInt64
  output : Bytes
deriving DecidableEq, Repr

/-- A native contract: from input and gas limit to an output. -/
abbrev Precompile := Bytes → UInt64 → Except PrecompileError PrecompileOutput

namespace Precompile

def requireGas (price limit : UInt64) : Except PrecompileError Unit :=
  if price ≤ limit then .ok () else .error .outOfGas

def linearCost (length : Nat) (base perWord : UInt64) : UInt64 :=
  base + perWord * Gas.wordCount length

/-- A contract that gives a function of its whole input at a linear price. -/
def ofDigest (base perWord : UInt64) (digest : Bytes → Bytes) : Precompile :=
  fun input limit => do
    let price := linearCost input.length base perWord
    requireGas price limit
    return ⟨price, digest input⟩

end Precompile

end ExecutionLayer
