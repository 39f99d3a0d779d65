import ExecutionLayer.Power
import ExecutionLayer.Precompile.Basic

/-!
# Modular exponentiation

Powers of numbers of any length, priced by the operands' lengths and the bits of
the exponent. Lengths and offsets have 64 bits and prices 128; what does not fit
counts as the greatest number that does.
-/

set_option autoImplicit false

namespace ExecutionLayer.Precompile.ModExp

/-! ## Saturating arithmetic -/

def saturatingAdd {width : Nat} (a b : BitVec width) : BitVec width :=
  if a.uaddOverflow b then .allOnes width else a + b

def saturatingMul {width : Nat} (a b : BitVec width) : BitVec width :=
  if a.umulOverflow b then .allOnes width else a * b

def larger {width : Nat} (a b : BitVec width) : BitVec width :=
  if b < a then a else b

/-- The same number with 64 bits, if it has that few. -/
def narrow? (value : BitVec 128) : Option UInt64 :=
  if value.toNat < UInt64.size then some (UInt64.ofNat value.toNat) else none

/-! ## Operands -/

def lengthAt (input : Bytes) (index : Nat) : UInt64 :=
  UInt64.ofNatClamp (Bytes.toNat (Bytes.window input (32 * index) 32))

/-- Where an operand ends that starts at an offset. -/
def endOf (start length : UInt64) : UInt64 :=
  ⟨saturatingAdd start.toBitVec length.toBitVec⟩

def operand (input : Bytes) (start length : UInt64) : Bytes :=
  Bytes.window input start.toNat length.toNat

/-! ## Prices -/

/-- The number of binary digits; zero has none. -/
def bitLength (value : Nat) : Nat :=
  if value = 0 then 0 else value.log2 + 1

/-- The number of squarings to pay for, given the exponent's length and the value of
its first 32 bytes. -/
def iterations (exponentLength : UInt64) (head : Nat) : BitVec 128 :=
  let headBits := BitVec.ofNat 128 (bitLength head - 1)
  if exponentLength ≤ 32 then headBits
  else saturatingAdd (saturatingMul (exponentLength.toBitVec.setWidth 128 - 32) 8) headBits

def wordsOf (length : UInt64) : BitVec 128 :=
  let wide := length.toBitVec.setWidth 128
  wide / 8 + if wide % 8 = 0 then 0 else 1

/-- The price: the square of the longer operand's words for each iteration, a third of
that, and never less than 200. -/
def price (baseLength exponentLength modulusLength : UInt64) (head : Nat) : BitVec 128 :=
  let words := wordsOf (max baseLength modulusLength)
  let complexity := saturatingMul words words
  larger (saturatingMul complexity (larger (iterations exponentLength head) 1) / 3) 200

/-! ## The contract -/

/-- Three lengths of 32 bytes each, then base, exponent and modulus. A price that 64 bits
do not hold is beyond every limit. -/
def run : Precompile := fun input limit => do
  let baseLength := lengthAt input 0
  let exponentLength := lengthAt input 1
  let modulusLength := lengthAt input 2
  let exponentStart := endOf 96 baseLength
  let head := Bytes.toNat (operand input exponentStart (min exponentLength 32))
  let some price := narrow? (price baseLength exponentLength modulusLength head)
    | throw .outOfGas
  requireGas price limit
  -- Over an empty base and modulus an exponent of any length is cheap; it is not read.
  if modulusLength = 0 then return ⟨price, []⟩
  let base := Bytes.toNat (operand input 96 baseLength)
  let exponent := Bytes.binaryDigits (operand input exponentStart exponentLength)
  let modulus := Bytes.toNat (operand input (endOf exponentStart exponentLength) modulusLength)
  let result := if modulus = 0 then 0 else powerModOfDigits base exponent modulus
  return ⟨price, Bytes.ofNatWidth modulusLength.toNat result⟩

end ExecutionLayer.Precompile.ModExp
