import ExecutionLayer.Header.BaseFee

/-!
# Header rules

The rules that a header must obey as a child of its parent. What it says about the
body is checked after the body was executed.
-/

set_option autoImplicit false

namespace ExecutionLayer

/-- The first rule that a header breaks. -/
inductive HeaderError where
  | number (number parent : UInt64)
  | timestamp (timestamp parent : UInt64)
  /-- The gas limit is too far from the parent's, or below the floor. -/
  | gasLimit (gasLimit parent : UInt64)
  | gasUsed (gasUsed gasLimit : UInt64)
  | extraData (length : Nat)
  | difficulty (difficulty : Word)
  | ommersHash
  | baseFee (expected actual : Option Word)
deriving DecidableEq, Repr, Inhabited

namespace HeaderError

private def amount : Option Word → String
  | none => "None"
  | some word => "Some(" ++ toString word.toNat ++ ")"

def message : HeaderError → String
  | .number found parent =>
      "block number " ++ toString found.toNat ++ " does not follow parent " ++
        toString parent.toNat
  | .timestamp found parent =>
      "timestamp " ++ toString found.toNat ++ " not after parent " ++ toString parent.toNat
  | .gasLimit found parent =>
      "gas limit " ++ toString found.toNat ++ " invalid against parent " ++ toString parent.toNat
  | .gasUsed used limit =>
      "gas used " ++ toString used.toNat ++ " exceeds gas limit " ++ toString limit.toNat
  | .extraData length => "extra data too long: " ++ toString length ++ " bytes"
  | .difficulty found => "difficulty must be 1, got " ++ toString found.toNat
  | .ommersHash => "ommers hash must be empty list hash"
  | .baseFee expected actual =>
      "base fee " ++ amount actual ++ " differs from expected " ++ amount expected

end HeaderError

namespace Header

def minGasLimit : UInt64 := 5000

/-- The gas limit changes by less than this fraction of the parent's. -/
def gasLimitDivisor : UInt64 := 1024

def maxExtraData : Nat := 32

/-- The sum with one, clamped to the greatest 64-bit number. -/
def successor (number : UInt64) : UInt64 :=
  if number.toNat + 1 < UInt64.size then number + 1 else number

def distance (a b : UInt64) : UInt64 :=
  if a ≤ b then b - a else a - b

/-- The gas limit that a child is measured against: twice the parent's for the first
block with a base fee, clamped to the greatest 64-bit number. -/
def referenceGasLimit (hasBaseFee : Bool) (parent : Header) : UInt64 :=
  if hasBaseFee ∧ parent.baseFee = none then
    UInt64.ofNat (min (parent.gasLimit.toNat * elasticity.toNat) (UInt64.size - 1))
  else parent.gasLimit

def gasLimitAllowed (reference gasLimit : UInt64) : Bool :=
  distance gasLimit reference < reference / gasLimitDivisor && gasLimit ≥ minGasLimit

/-- Checks every rule in order. `hasBaseFee` tells whether blocks carry a base fee. -/
def validate (hasBaseFee : Bool) (header parent : Header) : Except HeaderError Unit := do
  if header.number ≠ successor parent.number then
    throw (.number header.number parent.number)
  if header.timestamp ≤ parent.timestamp then
    throw (.timestamp header.timestamp parent.timestamp)
  let reference := referenceGasLimit hasBaseFee parent
  if !gasLimitAllowed reference header.gasLimit then
    throw (.gasLimit header.gasLimit reference)
  if header.gasUsed > header.gasLimit then
    throw (.gasUsed header.gasUsed header.gasLimit)
  if header.extraData.length > maxExtraData then
    throw (.extraData header.extraData.length)
  if header.difficulty ≠ blockDifficulty then
    throw (.difficulty header.difficulty)
  if header.ommersHash ≠ emptyOmmersHash then
    throw .ommersHash
  let expected := if hasBaseFee then some parent.nextBaseFee else none
  if header.baseFee ≠ expected then
    throw (.baseFee expected header.baseFee)

end Header

end ExecutionLayer
