import ExecutionLayer.Curve.Bn254.Pairing
import ExecutionLayer.Precompile.Basic

/-!
# Curve arithmetic as native contracts

Addition, multiplication and the pairing check on encoded points. Coordinates
are 32-byte numbers below the field prime and zeros stand for the point at
infinity.
-/

set_option autoImplicit false

namespace ExecutionLayer.Precompile.Bn254

open ExecutionLayer.Bn254
open Curve

def readCoordinate (input : Bytes) (offset : Nat) : Except PrecompileError Fp :=
  let value := Bytes.toNat (Bytes.window input offset 32)
  if below : value < modulus then .ok ⟨value, below⟩
  else .error (.invalidInput "coordinate not below field modulus")

/-- The point with the given coordinates, where zeros mean infinity. -/
def pointOf {F : Type} [Zero F] [DecidableEq F] (x y : F) : Point F :=
  if x = 0 ∧ y = 0 then .infinity else .affine x y

def readG1 (input : Bytes) (offset : Nat) : Except PrecompileError G1 := do
  let x ← readCoordinate input offset
  let y ← readCoordinate input (offset + 32)
  let point := pointOf x y
  if point.isOnCurve curveConstant then return point
  else throw (.invalidInput "G1 point not on curve")

/-- The coordinate of the twist at an offset. The imaginary part comes first but is
looked at last. -/
def readTwistCoordinate (input : Bytes) (offset : Nat) : Except PrecompileError Fp2 := do
  let real ← readCoordinate input (offset + 32)
  let imaginary ← readCoordinate input offset
  return ⟨real, imaginary⟩

def readG2 (input : Bytes) (offset : Nat) : Except PrecompileError G2 := do
  let x ← readTwistCoordinate input offset
  let y ← readTwistCoordinate input (offset + 64)
  let point := pointOf x y
  if !point.isOnCurve twistConstant then throw (.invalidInput "G2 point not on curve")
  if point.multiply order ≠ .infinity then throw (.invalidInput "G2 point not in subgroup")
  return point

def writeG1 : G1 → Bytes
  | .infinity => List.replicate 64 0
  | .affine x y => Bytes.ofNatWidth 32 x.val ++ Bytes.ofNatWidth 32 y.val

def add : Precompile := fun input limit => do
  requireGas 150 limit
  let a ← readG1 input 0
  let b ← readG1 input 64
  return ⟨150, writeG1 (a.add b)⟩

def multiply : Precompile := fun input limit => do
  requireGas 6000 limit
  let point ← readG1 input 0
  let scalar := Bytes.toNat (Bytes.window input 64 32)
  return ⟨6000, writeG1 (point.multiply scalar)⟩

def pairLength : Nat := 192

def readPair (group : Bytes) : Except PrecompileError (G1 × G2) := do
  return (← readG1 group 0, ← readG2 group 64)

/-- The word one if the product of the pairings of all pairs is one, else the word zero. -/
def pairing : Precompile := fun input limit => do
  let price : UInt64 := 45000 + 34000 * UInt64.ofNat (input.length / pairLength)
  requireGas price limit
  if input.length % pairLength ≠ 0 then
    throw (.invalidInput
      ("pairing input length " ++ toString input.length ++ " not a multiple of 192"))
  let pairs ← (Bytes.chunks pairLength input).mapM readPair
  return ⟨price, (Word.ofBool (pairingCheck pairs)).toBytes⟩

end ExecutionLayer.Precompile.Bn254
