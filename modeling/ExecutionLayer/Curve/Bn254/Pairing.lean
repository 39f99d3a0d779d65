import ExecutionLayer.Curve.Bn254

/-!
# The optimal ate pairing

The Miller loop over the twist and the check that a product of pairings is one.
The twist's points are taken to the extension field by `(x, y) ↦ (x w², y w³)`.
-/

set_option autoImplicit false

namespace ExecutionLayer.Bn254

open Curve

/-- The number whose binary digits steer the Miller loop. Its top digit, of value
`2 ^ 64`, is where the loop starts. -/
def loopCount : Nat := 29793968203157093288

def loopDigits : List Bool :=
  ((List.range 64).map fun index => loopCount.testBit index).reverse

/-- The factors that bring the coordinates' powers of the field prime back to the twist. -/
def frobeniusX : Fp2 := Fp2.xi.pow ((modulus - 1) / 3)

def frobeniusY : Fp2 := Fp2.xi.pow ((modulus - 1) / 2)

/-- The exponent that takes Miller loop values to roots of unity. -/
def finalExponent : Nat := (modulus.pow 12 - 1) / order

/-- The line with a slope through a twisted point, evaluated at a curve point. -/
def sloped (slope x y : Fp2) (xp yp : Fp) : Fp12 :=
  .ofFp2 (.ofFp (-yp)) 0 + .ofFp2 (slope.scale xp) 1 + .ofFp2 (y - slope * x) 3

/-- The line through two twisted points, evaluated at a curve point. It is vertical
where the points are opposite, and the constant one at infinity. -/
def line (r q : G2) (xp yp : Fp) : Fp12 :=
  match r, q with
  | .affine x₁ y₁, .affine x₂ y₂ =>
      if x₁ ≠ x₂ then sloped (Point.chordSlope x₁ y₁ x₂ y₂) x₁ y₁ xp yp
      else if y₁ = y₂ ∧ y₁ ≠ 0 then sloped (Point.tangentSlope x₁ y₁) x₁ y₁ xp yp
      else .ofFp2 (.ofFp xp) 0 - .ofFp2 x₁ 2
  | _, _ => 1

/-- Both coordinates to the power of the field prime, brought back to the twist. -/
def frobenius : G2 → G2
  | .infinity => .infinity
  | .affine x y => .affine (x.conjugate * frobeniusX) (y.conjugate * frobeniusY)

def loopStep (q : G2) (xp yp : Fp) (state : Fp12 × G2) (digit : Bool) : Fp12 × G2 :=
  let (value, r) := state
  let value := value * value * line r r xp yp
  let r := r.double
  if digit then (value * line r q xp yp, r.add q) else (value, r)

def millerLoop (q : G2) (xp yp : Fp) : Fp12 :=
  let (value, r) := loopDigits.foldl (loopStep q xp yp) (1, q)
  let q₁ := frobenius q
  let q₂ := (frobenius q₁).negate
  value * line r q₁ xp yp * line (r.add q₁) q₂ xp yp

/-- The product with the Miller loop's value for one pair. A pair with the point at infinity
is passed over. -/
def multiplyPair (product : Fp12) : G1 × G2 → Fp12
  | (.affine x y, .affine x' y') => product * millerLoop (.affine x' y') x y
  | _ => product

def pairingCheck (pairs : List (G1 × G2)) : Bool :=
  let product := pairs.foldl multiplyPair 1
  product = 1 || product.pow finalExponent = 1

end ExecutionLayer.Bn254
