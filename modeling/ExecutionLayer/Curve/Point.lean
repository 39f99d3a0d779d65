/-!
# Points of short curves

Affine arithmetic on curves `y² = x³ + b` over any field that has the four
operations. The chord and tangent formulas do not mention `b`.
-/

set_option autoImplicit false

namespace ExecutionLayer.Curve

/-- A point with coordinates, or the point at infinity. -/
inductive Point (F : Type) where
  | infinity
  | affine (x y : F)
deriving DecidableEq

namespace Point

variable {F : Type} [Add F] [Sub F] [Mul F] [Neg F] [Inv F] [Zero F] [DecidableEq F]

def isOnCurve (b : F) : Point F → Bool
  | infinity => true
  | affine x y => y * y = x * x * x + b

def negate : Point F → Point F
  | infinity => infinity
  | affine x y => affine x (-y)

/-- The third point of the line with a slope through two points, mirrored. `x₁` and
`y₁` are the first point's coordinates, `x₂` is the second point's. -/
def alongLine (slope x₁ y₁ x₂ : F) : Point F :=
  let x := slope * slope - x₁ - x₂
  affine x (slope * (x₁ - x) - y₁)

def tangentSlope (x y : F) : F :=
  (x * x + x * x + x * x) * (y + y)⁻¹

def chordSlope (x₁ y₁ x₂ y₂ : F) : F :=
  (y₂ - y₁) * (x₂ - x₁)⁻¹

def double : Point F → Point F
  | infinity => infinity
  | affine x y => if y = 0 then infinity else alongLine (tangentSlope x y) x y x

def add : Point F → Point F → Point F
  | infinity, q => q
  | p, infinity => p
  | affine x₁ y₁, affine x₂ y₂ =>
      if x₁ = x₂ then
        if y₁ = y₂ then double (affine x₁ y₁) else infinity
      else alongLine (chordSlope x₁ y₁ x₂ y₂) x₁ y₁ x₂

def multiply (p : Point F) (scalar : Nat) : Point F :=
  if scalar = 0 then infinity
  else
    let doubled := double (multiply p (scalar / 2))
    if scalar % 2 = 1 then add doubled p else doubled
termination_by scalar
decreasing_by omega

end Point

end ExecutionLayer.Curve
