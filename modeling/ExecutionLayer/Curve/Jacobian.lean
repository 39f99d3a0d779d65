import ExecutionLayer.Curve.Point
import ExecutionLayer.Power

/-!
# Points in Jacobian coordinates

Curve arithmetic without inverses. A triple stands for the affine point that
`toPoint` gives, so that a chain of additions takes one inverse, at its end.
-/

set_option autoImplicit false

namespace ExecutionLayer.Curve

/-- The coordinates `(x / z², y / z³)`; the point at infinity where `z` is zero. -/
structure Jacobian (F : Type) where
  x : F
  y : F
  z : F

namespace Jacobian

variable {F : Type} [Add F] [Sub F] [Mul F] [Inv F] [Zero F] [One F] [DecidableEq F]

def infinity : Jacobian F := ⟨1, 1, 0⟩

def ofPoint : Point F → Jacobian F
  | .infinity => infinity
  | .affine x y => ⟨x, y, 1⟩

def toPoint (p : Jacobian F) : Point F :=
  if p.z = 0 then .infinity
  else
    let inverse := p.z⁻¹
    let square := inverse * inverse
    .affine (p.x * square) (p.y * (square * inverse))

/-- The sum of a point and itself. Where `y` is zero the tangent is vertical, and the
new `z` is zero as well. -/
def double (p : Jacobian F) : Jacobian F :=
  let ySquare := p.y * p.y
  let half := p.x * ySquare + p.x * ySquare
  let product := half + half
  let fourth := ySquare * ySquare + ySquare * ySquare
  let fourths := fourth + fourth
  let xSquare := p.x * p.x
  let slope := xSquare + xSquare + xSquare
  let x := slope * slope - product - product
  ⟨x, slope * (product - x) - (fourths + fourths), (p.y + p.y) * p.z⟩

/-- The sum of two points, which are first brought to one denominator. -/
def add (p q : Jacobian F) : Jacobian F :=
  if p.z = 0 then q
  else if q.z = 0 then p
  else
    let pSquare := p.z * p.z
    let qSquare := q.z * q.z
    let x₁ := p.x * qSquare
    let y₁ := p.y * (qSquare * q.z)
    let run := q.x * pSquare - x₁
    let rise := q.y * (pSquare * p.z) - y₁
    if run = 0 then
      if rise = 0 then double p else infinity
    else
      let square := run * run
      let cube := square * run
      let middle := x₁ * square
      let x := rise * rise - cube - middle - middle
      ⟨x, rise * (middle - x) - y₁ * cube, run * (p.z * q.z)⟩

def multiply (p : Jacobian F) (scalar : Nat) : Jacobian F :=
  power infinity add p scalar

end Jacobian

end ExecutionLayer.Curve
