import ExecutionLayer.Curve.Point
import ExecutionLayer.Power

/-!
# The pairing-friendly curve

The curve `y² = x³ + 3`, its sextic twist over the quadratic extension, and the
extension of degree twelve in which pairings take their values.
-/

set_option autoImplicit false

namespace ExecutionLayer.Bn254

/-- The field prime. -/
def modulus : Nat := 0x30644e72e131a029b85045b68181585d97816a916871ca8d3c208c16d87cfd47

/-- The number of points of the curve, a prime. -/
def order : Nat := 0x30644e72e131a029b85045b68181585d2833e84879b9709143e1f593f0000001

instance : @NeZero Nat Zero.ofOfNat0 modulus := ⟨by decide⟩

abbrev Fp := Fin modulus

instance : Zero Fp := ⟨0⟩

/-- Inverses are powers, by Fermat's little theorem; zero goes to zero. -/
instance : Inv Fp :=
  ⟨fun a => Fin.ofNat modulus (powerMod a.val (modulus - 2) modulus)⟩

/-- `c0 + c1 i` with `i² = -1`. -/
structure Fp2 where
  c0 : Fp
  c1 : Fp
deriving DecidableEq

namespace Fp2

instance : Zero Fp2 := ⟨⟨0, 0⟩⟩
instance : One Fp2 := ⟨⟨1, 0⟩⟩
instance : Add Fp2 := ⟨fun a b => ⟨a.c0 + b.c0, a.c1 + b.c1⟩⟩
instance : Sub Fp2 := ⟨fun a b => ⟨a.c0 - b.c0, a.c1 - b.c1⟩⟩
instance : Neg Fp2 := ⟨fun a => ⟨-a.c0, -a.c1⟩⟩
instance : Mul Fp2 :=
  ⟨fun a b => ⟨a.c0 * b.c0 - a.c1 * b.c1, a.c0 * b.c1 + a.c1 * b.c0⟩⟩

def conjugate (a : Fp2) : Fp2 := ⟨a.c0, -a.c1⟩

def scale (a : Fp2) (k : Fp) : Fp2 := ⟨a.c0 * k, a.c1 * k⟩

def ofFp (a : Fp) : Fp2 := ⟨a, 0⟩

/-- The inverse is the conjugate over the norm; zero goes to zero. -/
instance : Inv Fp2 :=
  ⟨fun a => a.conjugate.scale (a.c0 * a.c0 + a.c1 * a.c1)⁻¹⟩

def pow (a : Fp2) (exponent : Nat) : Fp2 :=
  power 1 (· * ·) a exponent

/-- The element `9 + i`, which is no square and no cube. -/
def xi : Fp2 := ⟨9, 1⟩

end Fp2

/-- An element of the extension by a root `w` of `w¹² - 18 w⁶ + 82`: the coefficients of
the powers of `w`. As `i` is `w⁶ - 9`, the quadratic extension is part of it. -/
structure Fp12 where
  coefficients : Vector Fp 12
deriving DecidableEq

namespace Fp12

instance : One Fp12 := ⟨⟨.ofFn fun k => if k = 0 then 1 else 0⟩⟩
instance : Add Fp12 := ⟨fun a b => ⟨.ofFn fun k => a.coefficients[k] + b.coefficients[k]⟩⟩
instance : Sub Fp12 := ⟨fun a b => ⟨.ofFn fun k => a.coefficients[k] - b.coefficients[k]⟩⟩

/-- Numbers for the powers of `w` that occur in a product, not yet taken modulo the prime. -/
abbrev Wide := Vector Nat 23

/-- Adds the products of the coefficient `a` of `wⁱ` and all coefficients of `b`. -/
def accumulate (b : Fp12) (wide : Wide) (i : Fin 12) (a : Fp) : Wide :=
  if a = 0 then wide
  else
    Fin.foldl 12
      (fun wide j => wide.set (i + j) (wide[i.val + j.val] + a.val * b.coefficients[j].val)) wide

def wideProduct (a b : Fp12) : Wide :=
  Fin.foldl 12 (fun wide i => accumulate b wide i a.coefficients[i]) (.replicate 23 0)

/-- Moves the number at `wᵏ⁺¹²` down by `w¹² = 18 w⁶ - 82`. A multiple of the prime keeps
what is taken off at `wᵏ` from going below zero. -/
def lower (wide : Wide) (k : Fin 11) : Wide :=
  let top := wide[k.val + 12] % modulus
  let wide := wide.set (k + 12) 0
  let wide := wide.set (k + 6) (wide[k.val + 6] + top * 18)
  wide.set k (wide[k.val] + (modulus * 82 - top * 82))

/-- The element that the numbers for the powers of `w` denote, the highest powers being
moved down first. -/
def reduce (wide : Wide) : Fp12 :=
  let lowered := Fin.foldr 11 (fun k wide => lower wide k) wide
  ⟨.ofFn fun k => Fin.ofNat modulus lowered[k.val]⟩

instance : Mul Fp12 := ⟨fun a b => reduce (wideProduct a b)⟩

/-- The element `a wᵏ`, for `k` below six. -/
def ofFp2 (a : Fp2) (k : Nat) : Fp12 :=
  ⟨.ofFn fun j => if j = k then a.c0 - a.c1 * 9 else if j = k + 6 then a.c1 else 0⟩

def pow (a : Fp12) (exponent : Nat) : Fp12 :=
  power 1 (· * ·) a exponent

end Fp12

abbrev G1 := Curve.Point Fp

/-- A point of the twist over the quadratic extension. -/
abbrev G2 := Curve.Point Fp2

def curveConstant : Fp := 3

def twistConstant : Fp2 := Fp2.ofFp 3 * Fp2.xi⁻¹

end ExecutionLayer.Bn254
