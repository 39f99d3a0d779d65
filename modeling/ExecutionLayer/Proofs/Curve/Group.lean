import ExecutionLayer.Curve.Point
import Mathlib.AlgebraicGeometry.EllipticCurve.Affine.Point

/-!
# The group of a short curve

Over a field, the chord and tangent formulas are the group law of the Weierstrass curve
`y² = x³ + b`. So its points form an abelian group, in which doubling for each binary digit
computes multiples.
-/

set_option autoImplicit false

namespace ExecutionLayer.Curve

variable {F : Type} [Field F]

/-- The curve `y² = x³ + b`. -/
def short (b : F) : WeierstrassCurve.Affine F :=
  ⟨0, 0, 0, 0, b⟩

variable {b x y : F}

@[simp] theorem negY_short (b x y : F) : (short b).negY x y = -y := by
  simp [WeierstrassCurve.Affine.negY, short]

theorem equation_short_iff : (short b).Equation x y ↔ y * y = x * x * x + b := by
  rw [WeierstrassCurve.Affine.equation_iff]
  simp only [short, zero_mul, add_zero]
  rw [pow_two, pow_succ, pow_two]

/-- Where two, three and the constant term are not zero, the curve has no singular point. -/
theorem nonsingular_short (two : (2 : F) ≠ 0) (three : (3 : F) ≠ 0) (constant : b ≠ 0)
    (onCurve : y * y = x * x * x + b) : (short b).Nonsingular x y := by
  rw [WeierstrassCurve.Affine.nonsingular_iff]
  refine ⟨equation_short_iff.mpr onCurve, ?_⟩
  by_cases flat : y = 0
  · left
    intro singular
    simp only [short, zero_mul, mul_zero, add_zero, zero_eq_mul, three, false_or,
      pow_eq_zero_iff, ne_eq, OfNat.ofNat_ne_zero, not_false_eq_true] at singular
    rw [flat, singular] at onCurve
    simp only [mul_zero, zero_add] at onCurve
    exact constant onCurve.symm
  · right
    intro singular
    have doubled : 2 * y = 0 := by
      simp only [short, zero_mul, sub_zero] at singular
      linear_combination singular
    exact (mul_ne_zero two flat) doubled

namespace Point

/-- A point of the group, by its coordinates. -/
def ofGroup : (short b).Point → Point F
  | .zero => .infinity
  | .some x y _ => .affine x y

theorem ofGroup_zero : ofGroup (0 : (short b).Point) = .infinity :=
  rfl

/-- The third point of a line, mirrored, has the coordinates of a sum in the group. -/
theorem alongLine_eq (slope x₁ y₁ x₂ : F) :
    alongLine slope x₁ y₁ x₂ =
      .affine ((short b).addX x₁ x₂ slope) ((short b).addY x₁ x₂ y₁ slope) := by
  have sum : (short b).addX x₁ x₂ slope = slope * slope - x₁ - x₂ := by
    simp only [WeierstrassCurve.Affine.addX, short, zero_mul, add_zero, sub_zero]
    ring
  rw [WeierstrassCurve.Affine.addY, negY_short, WeierstrassCurve.Affine.negAddY, sum, alongLine]
  congr 1
  ring

variable [DecidableEq F]

theorem isOnCurve_ofGroup (p : (short b).Point) : (ofGroup p).isOnCurve b = true := by
  cases p with
  | zero => rfl
  | some x y nonsingular =>
      simpa [ofGroup, isOnCurve] using equation_short_iff.mp nonsingular.1

/-- Every point of the curve stands for one of the group. -/
theorem exists_ofGroup (two : (2 : F) ≠ 0) (three : (3 : F) ≠ 0) (constant : b ≠ 0)
    {p : Point F} (onCurve : p.isOnCurve b = true) :
    ∃ q : (short b).Point, ofGroup q = p := by
  cases p with
  | infinity => exact ⟨0, rfl⟩
  | affine x y =>
      have equation : y * y = x * x * x + b := by simpa [isOnCurve] using onCurve
      exact ⟨.some x y (nonsingular_short two three constant equation), rfl⟩

theorem slope_chord {x₁ x₂ : F} (y₁ y₂ : F) (differs : x₁ ≠ x₂) :
    (short b).slope x₁ x₂ y₁ y₂ = chordSlope x₁ y₁ x₂ y₂ := by
  rw [WeierstrassCurve.Affine.slope_of_X_ne differs, chordSlope, div_eq_mul_inv, ← neg_sub y₂,
    ← neg_sub x₂, inv_neg, neg_mul_neg]

theorem slope_tangent (x : F) {y : F} (steep : y ≠ -y) :
    (short b).slope x x y y = tangentSlope x y := by
  rw [WeierstrassCurve.Affine.slope_of_Y_ne rfl (by rwa [negY_short]), negY_short, tangentSlope,
    div_eq_mul_inv, sub_neg_eq_add]
  simp only [short, mul_zero, zero_mul, add_zero, sub_zero]
  ring

theorem ofGroup_double (two : (2 : F) ≠ 0) (p : (short b).Point) :
    ofGroup (p + p) = (ofGroup p).double := by
  cases p with
  | zero => rfl
  | some x y nonsingular =>
      by_cases flat : y = 0
      · have opposite : y = (short b).negY x y := by rw [negY_short, flat, neg_zero]
        rw [WeierstrassCurve.Affine.Point.add_self_of_Y_eq opposite, ofGroup_zero, ofGroup, double,
          if_pos flat]
      · have steep : y ≠ -y := by
          intro same
          have doubled : 2 * y = 0 := by linear_combination same
          exact (mul_ne_zero two flat) doubled
        rw [WeierstrassCurve.Affine.Point.add_self_of_Y_ne (by rwa [negY_short]), ofGroup, ofGroup,
          double, if_neg flat, slope_tangent x steep, alongLine_eq]

theorem ofGroup_add (two : (2 : F) ≠ 0) (p q : (short b).Point) :
    ofGroup (p + q) = (ofGroup p).add (ofGroup q) := by
  cases p with
  | zero => cases q <;> rfl
  | some x₁ y₁ nonsingular =>
      cases q with
      | zero => rfl
      | some x₂ y₂ nonsingularOther =>
          by_cases vertical : x₁ = x₂
          · subst vertical
            rw [ofGroup, ofGroup, add, if_pos rfl]
            by_cases same : y₁ = y₂
            · subst same
              rw [if_pos rfl, ofGroup_double two, ofGroup]
            · -- Two points with the same first coordinate are opposite if they differ.
              have opposite : y₁ = (short b).negY x₁ y₂ :=
                (WeierstrassCurve.Affine.Y_eq_of_X_eq nonsingular.1 nonsingularOther.1
                  rfl).resolve_left same
              rw [if_neg same, WeierstrassCurve.Affine.Point.add_of_Y_eq rfl opposite,
                ofGroup_zero]
          · rw [WeierstrassCurve.Affine.Point.add_of_X_ne vertical, ofGroup, ofGroup, ofGroup, add,
              if_neg vertical, slope_chord y₁ y₂ vertical, alongLine_eq]

theorem ofGroup_multiply (two : (2 : F) ≠ 0) (p : (short b).Point) (scalar : Nat) :
    ofGroup (scalar • p) = (ofGroup p).multiply scalar := by
  induction scalar using Nat.strongRecOn with
  | ind scalar ih =>
      rw [multiply]
      split
      · rename_i zero
        rw [zero, zero_nsmul, ofGroup_zero]
      · rename_i positive
        have half := ih (scalar / 2) (by omega)
        have digits : scalar • p =
            (scalar / 2) • p + (scalar / 2) • p + (scalar % 2) • p := by
          rw [← add_nsmul, ← add_nsmul, ← Nat.two_mul, Nat.div_add_mod]
        rw [digits, ← half]
        rcases Nat.mod_two_eq_zero_or_one scalar with even | odd
        · rw [even, zero_nsmul, add_zero, if_neg (by decide), ofGroup_double two]
        · rw [odd, one_nsmul, if_pos rfl, ofGroup_add two, ofGroup_double two]

/-- On the curve, multiples add up. -/
theorem add_multiply (two : (2 : F) ≠ 0) (three : (3 : F) ≠ 0) (constant : b ≠ 0) {p : Point F}
    (onCurve : p.isOnCurve b = true) (m n : Nat) :
    (p.multiply m).isOnCurve b = true ∧
      (p.multiply m).add (p.multiply n) = p.multiply (m + n) := by
  obtain ⟨q, rfl⟩ := exists_ofGroup two three constant onCurve
  rw [← ofGroup_multiply two, ← ofGroup_multiply two, ← ofGroup_multiply two,
    ← ofGroup_add two, add_nsmul]
  exact ⟨isOnCurve_ofGroup _, rfl⟩

end Point

end ExecutionLayer.Curve
