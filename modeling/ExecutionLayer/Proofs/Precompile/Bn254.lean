import ExecutionLayer.Precompile.Bn254
import ExecutionLayer.Proofs.Curve.Field
import ExecutionLayer.Proofs.Curve.Group
import ExecutionLayer.Proofs.Results

/-!
# Curve arithmetic on encoded points

Every point of the curve is read back from its bytes, and the contracts compute in the group of the
curve. So what multiplying gives can be added, and adding multiples of a point gives the multiple
by the sum.
-/

set_option autoImplicit false

namespace ExecutionLayer

/-! ## Windows of joined byte strings -/

namespace Bytes

variable {front rest : Bytes} {offset length : Nat}

theorem window_append_left (within : offset + length ≤ front.length) :
    window (front ++ rest) offset length = window front offset length := by
  have enough : length ≤ (front.drop offset).length := by
    rw [List.length_drop]
    omega
  rw [window, window, List.drop_append_of_le_length (by omega), padRight, padRight,
    List.take_append_of_le_length enough]

theorem window_append_right (front rest : Bytes) (offset length : Nat) :
    window (front ++ rest) (front.length + offset) length = window rest offset length := by
  rw [window, window, List.drop_length_add_append]

theorem window_ofNatWidth (width value : Nat) :
    window (ofNatWidth width value) 0 width = ofNatWidth width value := by
  have exact := length_ofNatWidth width value
  simp [window, padRight, exact]

end Bytes

namespace Precompile.Bn254

open ExecutionLayer.Bn254
open Curve

/-! ## Bytes of points -/

variable {input front rest encoded : Bytes} {offset : Nat} {x y : Fp} {point other : G1}

theorem readCoordinate_eq (held : Bytes.window input offset 32 = Bytes.ofNatWidth 32 x.val) :
    readCoordinate input offset = .ok x := by
  have fits : x.val < 256 ^ 32 := x.isLt.trans (by decide)
  unfold readCoordinate
  dsimp only
  rw [held]
  simp only [Bytes.toNat_ofNatWidth fits, x.isLt, ↓reduceDIte, Fin.eta]

theorem readCoordinate_append (within : offset + 32 ≤ front.length) :
    readCoordinate (front ++ rest) offset = readCoordinate front offset := by
  rw [readCoordinate, readCoordinate, Bytes.window_append_left within]

theorem readG1_append (within : offset + 64 ≤ front.length) :
    readG1 (front ++ rest) offset = readG1 front offset := by
  rw [readG1, readG1, readCoordinate_append (by omega), readCoordinate_append (by omega)]

theorem readCoordinate_behind (offset : Nat) :
    readCoordinate (front ++ rest) (front.length + offset) = readCoordinate rest offset := by
  rw [readCoordinate, readCoordinate, Bytes.window_append_right]

theorem readG1_behind (front rest : Bytes) (offset : Nat) :
    readG1 (front ++ rest) (front.length + offset) = readG1 rest offset := by
  rw [readG1, readG1, Nat.add_assoc, readCoordinate_behind, readCoordinate_behind]

theorem isOnCurve_of_readG1 (accepted : readG1 input offset = .ok point) :
    point.isOnCurve curveConstant = true := by
  unfold readG1 at accepted
  obtain ⟨x, -, accepted⟩ := bind_eq_ok accepted
  obtain ⟨y, -, accepted⟩ := bind_eq_ok accepted
  dsimp only at accepted
  split at accepted
  · cases accepted
    assumption
  · cases accepted

/-- The coordinates that are written for a point, zeros for infinity. -/
def coordinates : G1 → Fp × Fp
  | .infinity => (0, 0)
  | .affine x y => (x, y)

theorem writeG1_eq (point : G1) : writeG1 point =
    Bytes.ofNatWidth 32 (coordinates point).1.val ++
      Bytes.ofNatWidth 32 (coordinates point).2.val := by
  cases point with
  | infinity => decide +kernel
  | affine x y => rfl

theorem length_writeG1 (point : G1) : (writeG1 point).length = 64 := by
  rw [writeG1_eq, List.length_append, Bytes.length_ofNatWidth, Bytes.length_ofNatWidth]

theorem pointOf_coordinates (onCurve : point.isOnCurve curveConstant = true) :
    pointOf (coordinates point).1 (coordinates point).2 = point := by
  cases point with
  | infinity => rfl
  | affine x y =>
      unfold pointOf
      split
      · rename_i zeros
        -- The coordinates that stand for infinity are those of no point of the curve.
        obtain ⟨rfl, rfl⟩ := zeros
        exact absurd onCurve (by decide +kernel)
      · rfl

theorem readG1_writeG1 (onCurve : point.isOnCurve curveConstant = true) :
    readG1 (writeG1 point) 0 = .ok point := by
  have abscissa : readCoordinate (writeG1 point) 0 = .ok (coordinates point).1 := by
    rw [writeG1_eq]
    apply readCoordinate_eq
    rw [Bytes.window_append_left (by rw [Bytes.length_ofNatWidth]), Bytes.window_ofNatWidth]
  have ordinate : readCoordinate (writeG1 point) (0 + 32) = .ok (coordinates point).2 := by
    rw [writeG1_eq]
    apply readCoordinate_eq
    have behind := Bytes.window_append_right
      (Bytes.ofNatWidth 32 (coordinates point).1.val)
      (Bytes.ofNatWidth 32 (coordinates point).2.val) 0 32
    rwa [Bytes.length_ofNatWidth, Bytes.window_ofNatWidth] at behind
  unfold readG1
  rw [abscissa, ok_bind, ordinate, ok_bind, pointOf_coordinates onCurve, if_pos onCurve]
  rfl

/-! ## The contracts -/

/-- The operations of the field are those that points are computed with. -/
theorem add_multiply (onCurve : point.isOnCurve curveConstant = true) (m n : Nat) :
    (point.multiply m).isOnCurve curveConstant = true ∧
      (point.multiply m).add (point.multiply n) = point.multiply (m + n) :=
  Point.add_multiply (F := Fp) (by decide) (by decide) (by decide) onCurve m n

theorem requireGas_of_le {price limit : UInt64} (enough : price ≤ limit) :
    requireGas price limit = .ok () :=
  if_pos enough

theorem multiply_eq {limit : UInt64} {scalar : Nat} (length : encoded.length = 64)
    (accepted : readG1 encoded 0 = .ok point) (fits : scalar < 2 ^ 256) (enough : 6000 ≤ limit) :
    multiply (encoded ++ Bytes.ofNatWidth 32 scalar) limit =
      .ok ⟨6000, writeG1 (point.multiply scalar)⟩ := by
  have held : Bytes.window (encoded ++ Bytes.ofNatWidth 32 scalar) 64 32 =
      Bytes.ofNatWidth 32 scalar := by
    have behind := Bytes.window_append_right encoded (Bytes.ofNatWidth 32 scalar) 0 32
    rwa [length, Bytes.window_ofNatWidth] at behind
  unfold multiply
  rw [requireGas_of_le enough, ok_bind, readG1_append (by omega), accepted, ok_bind, held,
    Bytes.toNat_ofNatWidth (fits.trans_eq (by decide))]
  rfl

theorem add_eq {limit : UInt64} (onCurve : point.isOnCurve curveConstant = true)
    (onCurveOther : other.isOnCurve curveConstant = true) (enough : 150 ≤ limit) :
    add (writeG1 point ++ writeG1 other) limit = .ok ⟨150, writeG1 (point.add other)⟩ := by
  have behind := readG1_behind (writeG1 point) (writeG1 other) 0
  rw [length_writeG1, readG1_writeG1 onCurveOther] at behind
  unfold add
  rw [requireGas_of_le enough, ok_bind, readG1_append (by rw [length_writeG1]),
    readG1_writeG1 onCurve, ok_bind, behind, ok_bind]
  rfl

/-- What multiplying a point gives is again read as a point, and adding two multiples of a point
gives the multiple by the sum of the scalars. -/
theorem add_multiples {encoded : Bytes} {point : G1} {a b : Nat} (length : encoded.length = 64)
    (accepted : readG1 encoded 0 = .ok point) (fits : a + b < 2 ^ 256) :
    ∃ first second sum : Bytes,
      (∀ limit, 6000 ≤ limit →
        multiply (encoded ++ Bytes.ofNatWidth 32 a) limit = .ok ⟨6000, first⟩) ∧
      (∀ limit, 6000 ≤ limit →
        multiply (encoded ++ Bytes.ofNatWidth 32 b) limit = .ok ⟨6000, second⟩) ∧
      (∀ limit, 6000 ≤ limit →
        multiply (encoded ++ Bytes.ofNatWidth 32 (a + b)) limit = .ok ⟨6000, sum⟩) ∧
      (∃ point, readG1 first 0 = .ok point) ∧ (∃ point, readG1 second 0 = .ok point) ∧
      (∀ limit, 150 ≤ limit → add (first ++ second) limit = .ok ⟨150, sum⟩) := by
  have onCurve := isOnCurve_of_readG1 accepted
  obtain ⟨onCurveFirst, added⟩ := add_multiply onCurve a b
  have onCurveSecond := (add_multiply onCurve b a).1
  refine ⟨_, _, _, fun limit enough => multiply_eq length accepted (by omega) enough,
    fun limit enough => multiply_eq length accepted (by omega) enough,
    fun limit enough => multiply_eq length accepted fits enough,
    ⟨_, readG1_writeG1 onCurveFirst⟩, ⟨_, readG1_writeG1 onCurveSecond⟩, ?_⟩
  intro limit enough
  rw [add_eq onCurveFirst onCurveSecond enough, added]

/-- The generator and the double of it. -/
theorem add_multiples_generator :
    let generator := writeG1 (.affine 1 2)
    let doubled := writeG1 (.affine
      0x030644e72e131a029b85045b68181585d97816a916871ca8d3c208c16d87cfd3
      0x15ed738c0e0a7c92e7845f96b2ae9c0a68a6a449e3538fc7ff3ebf7a5a18a2c4)
    generator.length = 64 ∧ readG1 generator 0 = .ok (.affine 1 2) ∧ 1 + 1 < 2 ^ 256 ∧
    ∃ multiple : Bytes,
      multiply (generator ++ Bytes.ofNatWidth 32 1) 6000 = .ok ⟨6000, multiple⟩ ∧
      multiply (generator ++ Bytes.ofNatWidth 32 2) 6000 = .ok ⟨6000, doubled⟩ ∧
      add (multiple ++ multiple) 150 = .ok ⟨150, doubled⟩ := by
  intro generator doubled
  have length : generator.length = 64 := length_writeG1 _
  have accepted : readG1 generator 0 = .ok (.affine 1 2) := readG1_writeG1 (by decide +kernel)
  obtain ⟨first, second, sum, once, onceMore, twice, -, -, added⟩ :=
    add_multiples (a := 1) (b := 1) length accepted (by decide +kernel)
  obtain ⟨⟩ := (once 6000 (UInt64.le_refl _)).symm.trans (onceMore 6000 (UInt64.le_refl _))
  have computed : multiply (generator ++ Bytes.ofNatWidth 32 2) 6000 = .ok ⟨6000, doubled⟩ := by
    decide +kernel
  obtain ⟨⟩ := (twice 6000 (UInt64.le_refl _)).symm.trans computed
  exact ⟨length, accepted, by decide +kernel, first, once 6000 (UInt64.le_refl _), computed,
    added 150 (UInt64.le_refl _)⟩

end Precompile.Bn254

end ExecutionLayer
