import ExecutionLayer.Proofs.Curve.Field
import Mathlib.RingTheory.AdjoinRoot

/-!
# The extension of degree twelve

Elements are coefficients of powers of `w`, and the products of coefficients are added up without
reduction before the high powers are moved down. Every step of this keeps what the numbers denote in
the quotient of the polynomials by `w¹² - 18 w⁶ + 82`, and there different elements denote different
residues. So multiplication has the laws of the quotient.
-/

set_option autoImplicit false

namespace ExecutionLayer.Bn254.Fp12

open Polynomial

/-! ## Residues -/

/-- The polynomial `w¹² - 18 w⁶ + 82`. -/
noncomputable def relation : Fp[X] := X ^ 12 + (C 82 - C 18 * X ^ 6)

abbrev Residue := AdjoinRoot relation

/-- The residue of `w`. -/
noncomputable abbrev root : Residue := AdjoinRoot.root relation

theorem degree_lowTerms : (C 82 - C 18 * X ^ 6 : Fp[X]).degree < (12 : ℕ) := by
  refine (degree_sub_le _ _).trans_lt (max_lt ?_ ?_)
  · exact degree_C_le.trans_lt (by decide)
  · exact (degree_C_mul_X_pow_le 6 18).trans_lt (by decide)

theorem monic_relation : relation.Monic :=
  monic_X_pow_add degree_lowTerms

theorem degree_relation : relation.degree = (12 : ℕ) := by
  have below : (C 82 - C 18 * X ^ 6 : Fp[X]).degree < (X ^ 12 : Fp[X]).degree := by
    rw [degree_X_pow]
    exact degree_lowTerms
  rw [relation, degree_add_eq_left_of_degree_lt below, degree_X_pow]

theorem root_pow_twelve : root ^ 12 = 18 * root ^ 6 - 82 := by
  have zero : AdjoinRoot.mk relation relation = 0 := AdjoinRoot.mk_self
  conv at zero => lhs; arg 2; rw [relation]
  simp only [map_add, map_sub, map_mul, map_pow, AdjoinRoot.mk_X, map_ofNat] at zero
  linear_combination zero

theorem natCast_val (a : Fp) : (a.val : Residue) = AdjoinRoot.of relation a := by
  rw [← map_natCast (AdjoinRoot.of relation)]
  congr 1
  exact Fin.cast_val_eq_self a

theorem natCast_mod (number : Nat) : ((number % modulus : ℕ) : Residue) = number := by
  rw [← map_natCast (AdjoinRoot.of relation), ← map_natCast (AdjoinRoot.of relation)]
  congr 1
  exact Fin.ext (Nat.mod_mod _ _)

theorem natCast_modulus : (modulus : Residue) = 0 := by
  have reduced := natCast_mod modulus
  rwa [Nat.mod_self, Nat.cast_zero, eq_comm] at reduced

/-! ## What elements denote -/

/-- The sum of the coefficients times powers of the root. -/
noncomputable def value (a : Fp12) : Residue :=
  ∑ k, AdjoinRoot.of relation (a.coefficients.get k) * root ^ k.val

/-- The polynomial with the same coefficients. -/
noncomputable def polynomial (a : Fp12) : Fp[X] :=
  ∑ k, C (a.coefficients.get k) * X ^ k.val

theorem value_eq_mk (a : Fp12) : a.value = AdjoinRoot.mk relation a.polynomial := by
  simp only [value, polynomial, map_sum, map_mul, map_pow, AdjoinRoot.mk_C, AdjoinRoot.mk_X]

theorem coeff_polynomial (a : Fp12) (k : Fin 12) : a.polynomial.coeff k = a.coefficients.get k := by
  simp only [polynomial, finsetSum_coeff, coeff_C_mul_X_pow, Fin.val_inj, Finset.sum_ite_eq,
    Finset.mem_univ, if_true]

theorem degree_polynomial (a : Fp12) : a.polynomial.degree < (12 : ℕ) := by
  apply (degree_sum_le _ _).trans_lt
  rw [Finset.sup_lt_iff (by decide)]
  intro k _
  exact (degree_C_mul_X_pow_le _ _).trans_lt (by exact_mod_cast k.isLt)

/-- No two elements denote the same, as their polynomials have a degree below that of the
relation. -/
theorem value_injective : Function.Injective value := by
  intro a b same
  rw [value_eq_mk, value_eq_mk, AdjoinRoot.mk_eq_mk] at same
  have difference : a.polynomial - b.polynomial = 0 := by
    by_contra nonzero
    apply monic_relation.not_dvd_of_degree_lt nonzero _ same
    rw [degree_relation]
    exact (degree_sub_le _ _).trans_lt (max_lt a.degree_polynomial b.degree_polynomial)
  have polynomials := sub_eq_zero.mp difference
  have coefficients (k : Fin 12) : a.coefficients.get k = b.coefficients.get k := by
    rw [← coeff_polynomial, ← coeff_polynomial, polynomials]
  obtain ⟨left⟩ := a
  obtain ⟨right⟩ := b
  congr 1
  apply Vector.ext
  intro k below
  exact coefficients ⟨k, below⟩

/-! ## What numbers for powers of the root denote -/

namespace Wide

/-- The sum of the numbers as multiples of powers of the root. -/
noncomputable def value (wide : Wide) : Residue :=
  ∑ k : Fin 23, (wide[k] : Residue) * root ^ k.val

/-- Replacing a number exchanges its multiple of the root's power. -/
theorem value_set (wide : Wide) {k : Nat} (below : k < 23) (number : Nat) :
    value (wide.set k number) + (wide[k] : Residue) * root ^ k =
      value wide + (number : Residue) * root ^ k := by
  let here : Fin 23 := ⟨k, below⟩
  have others : ∑ j ∈ Finset.univ.erase here, ((wide.set k number)[j] : Residue) * root ^ j.val =
      ∑ j ∈ Finset.univ.erase here, (wide[j] : Residue) * root ^ j.val := by
    apply Finset.sum_congr rfl
    intro j member
    have different : k ≠ j.val := fun same => Finset.ne_of_mem_erase member (Fin.ext same.symm)
    rw [Fin.getElem_fin, Fin.getElem_fin, Vector.getElem_set_ne _ _ different]
  have replaced : (wide.set k number)[here] = number := by
    rw [Fin.getElem_fin, Vector.getElem_set_self]
  have kept : wide[here] = wide[k] := rfl
  rw [value, value, ← Finset.add_sum_erase _ _ (Finset.mem_univ here), others, replaced,
    ← Finset.add_sum_erase _ (fun j : Fin 23 => (wide[j] : Residue) * root ^ j.val)
      (Finset.mem_univ here), kept]
  ring

/-- No number is left at a power from a bound on. -/
def Below (wide : Wide) (bound : Nat) : Prop :=
  ∀ k (within : k < 23), bound ≤ k → wide[k] = 0

end Wide

/-! ## Products -/

/-- A fold whose every step adds its own amount to what is measured adds all of them. -/
theorem measure_foldl {State Amount : Type*} [AddCommMonoid Amount] (measure : State → Amount)
    {n : Nat} (step : State → Fin n → State) (amount : Fin n → Amount)
    (adds : ∀ state k, measure (step state k) = measure state + amount k) (start : State) :
    measure (Fin.foldl n step start) = measure start + ∑ k, amount k := by
  induction n with
  | zero => simp
  | succ n ih =>
      rw [Fin.foldl_succ_last, adds, ih _ _ (fun state k => adds state k.castSucc),
        Fin.sum_univ_castSucc, add_assoc]

theorem value_accumulate (b : Fp12) (wide : Wide) (i : Fin 12) (a : Fp) :
    (accumulate b wide i a).value =
      wide.value + AdjoinRoot.of relation a * root ^ i.val * b.value := by
  unfold accumulate
  split
  · rename_i zero
    rw [zero, map_zero, zero_mul, zero_mul, add_zero]
  · rw [measure_foldl Wide.value _
      (fun j : Fin 12 => AdjoinRoot.of relation a * root ^ i.val *
        (AdjoinRoot.of relation (b.coefficients.get j) * root ^ j.val)), value, Finset.mul_sum]
    intro wide j
    have added := wide.value_set (k := i + j) (by omega)
      (wide[i.val + j.val] + a.val * b.coefficients[j].val)
    push_cast [natCast_val] at added
    rw [Fin.getElem_fin]
    linear_combination added

theorem value_wideProduct (a b : Fp12) : (wideProduct a b).value = a.value * b.value := by
  have nothing : Wide.value (.replicate 23 0) = 0 := by simp [Wide.value]
  unfold wideProduct
  rw [measure_foldl Wide.value _
    (fun i : Fin 12 => AdjoinRoot.of relation (a.coefficients.get i) * root ^ i.val * b.value)
    (fun wide i => value_accumulate b wide i a.coefficients[i]), nothing, zero_add, ← Finset.sum_mul]
  rfl

/-! ## Reduction -/

theorem value_lower (wide : Wide) (k : Fin 11) : (lower wide k).value = wide.value := by
  unfold lower
  extract_lets top cleared raised
  have clearing := wide.value_set (k := k + 12) (by omega) 0
  have raising := Wide.value_set cleared (k := k + 6) (by omega) (cleared[k.val + 6] + top * 18)
  have taking := Wide.value_set raised (k := k) (by omega)
    (raised[k.val] + (modulus * 82 - top * 82))
  -- What is taken off never exceeds the multiple of the prime it is taken off from.
  have covered : top * 82 ≤ modulus * 82 :=
    Nat.mul_le_mul_right 82 (Nat.mod_lt _ (Nat.pos_of_neZero modulus)).le
  have same : (top : Residue) = (wide[k.val + 12] : ℕ) := natCast_mod _
  push_cast [Nat.cast_sub covered, natCast_modulus] at clearing raising taking
  rw [← same] at clearing
  linear_combination clearing + raising + taking - (top : Residue) * root ^ k.val * root_pow_twelve

theorem below_lower {wide : Wide} {k : Fin 11} (below : wide.Below (k + 13)) :
    (lower wide k).Below (k + 12) := by
  intro j within high
  unfold lower
  rw [Vector.getElem_set_ne _ _ (by omega), Vector.getElem_set_ne _ _ (by omega)]
  by_cases top : k + 12 = j
  · subst top
    rw [Vector.getElem_set_self]
  · rw [Vector.getElem_set_ne _ _ top]
    exact below j within (by omega)

/-- Moving numbers down from the highest power on keeps what they denote and leaves none above
the eleventh power. The induction is on the number of powers that are still too high. -/
theorem foldr_lower {n : Nat} (fits : n ≤ 11) {wide : Wide} (below : wide.Below (n + 12)) :
    let lowered := Fin.foldr n (fun k wide => lower wide (k.castLE fits)) wide
    lowered.value = wide.value ∧ lowered.Below 12 := by
  induction n generalizing wide with
  | zero => exact ⟨rfl, below⟩
  | succ n ih =>
      have step := below_lower (k := Fin.castLE fits (Fin.last n)) below
      obtain ⟨same, cleared⟩ := ih (by omega) step
      rw [value_lower] at same
      rw [Fin.foldr_succ_last]
      exact ⟨same, cleared⟩

theorem value_of_below {wide : Wide} (below : wide.Below 12) :
    value ⟨.ofFn fun k => Fin.ofNat modulus (wide.get (k.castAdd 11))⟩ = wide.value := by
  have high : ∑ k : Fin 11, (wide[Fin.natAdd 12 k] : Residue) * root ^ (Fin.natAdd 12 k).val = 0 := by
    apply Finset.sum_eq_zero
    intro k _
    have zero : wide[Fin.natAdd 12 k] = 0 := below _ _ (Nat.le_add_right 12 k)
    rw [zero, Nat.cast_zero, zero_mul]
  rw [value, Wide.value, Fin.sum_univ_add (a := 12) (b := 11), high, add_zero]
  apply Finset.sum_congr rfl
  intro k _
  have reduced : (Vector.ofFn fun k : Fin 12 => Fin.ofNat modulus (wide.get (k.castAdd 11))).get k =
      Fin.ofNat modulus (wide.get (k.castAdd 11)) := Vector.getElem_ofFn k.isLt
  rw [← natCast_val, reduced, Fin.val_ofNat, natCast_mod]
  rfl

theorem value_reduce (wide : Wide) : (reduce wide).value = wide.value := by
  have none : wide.Below (11 + 12) := fun k within high => by omega
  obtain ⟨same, below⟩ := foldr_lower (le_refl 11) none
  exact (value_of_below below).trans same

/-! ## Laws -/

/-- Products denote products. -/
theorem value_mul (a b : Fp12) : (a * b).value = a.value * b.value :=
  (value_reduce (wideProduct a b)).trans (value_wideProduct a b)

theorem mul_right_comm (a b c : Fp12) : a * b * c = a * c * b := by
  apply value_injective
  simp only [value_mul]
  ring

end ExecutionLayer.Bn254.Fp12
