import ExecutionLayer.Proofs.Curve.Extension

/-!
# The quadratic extension within the extension of degree twelve

The residue `w⁶ - 9` is a root of minus one, so the quadratic extension lies among the residues, and
products of its elements are products there. Products of any two elements are exact: the coefficients
are those of the product of polynomials over the integers, divided by the relation with remainder and
then, each one, by the prime.
-/

set_option autoImplicit false

namespace ExecutionLayer.Bn254

open Polynomial

/-! ## The quadratic extension among the residues -/

namespace Fp2

open Fp12 (Residue relation root)

/-- What an element denotes where `i` is `w⁶ - 9`. -/
noncomputable def residue (a : Fp2) : Residue :=
  AdjoinRoot.of relation a.c0 + AdjoinRoot.of relation a.c1 * (root ^ 6 - 9)

theorem imaginary_mul_self : (root ^ 6 - 9) * (root ^ 6 - 9) = (-1 : Residue) := by
  linear_combination Fp12.root_pow_twelve

theorem residue_mul (a b : Fp2) : (a * b).residue = a.residue * b.residue := by
  have real : AdjoinRoot.of relation (a * b).c0 =
      AdjoinRoot.of relation a.c0 * AdjoinRoot.of relation b.c0 -
        AdjoinRoot.of relation a.c1 * AdjoinRoot.of relation b.c1 := by
    rw [← map_mul, ← map_mul, ← map_sub]
    rfl
  have imaginary : AdjoinRoot.of relation (a * b).c1 =
      AdjoinRoot.of relation a.c0 * AdjoinRoot.of relation b.c1 +
        AdjoinRoot.of relation a.c1 * AdjoinRoot.of relation b.c0 := by
    rw [← map_mul, ← map_mul, ← map_add]
    rfl
  rw [residue, residue, residue, real, imaginary]
  linear_combination
    -(AdjoinRoot.of relation a.c1 * AdjoinRoot.of relation b.c1) * imaginary_mul_self

end Fp2

namespace Fp12

/-- A sum with a coefficient at one power only. -/
theorem sum_single (coefficient : Fp) {k : Nat} (below : k < 12) :
    ∑ j : Fin 12, AdjoinRoot.of relation (if j.val = k then coefficient else 0) * root ^ j.val =
      AdjoinRoot.of relation coefficient * root ^ k := by
  rw [Finset.sum_eq_single ⟨k, below⟩]
  · rw [if_pos rfl]
  · intro j _ different
    rw [if_neg fun same => different (Fin.ext same), map_zero, zero_mul]
  · exact fun outside => absurd (Finset.mem_univ _) outside

theorem value_ofFp2 (a : Fp2) {k : Nat} (below : k < 6) :
    (ofFp2 a k).value = a.residue * root ^ k := by
  have split (j : Fin 12) : (ofFp2 a k).coefficients.get j =
      (if j.val = k then a.c0 - a.c1 * 9 else 0) + if j.val = k + 6 then a.c1 else 0 := by
    have listed : (ofFp2 a k).coefficients.get j =
        if j.val = k then a.c0 - a.c1 * 9 else if j.val = k + 6 then a.c1 else 0 :=
      Vector.getElem_ofFn j.isLt
    rw [listed]
    by_cases low : j.val = k
    · rw [if_pos low, if_pos low, if_neg (by omega), add_zero]
    · rw [if_neg low, if_neg low, zero_add]
  have parts : (ofFp2 a k).value =
      AdjoinRoot.of relation (a.c0 - a.c1 * 9) * root ^ k +
        AdjoinRoot.of relation a.c1 * root ^ (k + 6) := by
    rw [← sum_single _ (show k < 12 by omega), ← sum_single a.c1 (show k + 6 < 12 by omega),
      ← Finset.sum_add_distrib, value]
    exact Finset.sum_congr rfl fun j _ => by rw [split, map_add, add_mul]
  rw [parts, map_sub, map_mul, map_ofNat, Fp2.residue]
  ring

/-! ## Exact products -/

/-- The polynomial of a product is the remainder of the product of the polynomials. -/
theorem polynomial_mul (a b : Fp12) :
    (a * b).polynomial = (a.polynomial * b.polynomial) %ₘ relation := by
  have same : AdjoinRoot.mk relation (a * b).polynomial =
      AdjoinRoot.mk relation (a.polynomial * b.polynomial) := by
    rw [← value_eq_mk, map_mul, ← value_eq_mk, ← value_eq_mk, value_mul]
  have reduced : (a * b).polynomial %ₘ relation = (a * b).polynomial := by
    rw [modByMonic_eq_self_iff monic_relation, degree_relation]
    exact degree_polynomial (a * b)
  rw [← reduced]
  exact modByMonic_eq_of_dvd_sub monic_relation (AdjoinRoot.mk_eq_mk.mp same)

/-- The polynomial whose coefficients are the numbers that stand for an element's coefficients. -/
noncomputable def numbers (a : Fp12) : ℤ[X] :=
  ∑ k, C ((a.coefficients.get k).val : ℤ) * X ^ k.val

/-- The relation `w¹² - 18 w⁶ + 82` over the integers. -/
noncomputable def integralRelation : ℤ[X] := X ^ 12 + (C 82 - C 18 * X ^ 6)

theorem map_numbers (a : Fp12) : a.numbers.map (Int.castRingHom Fp) = a.polynomial := by
  simp only [numbers, polynomial, Polynomial.map_sum, Polynomial.map_mul, Polynomial.map_pow,
    map_X, map_C, Int.coe_castRingHom, Int.cast_natCast, Fin.cast_val_eq_self]

theorem map_integralRelation : integralRelation.map (Int.castRingHom Fp) = relation := by
  simp only [integralRelation, relation, Polynomial.map_add, Polynomial.map_sub, Polynomial.map_mul,
    Polynomial.map_pow, map_X, map_C, Int.coe_castRingHom, Int.cast_ofNat]

theorem monic_integralRelation : integralRelation.Monic := by
  apply monic_X_pow_add
  refine (degree_sub_le _ _).trans_lt (max_lt ?_ ?_)
  · exact degree_C_le.trans_lt (by decide)
  · exact (degree_C_mul_X_pow_le 6 18).trans_lt (by decide)

/-- The number that the product over the integers has at a power of `w`. -/
noncomputable def exactCoefficient (a b : Fp12) (k : Nat) : ℤ :=
  ((a.numbers * b.numbers) %ₘ integralRelation).coeff k

theorem get_mul (a b : Fp12) (k : Fin 12) :
    (a * b).coefficients.get k = (exactCoefficient a b k : Fp) := by
  rw [← coeff_polynomial, polynomial_mul, ← map_numbers, ← map_numbers, ← Polynomial.map_mul,
    ← map_integralRelation, ← map_modByMonic _ monic_integralRelation, coeff_map]
  rfl

theorem val_get_mul (a b : Fp12) (k : Fin 12) :
    (((a * b).coefficients.get k).val : ℤ) = exactCoefficient a b k % modulus := by
  have positive : (0 : ℤ) < modulus := by decide
  have remainder : ((exactCoefficient a b k : Fp)).val = (exactCoefficient a b k % modulus).toNat :=
    Fin.val_intCast _
  rw [get_mul, remainder, Int.toNat_of_nonneg (Int.emod_nonneg _ positive.ne')]

/-! ## The embedding -/

theorem mul_ofFp2 (a b : Fp2) {j k : Nat} (below : j + k < 6) :
    ofFp2 a j * ofFp2 b k = ofFp2 (a * b) (j + k) := by
  apply value_injective
  calc (ofFp2 a j * ofFp2 b k).value
      = a.residue * root ^ j * (b.residue * root ^ k) := by
        rw [value_mul, value_ofFp2 a (by omega), value_ofFp2 b (by omega)]
    _ = (a * b).residue * root ^ (j + k) := by
        rw [Fp2.residue_mul, pow_add]
        ring
    _ = (ofFp2 (a * b) (j + k)).value := (value_ofFp2 (a * b) below).symm

/-- Elements of the quadratic extension times powers of `w` are multiplied as the elements are, the
powers adding up. Every coefficient of any product is below the prime, as the remainder of the
number that the exact product has there. -/
theorem embedding_multiplicative :
    (∀ (a b : Fp2) {j k : Nat}, j + k < 6 →
        ofFp2 a j * ofFp2 b k = ofFp2 (a * b) (j + k)) ∧
      ∀ (a b : Fp12) (k : Fin 12), ((a * b).coefficients.get k).val < modulus ∧
        (((a * b).coefficients.get k).val : ℤ) = exactCoefficient a b k % modulus :=
  ⟨mul_ofFp2, fun a b k => ⟨((a * b).coefficients.get k).isLt, val_get_mul a b k⟩⟩

/-- The imaginary unit at two powers of `w`. The number at the sum of the powers is minus one, and
the prime less one stands for it. -/
theorem embedding_multiplicative_imaginary :
    2 + 3 < 6 ∧ ofFp2 ⟨0, 1⟩ 2 * ofFp2 ⟨0, 1⟩ 3 = ofFp2 ⟨-1, 0⟩ 5 ∧
      ((ofFp2 ⟨0, 1⟩ 2 * ofFp2 ⟨0, 1⟩ 3).coefficients.get 5).val < modulus ∧
      ((ofFp2 ⟨0, 1⟩ 2 * ofFp2 ⟨0, 1⟩ 3).coefficients.get 5).val = modulus - 1 := by
  have below : 2 + 3 < 6 := by decide
  have square : (⟨0, 1⟩ * ⟨0, 1⟩ : Fp2) = ⟨-1, 0⟩ := by decide +kernel
  have product := embedding_multiplicative.1 ⟨0, 1⟩ ⟨0, 1⟩ below
  rw [square] at product
  have canonical := (embedding_multiplicative.2 (ofFp2 ⟨0, 1⟩ 2) (ofFp2 ⟨0, 1⟩ 3) 5).1
  refine ⟨below, product, canonical, ?_⟩
  rw [product]
  decide +kernel

end Fp12

end ExecutionLayer.Bn254
