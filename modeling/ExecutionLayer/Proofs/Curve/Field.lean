import ExecutionLayer.Curve.Bn254
import ExecutionLayer.Proofs.Power
import Mathlib.Data.List.Prime
import Mathlib.FieldTheory.Finite.Basic
import Mathlib.NumberTheory.LucasPrimality
import Mathlib.Tactic.NormNum.Prime

/-!
# The prime field of the pairing-friendly curve

The field prime is prime, by a chain of Lucas's tests in which every factor comes before the number
that it belongs to. So powers to the prime less two are inverses, and the coordinates of points form
a field.
-/

set_option autoImplicit false

namespace ExecutionLayer

/-! ## Lucas's test -/

/-- A number, a witness that generates the numbers modulo it, and the prime factors of the number
before it. -/
structure Certificate where
  number : Nat
  witness : Nat
  factors : List Nat

namespace Certificate

variable {known : List Nat}

/-- Lucas's test, where the factors have to be known primes. -/
def passes (known : List Nat) (certificate : Certificate) : Bool :=
  let power (exponent : Nat) := powerMod certificate.witness exponent certificate.number
  certificate.factors.all (· ∈ known) &&
    certificate.factors.prod + 1 == certificate.number &&
    power (certificate.number - 1) == 1 &&
    certificate.factors.all fun factor => power ((certificate.number - 1) / factor) != 1

/-- All certificates pass in order, each number being known afterwards. -/
def allPass : List Nat → List Certificate → Bool
  | _, [] => true
  | known, certificate :: rest =>
      certificate.passes known && allPass (certificate.number :: known) rest

theorem cast_pow_eq_one_iff {number : Nat} (large : 1 < number) (witness exponent : Nat) :
    (witness : ZMod number) ^ exponent = 1 ↔ powerMod witness exponent number = 1 := by
  rw [powerMod_eq, ← Nat.cast_pow, ← Nat.cast_one, ZMod.natCast_eq_natCast_iff',
    Nat.mod_eq_of_lt large]

theorem prime_of_passes (primes : ∀ factor ∈ known, factor.Prime) {certificate : Certificate}
    (passed : certificate.passes known = true) : certificate.number.Prime := by
  simp only [passes, Bool.and_eq_true, List.all_eq_true, decide_eq_true_eq, beq_iff_eq,
    bne_iff_ne] at passed
  obtain ⟨⟨⟨listed, product⟩, whole⟩, parts⟩ := passed
  have positive : certificate.factors.prod ≠ 0 :=
    List.prod_ne_zero fun zero => (primes 0 (listed 0 zero)).ne_zero rfl
  have large : 1 < certificate.number := by omega
  apply lucas_primality certificate.number certificate.witness
  · exact (cast_pow_eq_one_iff large ..).mpr whole
  · intro factor prime divides
    rw [← product, Nat.add_sub_cancel] at divides
    obtain ⟨other, member, dividesOther⟩ := (prime.prime.dvd_prod_iff).mp divides
    cases (Nat.prime_dvd_prime_iff_eq prime (primes other (listed other member))).mp dividesOther
    exact fun trivial => parts factor member ((cast_pow_eq_one_iff large ..).mp trivial)

theorem prime_of_allPass {certificates : List Certificate}
    (primes : ∀ factor ∈ known, factor.Prime) (passed : allPass known certificates = true) :
    ∀ certificate ∈ certificates, certificate.number.Prime := by
  induction certificates generalizing known with
  | nil => simp
  | cons certificate rest ih =>
      rw [allPass, Bool.and_eq_true] at passed
      have prime := prime_of_passes primes passed.1
      -- The number is a known prime to the certificates behind this one.
      have more : ∀ factor ∈ certificate.number :: known, factor.Prime :=
        List.forall_mem_cons.mpr ⟨prime, primes⟩
      exact List.forall_mem_cons.mpr ⟨prime, ih more passed.2⟩

end Certificate

namespace Bn254

/-! ## The field prime -/

/-- The small factors in the certificates. -/
def smallPrimes : List Nat :=
  [2, 3, 5, 7, 11, 13, 17, 19, 29, 37, 41, 67, 73, 89, 109, 229, 233, 271, 311, 911, 983, 1231,
    2221, 3557, 3691, 4999, 11003]

/-- The field prime's certificate behind those of its great factors. -/
def certificates : List Certificate :=
  [⟨405928799, 22, [2, 11, 3691, 4999]⟩,
    ⟨327599, 19, [2, 19, 37, 233]⟩,
    ⟨11465965001, 3, [2, 2, 2, 5, 5, 5, 5, 7, 327599]⟩,
    ⟨1853641, 17, [2, 2, 2, 3, 3, 5, 19, 271]⟩,
    ⟨4562087, 5, [2, 17, 109, 1231]⟩,
    ⟨13327, 3, [2, 3, 2221]⟩,
    ⟨173171039, 13, [2, 73, 89, 13327]⟩,
    ⟨1263766531, 10, [2, 3, 5, 13, 911, 3557]⟩,
    ⟨35385462869, 2, [2, 2, 7, 1263766531]⟩,
    ⟨2480874801745591, 6, [2, 3, 3, 5, 19, 41, 35385462869]⟩,
    ⟨13427688667394608761327070753331941386769, 17,
      [2, 2, 2, 2, 3, 7, 11, 1853641, 4562087, 173171039, 2480874801745591]⟩,
    ⟨modulus, 3,
      [2, 3, 3, 13, 29, 67, 229, 311, 983, 11003, 405928799, 11465965001,
        13427688667394608761327070753331941386769]⟩]

theorem prime_modulus : modulus.Prime := by
  have small : ∀ factor ∈ smallPrimes, factor.Prime := by
    simp only [smallPrimes, List.forall_mem_cons]
    norm_num
  have passed : Certificate.allPass smallPrimes certificates = true := by decide +kernel
  exact Certificate.prime_of_allPass small passed _ (List.getLast_mem (List.cons_ne_nil _ _))

/-! ## The field -/

/-- Fermat's little theorem, for the power by which inverses are computed. -/
theorem mul_inv_eq_one (a : Fp) (nonzero : a ≠ 0) : a * a⁻¹ = 1 := by
  have large : 1 < modulus := prime_modulus.one_lt
  have positive : a.val ≠ 0 := fun zero => nonzero (Fin.ext zero)
  have coprime : a.val.Coprime modulus :=
    (Nat.coprime_of_lt_prime positive a.isLt prime_modulus).symm
  have fermat := Nat.ModEq.pow_totient coprime
  rw [Nat.totient_prime prime_modulus, Nat.ModEq, Nat.mod_eq_of_lt large] at fermat
  apply Fin.ext
  have inverse : (a⁻¹).val = a.val ^ (modulus - 2) % modulus := by
    change powerMod a.val (modulus - 2) modulus % modulus = _
    rw [powerMod_eq, Nat.mod_mod]
  have exponent : modulus - 1 = modulus - 2 + 1 := by omega
  rw [exponent, Nat.pow_succ'] at fermat
  rw [Fin.val_mul, inverse, Nat.mul_mod_mod, fermat]
  rfl

open Fin.CommRing in
/-- The field of coordinates, with the operations that points are computed with. -/
instance : Field Fp where
  toCommRing := Fin.instCommRing modulus
  inv := Inv.inv
  div := fun a b => a * b⁻¹
  exists_pair_ne := ⟨0, 1, by decide⟩
  mul_inv_cancel := mul_inv_eq_one
  inv_zero := by decide +kernel
  nnqsmul := _
  nnqsmul_def := fun _ _ => rfl
  qsmul := _
  qsmul_def := fun _ _ => rfl

end Bn254

end ExecutionLayer
