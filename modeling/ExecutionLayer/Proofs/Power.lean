import ExecutionLayer.Power
import ExecutionLayer.Proofs.Rlp.Numbers
import Mathlib.Algebra.Group.Defs

/-!
# Powers by repeated squaring compute powers

Repeated squaring needs nothing of a product but that it adds exponents.
-/

set_option autoImplicit false

namespace ExecutionLayer

/-- The number that binary digits denote, most significant first. -/
def valueOfDigits (digits : List Bool) : Nat :=
  digits.foldl (fun value digit => 2 * value + digit.toNat) 0

/-! ## Digits of numbers and of byte strings -/

theorem foldl_digits (start : Nat) (digits : List Bool) :
    digits.foldl (fun value digit => 2 * value + digit.toNat) start =
      start * 2 ^ digits.length + valueOfDigits digits := by
  unfold valueOfDigits
  induction digits generalizing start with
  | nil => simp
  | cons digit digits ih =>
      rw [List.foldl_cons, ih, List.foldl_cons, ih (2 * 0 + digit.toNat), List.length_cons,
        Nat.pow_succ]
      simp only [Nat.add_mul, Nat.mul_zero, Nat.zero_add, Nat.add_assoc]
      rw [Nat.mul_comm 2 start, Nat.mul_assoc, Nat.mul_comm 2]

theorem valueOfDigits_append (left right : List Bool) :
    valueOfDigits (left ++ right) =
      valueOfDigits left * 2 ^ right.length + valueOfDigits right := by
  rw [valueOfDigits, List.foldl_append, foldl_digits, ← valueOfDigits]

theorem valueOfDigits_cons (digit : Bool) (digits : List Bool) :
    valueOfDigits (digit :: digits) = digit.toNat * 2 ^ digits.length + valueOfDigits digits := by
  rw [← List.singleton_append, valueOfDigits_append]
  simp [valueOfDigits]

theorem valueOfDigits_binaryDigits (value : Nat) : valueOfDigits (binaryDigits value) = value := by
  induction value using Nat.strongRecOn with
  | ind value ih =>
      by_cases zero : value = 0
      · rw [zero, binaryDigits_zero]
        rfl
      · rw [binaryDigits_of_ne_zero zero, valueOfDigits_append, ih _ (by omega)]
        rcases Nat.mod_two_eq_zero_or_one value with even | odd
        · simp [valueOfDigits, even]
          omega
        · simp [valueOfDigits, odd]
          omega

/-- The digits of a number below some width, most significant first. -/
theorem valueOfDigits_testBit (width value : Nat) :
    valueOfDigits ((List.range width).map fun index => value.testBit (width - 1 - index)) =
      value % 2 ^ width := by
  induction width with
  | zero => simp [valueOfDigits, Nat.mod_one]
  | succ width ih =>
      have rest : (List.range width).map
          ((fun index => value.testBit (width + 1 - 1 - index)) ∘ Nat.succ) =
            (List.range width).map fun index => value.testBit (width - 1 - index) :=
        List.map_congr_left fun index member => by
          simp only [Function.comp_apply]
          congr 1
          omega
      rw [List.range_succ_eq_map, List.map_cons, List.map_map, rest, valueOfDigits_cons, ih,
        Nat.mod_pow_succ, List.length_map, List.length_range, Nat.sub_zero, Nat.add_sub_cancel,
        Nat.toNat_testBit, Nat.mul_comm, Nat.add_comm]

theorem Bytes.valueOfDigits_binaryDigits (bytes : Bytes) :
    valueOfDigits bytes.binaryDigits = bytes.toNat := by
  induction bytes using List.reverseRecOn with
  | nil => rfl
  | append_singleton front last ih =>
      have digits : valueOfDigits ((List.range 8).map fun index => last.toNat.testBit (7 - index)) =
          last.toNat := by
        rw [valueOfDigits_testBit 8, Nat.mod_eq_of_lt last.toNat_lt]
      rw [binaryDigits, List.flatMap_append, ← binaryDigits, valueOfDigits_append, ih,
        toNat_append_singleton, List.flatMap_singleton, digits]
      simp

/-! ## Powers -/

section

variable {α : Type} {one base : α} {mul : α → α → α} {powers : Nat → α}

/-- Repeated squaring follows any sequence of powers, in which products add exponents. -/
theorem powerOfDigits_eq (zeroth : powers 0 = one) (first : powers 1 = base)
    (adds : ∀ i j, powers (i + j) = mul (powers i) (powers j)) (digits : List Bool) :
    powerOfDigits one mul base digits = powers (valueOfDigits digits) := by
  have carried (start : Nat) : digits.foldl
      (fun result digit => if digit then mul (mul result result) base else mul result result)
        (powers start) =
      powers (digits.foldl (fun value digit => 2 * value + digit.toNat) start) := by
    induction digits generalizing start with
    | nil => rfl
    | cons digit digits ih =>
        rw [List.foldl_cons, List.foldl_cons, ← ih, Nat.two_mul]
        cases digit <;> simp [adds, first]
  rw [powerOfDigits, ← zeroth]
  exact carried 0

end

theorem powerModOfDigits_eq (base : Nat) (digits : List Bool) (modulus : Nat) :
    powerModOfDigits base digits modulus = base ^ valueOfDigits digits % modulus := by
  let powers (exponent : Nat) := base ^ exponent % modulus
  have zeroth : powers 0 = 1 % modulus := by simp [powers]
  have first : powers 1 = base % modulus := by simp [powers]
  have adds (i j : Nat) : powers (i + j) = powers i * powers j % modulus := by
    simp [powers, Nat.pow_add, Nat.mul_mod]
  exact powerOfDigits_eq zeroth first adds digits

theorem powerMod_eq (base exponent modulus : Nat) :
    powerMod base exponent modulus = base ^ exponent % modulus := by
  rw [powerMod, powerModOfDigits_eq, valueOfDigits_binaryDigits]

end ExecutionLayer
