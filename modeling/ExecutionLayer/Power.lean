import ExecutionLayer.Bytes

/-!
# Powers by repeated squaring

One pass over the binary digits of the exponent, shared by words, modular
numbers and field extensions.
-/

set_option autoImplicit false

namespace ExecutionLayer

private def prependDigits (value : Nat) (digits : List Bool) : List Bool :=
  if value = 0 then digits else prependDigits (value / 2) ((value % 2 == 1) :: digits)
termination_by value
decreasing_by omega

/-- The binary digits of a number, most significant first; zero has none. -/
def binaryDigits (value : Nat) : List Bool :=
  prependDigits value []

private theorem prependDigits_eq (value : Nat) (digits : List Bool) :
    prependDigits value digits = prependDigits value [] ++ digits := by
  induction value using Nat.strongRecOn generalizing digits with
  | ind value ih =>
      by_cases zero : value = 0
      · simp [prependDigits, zero]
      · have below : value / 2 < value := by omega
        rw [prependDigits, prependDigits.eq_1 value [], if_neg zero, if_neg zero,
          ih _ below (_ :: digits), ih _ below [_], List.append_assoc, List.singleton_append]

theorem binaryDigits_zero : binaryDigits 0 = [] := by
  rw [binaryDigits, prependDigits, if_pos rfl]

/-- The last digit of a number is its parity, behind the digits of its half. -/
theorem binaryDigits_of_ne_zero {value : Nat} (positive : value ≠ 0) :
    binaryDigits value = binaryDigits (value / 2) ++ [value % 2 == 1] := by
  rw [binaryDigits, prependDigits, if_neg positive, prependDigits_eq, binaryDigits]

def Bytes.binaryDigits (bytes : Bytes) : List Bool :=
  bytes.flatMap fun byte => (List.range 8).map fun index => byte.toNat.testBit (7 - index)

/-- The power of `base` whose exponent has the given binary digits, under a product
`mul` with neutral element `one`: each digit squares, and a one digit multiplies. -/
def powerOfDigits {α : Type} (one : α) (mul : α → α → α) (base : α) (digits : List Bool) : α :=
  digits.foldl
    (fun result digit =>
      let square := mul result result
      if digit then mul square base else square)
    one

def power {α : Type} (one : α) (mul : α → α → α) (base : α) (exponent : Nat) : α :=
  powerOfDigits one mul base (binaryDigits exponent)

/-- The power of `base` modulo `modulus` whose exponent has the given binary digits,
with every intermediate value below the modulus. -/
def powerModOfDigits (base : Nat) (digits : List Bool) (modulus : Nat) : Nat :=
  powerOfDigits (1 % modulus) (fun a b => a * b % modulus) (base % modulus) digits

def powerMod (base exponent modulus : Nat) : Nat :=
  powerModOfDigits base (binaryDigits exponent) modulus

end ExecutionLayer
