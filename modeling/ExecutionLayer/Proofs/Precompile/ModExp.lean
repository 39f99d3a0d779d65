import ExecutionLayer.Precompile.ModExp
import ExecutionLayer.Proofs.Power
import ExecutionLayer.Proofs.Results
import Mathlib.Algebra.Order.Floor.Div
import Mathlib.Data.Nat.Size

/-!
# Modular exponentiation over lengths of any size

Lengths that are clamped to 64 bits, offsets and prices that saturate and a price that is narrowed
differ from unbounded numbers only where neither price can be paid, or where nothing is computed. So
the contract gives what the unclamped lengths ask for.
-/

set_option autoImplicit false

namespace ExecutionLayer.Precompile.ModExp

/-! ## Saturating arithmetic -/

section

variable {width : Nat} (a b : BitVec width)

theorem toNat_saturatingAdd :
    (saturatingAdd a b).toNat = min (a.toNat + b.toNat) (2 ^ width - 1) := by
  unfold saturatingAdd
  split
  · rename_i overflows
    have large : 2 ^ width ≤ a.toNat + b.toNat := of_decide_eq_true overflows
    rw [BitVec.toNat_allOnes]
    omega
  · rename_i fits
    have small : ¬2 ^ width ≤ a.toNat + b.toNat := fun large => fits (decide_eq_true large)
    rw [BitVec.toNat_add_of_not_uaddOverflow fits]
    omega

theorem toNat_saturatingMul :
    (saturatingMul a b).toNat = min (a.toNat * b.toNat) (2 ^ width - 1) := by
  unfold saturatingMul
  split
  · rename_i overflows
    have large : 2 ^ width ≤ a.toNat * b.toNat := of_decide_eq_true overflows
    rw [BitVec.toNat_allOnes]
    omega
  · rename_i fits
    have small : ¬2 ^ width ≤ a.toNat * b.toNat := fun large => fits (decide_eq_true large)
    rw [BitVec.toNat_mul_of_not_umulOverflow fits]
    omega

theorem toNat_larger : (larger a b).toNat = max a.toNat b.toNat := by
  unfold larger
  split
  · rename_i less
    rw [BitVec.lt_def] at less
    omega
  · rename_i notLess
    rw [BitVec.lt_def] at notLess
    omega

end

/-- The greatest number of 64 bits. -/
def lengthLimit : Nat := UInt64.size - 1

theorem toNat_ofNatClamp (number : Nat) :
    (UInt64.ofNatClamp number).toNat = min number lengthLimit := by
  have limit : lengthLimit = UInt64.size - 1 := rfl
  by_cases fits : number < UInt64.size
  · rw [UInt64.toNat_ofNatClamp_of_lt fits]
    omega
  · rw [UInt64.toNat_ofNatClamp_of_le (Nat.not_lt.mp fits)]
    omega

theorem toNat_endOf (start length : UInt64) :
    (endOf start length).toNat = min (start.toNat + length.toNat) lengthLimit :=
  toNat_saturatingAdd start.toBitVec length.toBitVec

/-! ## Prices -/

/-- The price over lengths of any size. -/
def exactPrice (baseLength exponentLength modulusLength head : Nat) : Nat :=
  let iterations := head.size - 1 + 8 * (exponentLength - 32)
  max 200 ((max baseLength modulusLength ⌈/⌉ 8) ^ 2 * max iterations 1 / 3)

theorem bitLength_eq_size (value : Nat) : bitLength value = value.size := by
  unfold bitLength
  split
  · rename_i zero
    rw [zero, Nat.size_zero]
  · rename_i positive
    apply Nat.le_antisymm
    · exact Nat.lt_size.mpr (Nat.log2_self_le positive)
    · exact Nat.size_le.mpr Nat.lt_log2_self

section

variable {head : Nat} (baseLength exponentLength modulusLength : UInt64)

theorem toNat_widened (length : UInt64) :
    (length.toBitVec.setWidth 128).toNat = length.toNat :=
  BitVec.toNat_setWidth_of_le (by decide)

theorem toNat_wordsOf (length : UInt64) : (wordsOf length).toNat = length.toNat ⌈/⌉ 8 := by
  have bound := length.toNat_lt
  have wide := toNat_widened length
  have whole : (length.toBitVec.setWidth 128 % 8 = 0) ↔ length.toNat % 8 = 0 := by
    rw [← BitVec.toNat_inj, BitVec.toNat_umod, wide]
    rfl
  have quotient : (length.toBitVec.setWidth 128 / 8).toNat = length.toNat / 8 := by
    rw [BitVec.toNat_udiv, wide]
    rfl
  unfold wordsOf
  rw [Nat.ceilDiv_eq_add_pred_div, BitVec.toNat_add, quotient]
  split
  · rename_i even
    rw [whole] at even
    rw [show (0 : BitVec 128).toNat = 0 from rfl]
    omega
  · rename_i odd
    rw [whole] at odd
    rw [show (1 : BitVec 128).toNat = 1 from rfl]
    omega

theorem size_le_of_fits (fits : head < 256 ^ 32) : head.size ≤ 256 :=
  Nat.size_le.mpr (by omega)

theorem toNat_iterations (fits : head < 256 ^ 32) :
    (iterations exponentLength head).toNat =
      head.size - 1 + 8 * (exponentLength.toNat - 32) := by
  have bound := exponentLength.toNat_lt
  have few := size_le_of_fits fits
  have wide := toNat_widened exponentLength
  have bits : (BitVec.ofNat 128 (bitLength head - 1)).toNat = head.size - 1 := by
    rw [bitLength_eq_size, BitVec.toNat_ofNat, Nat.mod_eq_of_lt (by omega)]
  unfold iterations
  dsimp only
  split
  · rename_i short
    have short : exponentLength.toNat ≤ 32 := short
    rw [bits]
    omega
  · rename_i long
    have long : ¬exponentLength.toNat ≤ 32 := long
    have enough : (32 : BitVec 128) ≤ exponentLength.toBitVec.setWidth 128 := by
      rw [BitVec.le_def, wide]
      exact (Nat.not_le.mp long).le
    have behind : (exponentLength.toBitVec.setWidth 128 - 32).toNat = exponentLength.toNat - 32 := by
      rw [BitVec.toNat_sub_of_le enough, wide]
      rfl
    rw [toNat_saturatingAdd, toNat_saturatingMul, bits, behind]
    rw [show (8 : BitVec 128).toNat = 8 from rfl]
    omega

/-- A price saturates only where 64 bits do not hold a third of it. -/
theorem toNat_price (fits : head < 256 ^ 32) :
    (price baseLength exponentLength modulusLength head).toNat =
        exactPrice baseLength.toNat exponentLength.toNat modulusLength.toNat head ∨
      2 ^ 64 ≤ (price baseLength exponentLength modulusLength head).toNat ∧
        2 ^ 64 ≤ exactPrice baseLength.toNat exponentLength.toNat modulusLength.toNat head := by
  have words : (wordsOf (max baseLength modulusLength)).toNat =
      max baseLength.toNat modulusLength.toNat ⌈/⌉ 8 := by
    rw [toNat_wordsOf, UInt64.toNat_max]
  have few : max baseLength.toNat modulusLength.toNat ⌈/⌉ 8 ≤ 2 ^ 61 := by
    have bound := baseLength.toNat_lt
    have boundOther := modulusLength.toNat_lt
    rw [Nat.ceilDiv_eq_add_pred_div]
    omega
  unfold price exactPrice
  dsimp only
  rw [toNat_larger, BitVec.toNat_udiv, toNat_saturatingMul, toNat_saturatingMul, toNat_larger,
    toNat_iterations exponentLength fits, words, Nat.pow_two]
  rw [show (1 : BitVec 128).toNat = 1 from rfl, show (3 : BitVec 128).toNat = 3 from rfl,
    show (200 : BitVec 128).toNat = 200 from rfl]
  generalize max baseLength.toNat modulusLength.toNat ⌈/⌉ 8 = count at few
  have square := Nat.mul_le_mul few few
  have exact : min (count * count) (2 ^ 128 - 1) = count * count := by omega
  rw [exact]
  generalize count * count * _ = product
  omega

theorem narrow?_price (fits : head < 256 ^ 32) :
    narrow? (price baseLength exponentLength modulusLength head) =
      if exactPrice baseLength.toNat exponentLength.toNat modulusLength.toNat head < 2 ^ 64 then
        some (UInt64.ofNat
          (exactPrice baseLength.toNat exponentLength.toNat modulusLength.toNat head))
      else none := by
  have size : UInt64.size = 2 ^ 64 := rfl
  rw [narrow?, size]
  rcases toNat_price baseLength exponentLength modulusLength fits with same | ⟨dear, exactDear⟩
  · rw [same]
  · rw [if_neg (Nat.not_lt.mpr dear), if_neg (Nat.not_lt.mpr exactDear)]

end

/-! ## Lengths that can be paid for -/

section

variable {baseLength exponentLength modulusLength head otherHead : Nat}

theorem exactPrice_empty : exactPrice 0 exponentLength 0 head = 200 := by
  have none : (0 : Nat) ⌈/⌉ 8 = 0 := by decide
  simp [exactPrice, none]

/-- A price is at least a third of the iterations for each of the squared words. -/
theorem le_exactPrice {words rounds : Nat} (many : words ≤ max baseLength modulusLength ⌈/⌉ 8)
    (often : rounds ≤ max (head.size - 1 + 8 * (exponentLength - 32)) 1) :
    words * words * rounds / 3 ≤ exactPrice baseLength exponentLength modulusLength head := by
  unfold exactPrice
  dsimp only
  rw [Nat.pow_two]
  exact (Nat.div_le_div_right (Nat.mul_le_mul (Nat.mul_le_mul many many) often)).trans
    (Nat.le_max_right ..)

/-- The lengths have 64 bits, and so have the offsets behind them. An exponent may be longer where
the other operands are empty. -/
def Short (baseLength exponentLength modulusLength : Nat) : Prop :=
  baseLength < 2 ^ 61 ∧ modulusLength < 2 ^ 61 ∧
    (exponentLength < 2 ^ 63 ∨ baseLength = 0 ∧ modulusLength = 0)

theorem short_of_payable
    (payable : exactPrice baseLength exponentLength modulusLength head < 2 ^ 64) :
    Short baseLength exponentLength modulusLength := by
  have operands : max baseLength modulusLength < 2 ^ 61 := by
    by_contra long
    have many : 2 ^ 58 ≤ max baseLength modulusLength ⌈/⌉ 8 := by
      rw [Nat.ceilDiv_eq_add_pred_div]
      omega
    have cost := @le_exactPrice baseLength exponentLength modulusLength head _ 1 many
      (Nat.le_max_right ..)
    omega
  refine ⟨by omega, by omega, ?_⟩
  -- An exponent of any length is cheap, but only over empty operands.
  by_contra long
  have many : 1 ≤ max baseLength modulusLength ⌈/⌉ 8 := by
    rw [Nat.ceilDiv_eq_add_pred_div]
    omega
  have often : 2 ^ 66 - 256 ≤ max (head.size - 1 + 8 * (exponentLength - 32)) 1 := by
    omega
  have cost := le_exactPrice many often
  omega

theorem short_of_clamped (short : Short (min baseLength lengthLimit)
    (min exponentLength lengthLimit) (min modulusLength lengthLimit)) :
    Short baseLength exponentLength modulusLength := by
  have limit : lengthLimit = 2 ^ 64 - 1 := rfl
  unfold Short at short ⊢
  omega

end

/-! ## The contract -/

/-- The value of the exponent's first bytes, at most 32 of them. They stand behind the base. -/
def exponentHead (input : Bytes) (baseLength exponentLength : Nat) : Nat :=
  Bytes.toNat (Bytes.window input (96 + baseLength) (min exponentLength 32))

/-- The power that the operands of the given lengths stand for; zero for a zero modulus. -/
def exactResult (input : Bytes) (baseLength exponentLength modulusLength : Nat) : Nat :=
  let base := Bytes.toNat (Bytes.window input 96 baseLength)
  let exponent := Bytes.toNat (Bytes.window input (96 + baseLength) exponentLength)
  let modulus :=
    Bytes.toNat (Bytes.window input (96 + baseLength + exponentLength) modulusLength)
  if modulus = 0 then 0 else base ^ exponent % modulus

theorem exactResult_lt (input : Bytes) (baseLength exponentLength modulusLength : Nat) :
    exactResult input baseLength exponentLength modulusLength < 256 ^ modulusLength := by
  unfold exactResult
  dsimp only
  split
  · exact Nat.pow_pos (by decide)
  · rename_i positive
    refine (Nat.mod_lt _ (Nat.pos_of_ne_zero positive)).trans ?_
    have fits := Bytes.toNat_lt_pow
      (Bytes.window input (96 + baseLength + exponentLength) modulusLength)
    rwa [Bytes.length_window] at fits

/-- What the operands of the given lengths come to: a power in as many bytes as the modulus has, at
its price. -/
def outcome (input : Bytes) (limit : UInt64) (baseLength exponentLength modulusLength : Nat) :
    Except PrecompileError PrecompileOutput :=
  let price := exactPrice baseLength exponentLength modulusLength
    (exponentHead input baseLength exponentLength)
  if limit.toNat < price then .error .outOfGas
  else .ok ⟨.ofNat price, Bytes.ofNatWidth modulusLength
    (exactResult input baseLength exponentLength modulusLength)⟩

section

variable {baseLength exponentLength modulusLength : Nat} {base exponent modulus : UInt64}

/-- Three lengths that are clamped to 64 bits. -/
structure Clamped (baseLength exponentLength modulusLength : Nat)
    (base exponent modulus : UInt64) : Prop where
  base : base.toNat = min baseLength lengthLimit
  exponent : exponent.toNat = min exponentLength lengthLimit
  modulus : modulus.toNat = min modulusLength lengthLimit

section

variable (clamped : Clamped baseLength exponentLength modulusLength base exponent modulus)
  (short : Short baseLength exponentLength modulusLength)
include clamped short

theorem Clamped.base_eq : base.toNat = baseLength := by
  have limit : lengthLimit = 2 ^ 64 - 1 := rfl
  have few := short.1
  rw [clamped.base]
  omega

theorem Clamped.modulus_eq : modulus.toNat = modulusLength := by
  have limit : lengthLimit = 2 ^ 64 - 1 := rfl
  have few := short.2.1
  rw [clamped.modulus]
  omega

theorem Clamped.start : (endOf 96 base).toNat = 96 + baseLength := by
  have limit : lengthLimit = 2 ^ 64 - 1 := rfl
  have few := short.1
  rw [toNat_endOf, clamped.base_eq short, show (96 : UInt64).toNat = 96 from rfl]
  omega

theorem Clamped.head_eq (input : Bytes) :
    Bytes.toNat (operand input (endOf 96 base) (min exponent 32)) =
      exponentHead input baseLength exponentLength := by
  have front : (min exponent 32).toNat = min exponentLength 32 := by
    have limit : lengthLimit = 2 ^ 64 - 1 := rfl
    rw [UInt64.toNat_min, clamped.exponent, show (32 : UInt64).toNat = 32 from rfl]
    omega
  rw [operand, clamped.start short, front, exponentHead]

theorem Clamped.price_eq (head : Nat) :
    exactPrice base.toNat exponent.toNat modulus.toNat head =
      exactPrice baseLength exponentLength modulusLength head := by
  have limit : lengthLimit = 2 ^ 64 - 1 := rfl
  rw [clamped.base_eq short, clamped.exponent, clamped.modulus_eq short]
  rcases short.2.2 with few | ⟨rfl, rfl⟩
  · rw [Nat.min_eq_left (by omega)]
  · rw [exactPrice_empty, exactPrice_empty]

/-- What is computed where there is something to compute: with clamped lengths and offsets the
same operands are read. -/
theorem Clamped.result_eq (present : modulusLength ≠ 0) (input : Bytes) :
    (let number := Bytes.toNat (operand input 96 base)
      let digits := Bytes.binaryDigits (operand input (endOf 96 base) exponent)
      let divisor := Bytes.toNat (operand input (endOf (endOf 96 base) exponent) modulus)
      if divisor = 0 then 0 else powerModOfDigits number digits divisor) =
      exactResult input baseLength exponentLength modulusLength := by
  have limit : lengthLimit = 2 ^ 64 - 1 := rfl
  have start := clamped.start short
  have fewBase := short.1
  have few := short.2.2
  have exponentEq : exponent.toNat = exponentLength := by
    rw [clamped.exponent]
    omega
  have finish : (endOf (endOf 96 base) exponent).toNat = 96 + baseLength + exponentLength := by
    rw [toNat_endOf, start, exponentEq]
    omega
  simp only [operand, powerModOfDigits_eq, Bytes.valueOfDigits_binaryDigits, start, finish,
    clamped.base_eq short, exponentEq, clamped.modulus_eq short]
  rfl

end

/-- Clamped lengths cost the same if they can be paid for, and are beyond 64 bits together with
the unclamped ones if they cannot. -/
theorem Clamped.narrow?_price
    (clamped : Clamped baseLength exponentLength modulusLength base exponent modulus)
    (input : Bytes) :
    narrow? (price base exponent modulus
        (Bytes.toNat (operand input (endOf 96 base) (min exponent 32)))) =
      let price := exactPrice baseLength exponentLength modulusLength
        (exponentHead input baseLength exponentLength)
      if price < 2 ^ 64 then some (UInt64.ofNat price) else none := by
  have fits : Bytes.toNat (operand input (endOf 96 base) (min exponent 32)) < 256 ^ 32 := by
    refine (Bytes.toNat_lt_pow _).trans_le (Nat.pow_le_pow_right (by decide) ?_)
    rw [operand, Bytes.length_window, UInt64.toNat_min]
    exact Nat.min_le_right ..
  rw [ModExp.narrow?_price base exponent modulus fits]
  by_cases short : Short baseLength exponentLength modulusLength
  · rw [clamped.head_eq short, clamped.price_eq short]
  · have long : ¬Short base.toNat exponent.toNat modulus.toNat := by
      rw [clamped.base, clamped.exponent, clamped.modulus]
      exact fun clampedShort => short (short_of_clamped clampedShort)
    dsimp only
    rw [if_neg fun payable => long (short_of_payable payable),
      if_neg fun payable => short (short_of_payable payable)]

theorem clamped_lengthAt (input : Bytes) :
    Clamped (Bytes.toNat (Bytes.window input 0 32)) (Bytes.toNat (Bytes.window input 32 32))
      (Bytes.toNat (Bytes.window input 64 32)) (lengthAt input 0) (lengthAt input 1)
      (lengthAt input 2) :=
  ⟨toNat_ofNatClamp _, toNat_ofNatClamp _, toNat_ofNatClamp _⟩

theorem run_eq_outcome (input : Bytes) (limit : UInt64) :
    run input limit = outcome input limit (Bytes.toNat (Bytes.window input 0 32))
      (Bytes.toNat (Bytes.window input 32 32)) (Bytes.toNat (Bytes.window input 64 32)) := by
  have clamped := clamped_lengthAt input
  have bound := limit.toNat_lt
  unfold run outcome
  generalize lengthAt input 0 = base, lengthAt input 1 = exponent, lengthAt input 2 = modulus,
    Bytes.toNat (Bytes.window input 0 32) = baseLength,
    Bytes.toNat (Bytes.window input 32 32) = exponentLength,
    Bytes.toNat (Bytes.window input 64 32) = modulusLength at clamped ⊢
  dsimp only
  rw [clamped.narrow?_price]
  dsimp only
  generalize cost_eq : exactPrice baseLength exponentLength modulusLength
    (exponentHead input baseLength exponentLength) = cost
  by_cases payable : cost < 2 ^ 64
  · have short : Short baseLength exponentLength modulusLength :=
      short_of_payable (cost_eq.symm ▸ payable)
    have narrow : (UInt64.ofNat cost ≤ limit) ↔ ¬limit.toNat < cost := by
      rw [UInt64.le_iff_toNat_le, UInt64.toNat_ofNat', Nat.mod_eq_of_lt payable, Nat.not_lt]
    rw [if_pos payable]
    dsimp only
    rw [requireGas]
    by_cases dear : limit.toNat < cost
    · rw [if_pos dear, if_neg (fun cheap => narrow.mp cheap dear)]
      rfl
    · have size := clamped.modulus_eq short
      rw [if_neg dear, if_pos (narrow.mpr dear), ok_bind]
      by_cases empty : modulus = 0
      · rw [if_pos empty, ← size, empty]
        rfl
      · have present : modulusLength ≠ 0 := fun none =>
          empty (UInt64.toNat_inj.mp (size.trans none))
        rw [if_neg empty, ← clamped.result_eq short present input, size]
        rfl
  · have dear : limit.toNat < cost := by omega
    rw [if_neg payable, if_pos dear]
    rfl

end

/-- The contract runs out of gas exactly if the price of the lengths that the input gives exceeds
the limit, be they as large as words can be, and otherwise pays the price and gives the power of
the operands, in as many bytes as the modulus has. -/
theorem run_exact (input : Bytes) (limit : UInt64) :
    let baseLength := Bytes.toNat (Bytes.window input 0 32)
    let exponentLength := Bytes.toNat (Bytes.window input 32 32)
    let modulusLength := Bytes.toNat (Bytes.window input 64 32)
    let price := exactPrice baseLength exponentLength modulusLength
      (exponentHead input baseLength exponentLength)
    (run input limit = .error .outOfGas ↔ limit.toNat < price) ∧
    (price ≤ limit.toNat → ∃ spent output, run input limit = .ok ⟨spent, output⟩ ∧
      spent.toNat = price ∧ output.length = modulusLength ∧
      Bytes.toNat output = exactResult input baseLength exponentLength modulusLength) := by
  intro baseLength exponentLength modulusLength price
  have bound := limit.toNat_lt
  have ran : run input limit = outcome input limit baseLength exponentLength modulusLength :=
    run_eq_outcome input limit
  unfold outcome at ran
  by_cases dear : limit.toNat < price
  · rw [if_pos dear] at ran
    exact ⟨iff_of_true ran dear, fun cheap => absurd dear (Nat.not_lt.mpr cheap)⟩
  · rw [if_neg dear] at ran
    refine ⟨iff_of_false (by simp [ran]) dear, fun cheap => ⟨_, _, ran, ?_, ?_, ?_⟩⟩
    · rw [UInt64.toNat_ofNat', Nat.mod_eq_of_lt (by omega)]
    · exact Bytes.length_ofNatWidth ..
    · exact Bytes.toNat_ofNatWidth (exactResult_lt ..)

/-- Three lengths in front of some bytes. -/
def lengths (base exponent modulus : Nat) (operands : Bytes) : Bytes :=
  Bytes.ofNatWidth 32 base ++ Bytes.ofNatWidth 32 exponent ++ Bytes.ofNatWidth 32 modulus ++
    operands

/-- A modulus whose last byte is behind the end of the input, and an exponent as long as a word
can say, of which nothing is read. -/
theorem run_exact_truncated :
    (exactPrice 1 1 2 5 ≤ 200 ∧ ∃ spent output,
      run (lengths 1 1 2 [3, 5, 1]) 200 = .ok ⟨spent, output⟩ ∧ spent.toNat = 200 ∧
        output.length = 2 ∧ Bytes.toNat output = 3 ^ 5 % 0x0100) ∧
    (exactPrice 0 (2 ^ 256 - 1) 0 0 ≤ 200 ∧ ∃ spent output,
      run (lengths 0 (2 ^ 256 - 1) 0 []) 200 = .ok ⟨spent, output⟩ ∧ spent.toNat = 200 ∧
        output.length = 0 ∧ Bytes.toNat output = 0) := by
  obtain ⟨spent, output, ran, paid, length, value⟩ :=
    (run_exact (lengths 1 1 2 [3, 5, 1]) 200).2 (by decide +kernel)
  obtain ⟨least, nothing, idle, paidLeast, empty, zero⟩ :=
    (run_exact (lengths 0 (2 ^ 256 - 1) 0 []) 200).2 (by decide +kernel)
  exact ⟨⟨by decide +kernel, spent, output, ran, paid.trans (by decide +kernel),
      length.trans (by decide +kernel), value.trans (by decide +kernel)⟩,
    by decide +kernel, least, nothing, idle, paidLeast.trans (by decide +kernel),
    empty.trans (by decide +kernel), zero.trans (by decide +kernel)⟩

end ExecutionLayer.Precompile.ModExp
