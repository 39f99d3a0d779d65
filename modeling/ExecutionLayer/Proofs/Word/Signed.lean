import Mathlib.Algebra.Group.Int.Defs
import ExecutionLayer.Word

/-!
# Signed words

The signed operations work on magnitudes, masks and unsigned order. Read as two's complement
integers, their results are those of the integers themselves: quotients rounded toward zero with
their remainders, the order, quotients by powers of two rounded down, and truncation to the low
bytes.
-/

set_option autoImplicit false

namespace ExecutionLayer.Word

/-! ## Division -/

theorem negate_eq (word : Word) : word.negate = -word :=
  (BitVec.neg_eq_not_add word).symm

theorem signedDiv_eq_sdiv {a b : Word} (nonzero : b ≠ 0) : signedDiv a b = a.sdiv b := by
  rw [signedDiv, if_neg nonzero, BitVec.sdiv_eq]
  cases left : a.msb <;> cases right : b.msb <;>
    simp [magnitude, isNegative, negate_eq, left, right]

theorem signedMod_eq_srem {a b : Word} (nonzero : b ≠ 0) : signedMod a b = a.srem b := by
  rw [signedMod, if_neg nonzero, BitVec.srem_eq]
  cases left : a.msb <;> cases right : b.msb <;>
    simp [magnitude, isNegative, negate_eq, left, right]

theorem toInt_eq_zero_iff (word : Word) : word.toInt = 0 ↔ word = 0 :=
  BitVec.toInt_inj (y := 0)

theorem signedDiv_eq_ofInt (a b : Word) :
    signedDiv a b = if b.toInt = 0 then 0 else BitVec.ofInt 256 (a.toInt.tdiv b.toInt) := by
  simp only [toInt_eq_zero_iff]
  split
  · rename_i zero
    rw [signedDiv, if_pos zero]
  · rename_i nonzero
    rw [signedDiv_eq_sdiv nonzero, ← BitVec.toInt_inj, BitVec.toInt_sdiv, BitVec.toInt_ofInt]

theorem toInt_signedMod (a b : Word) :
    (signedMod a b).toInt = if b.toInt = 0 then 0 else a.toInt.tmod b.toInt := by
  simp only [toInt_eq_zero_iff]
  split
  · rename_i zero
    rw [signedMod, if_pos zero]
    rfl
  · rename_i nonzero
    rw [signedMod_eq_srem nonzero, BitVec.toInt_srem]

theorem eq_mul_signedDiv_add_signedMod (a : Word) {b : Word} (nonzero : b ≠ 0) :
    a = b * signedDiv a b + signedMod a b := by
  have divides : b.toInt ≠ 0 := fun zero => nonzero ((toInt_eq_zero_iff b).mp zero)
  have remainder : signedMod a b = BitVec.ofInt 256 (a.toInt.tmod b.toInt) := by
    rw [← BitVec.ofInt_toInt (x := signedMod a b), toInt_signedMod, if_neg divides]
  calc a = BitVec.ofInt 256 (b.toInt * a.toInt.tdiv b.toInt + a.toInt.tmod b.toInt) := by
        rw [Int.mul_tdiv_add_tmod, BitVec.ofInt_toInt]
    _ = b * signedDiv a b + signedMod a b := by
        rw [BitVec.ofInt_add, BitVec.ofInt_mul, BitVec.ofInt_toInt, signedDiv_eq_ofInt,
          if_neg divides, remainder]

/-! ## Order -/

theorem compare_congr {a b : Word} (lt : a.toInt < b.toInt ↔ a.toNat < b.toNat)
    (eq : a.toInt = b.toInt ↔ a.toNat = b.toNat) : compare a b = compare a.toInt b.toInt := by
  change compareOfLessAndEq a b = compareOfLessAndEq a.toInt b.toInt
  simp only [compareOfLessAndEq, lt, eq, BitVec.lt_def, BitVec.toNat_inj]

theorem signedCompare_eq (a b : Word) : signedCompare a b = compare a.toInt b.toInt := by
  have left := BitVec.toInt_eq_msb_cond a
  have right := BitVec.toInt_eq_msb_cond b
  have leftBelow := a.isLt
  have rightBelow := b.isLt
  unfold signedCompare isNegative
  cases leftSign : a.msb <;> cases rightSign : b.msb <;>
    simp only [leftSign, rightSign, if_true, if_false, Bool.false_eq_true] at left right ⊢
  · exact compare_congr (by omega) (by omega)
  · have gt : b.toInt < a.toInt := by omega
    exact (Int.compare_eq_gt.mpr gt).symm
  · have lt : a.toInt < b.toInt := by omega
    exact (Int.compare_eq_lt.mpr lt).symm
  · exact compare_congr (by omega) (by omega)

/-! ## Shifts and masks -/

theorem getLsbD_lowMask {width : Nat} (narrow : width < 256) (index : Nat) :
    (lowMask width).getLsbD index = decide (index < width) := by
  have power : 2 ^ width < 2 ^ 256 := Nat.pow_lt_pow_right (by decide) narrow
  have one : ((1 : Word) <<< width).toNat = 2 ^ width := by
    rw [BitVec.toNat_shiftLeft, Nat.shiftLeft_eq]
    exact (congrArg (· % 2 ^ 256) (Nat.one_mul _)).trans (Nat.mod_eq_of_lt power)
  have mask : (lowMask width).toNat = 2 ^ width - 1 := by
    have le : (1 : Word) ≤ (1 : Word) <<< width := by
      rw [BitVec.le_def, one]
      exact Nat.one_le_two_pow
    rw [lowMask, BitVec.toNat_sub_of_le le, one]
    rfl
  rw [BitVec.getLsbD, mask, Nat.testBit_two_pow_sub_one]

/-- The mask sets the bits that the shift leaves free. -/
theorem ushiftRight_or_not_eq_sshiftRight {value : Word} (negative : value.msb = true)
    (shift : Nat) :
    value >>> shift ||| ~~~(BitVec.allOnes 256 >>> shift) = value.sshiftRight shift := by
  apply BitVec.eq_of_getLsbD_eq
  intro index inside
  have kept := decide_eq_false (Nat.not_le.mpr inside)
  rw [BitVec.getLsbD_or, BitVec.getLsbD_not, BitVec.getLsbD_ushiftRight,
    BitVec.getLsbD_ushiftRight, BitVec.getLsbD_allOnes, BitVec.getLsbD_sshiftRight,
    decide_eq_true inside, kept, negative]
  by_cases there : shift + index < 256 <;> simp [there]

theorem shiftRightSigned_eq_sshiftRight (shift value : Word) :
    shiftRightSigned shift value = value.sshiftRight shift.toNat := by
  unfold shiftRightSigned isNegative
  dsimp only
  cases sign : value.msb with
  | false =>
      rw [BitVec.sshiftRight_eq_of_msb_false sign]
      split
      · simp
      · rename_i far
        rw [BitVec.ushiftRight_eq_zero (Nat.le_of_not_lt far)]
        rfl
  | true =>
      split
      · split
        · exact ushiftRight_or_not_eq_sshiftRight sign shift.toNat
        · rename_i unmoved
          have none : shift.toNat = 0 := by simpa using unmoved
          rw [none, BitVec.sshiftRight_zero, BitVec.ushiftRight_zero]
      · rename_i far
        have beyond : 256 ≤ shift.toNat := Nat.le_of_not_lt far
        rw [← ushiftRight_or_not_eq_sshiftRight sign, BitVec.ushiftRight_eq_zero beyond,
          BitVec.ushiftRight_eq_zero beyond]
        rfl

theorem toInt_shiftRightSigned (shift value : Word) :
    (shiftRightSigned shift value).toInt = value.toInt.fdiv (2 ^ shift.toNat) := by
  have positive : (0 : Int) ≤ 2 ^ shift.toNat := Int.le_of_lt (Int.pow_pos (by decide))
  rw [shiftRightSigned_eq_sshiftRight, BitVec.toInt_sshiftRight, Int.shiftRight_eq_div_pow,
    Int.fdiv_eq_ediv_of_nonneg _ positive, Int.natCast_pow]
  rfl

/-- Setting the bits above a bit that is set, and removing them above one that is not, repeats
that bit. -/
theorem extended_eq_signExtend {top : Nat} (narrow : top + 1 < 256) (value : Word) :
    (if value.getLsbD top then value ||| ~~~(lowMask (top + 1)) else value &&& lowMask (top + 1)) =
      (value.setWidth (top + 1)).signExtend 256 := by
  apply BitVec.eq_of_getLsbD_eq
  intro index inside
  have sign : (value.setWidth (top + 1)).msb = value.getLsbD top := by
    simp [BitVec.msb_setWidth]
  rw [BitVec.getLsbD_signExtend, BitVec.getLsbD_setWidth, sign, decide_eq_true inside]
  cases value.getLsbD top with
  | false =>
      rw [if_neg Bool.false_ne_true, BitVec.getLsbD_and, getLsbD_lowMask narrow]
      by_cases low : index < top + 1 <;> simp [low]
  | true =>
      rw [if_pos rfl, BitVec.getLsbD_or, BitVec.getLsbD_not, getLsbD_lowMask narrow,
        decide_eq_true inside]
      by_cases low : index < top + 1 <;> simp [low]

theorem toInt_signExtend {index : Word} (inside : index.toNat < 31) (value : Word) :
    (signExtend index value).toInt = (value.setWidth (8 * (index.toNat + 1))).toInt := by
  have narrow : 8 * index.toNat + 7 + 1 < 256 := by omega
  rw [signExtend, if_pos inside]
  dsimp only
  rw [extended_eq_signExtend narrow, BitVec.toInt_signExtend_of_le (Nat.le_of_lt narrow)]
  rfl

theorem signExtend_of_le {index : Word} (le : 31 ≤ index.toNat) (value : Word) :
    signExtend index value = value := by
  rw [signExtend, if_neg (Nat.not_lt.mpr le)]

/-! ## Signed operations -/

/-- A word denotes an integer from -2^255 to below 2^255, and the signed operations are those of the
integers denoted. A quotient is rounded toward zero and wraps around, its remainder has the sign of
the dividend, and both are zero for a zero divisor. A right shift divides by a power of two and
rounds down, however far it goes. Sign extension reads the low bytes, up to the one it names, as
an integer of their own. -/
theorem signed_operations (a b : Word) :
    (-2 ^ 255 ≤ a.toInt ∧ a.toInt < 2 ^ 255) ∧
      signedDiv a b = (if b.toInt = 0 then 0 else BitVec.ofInt 256 (a.toInt.tdiv b.toInt)) ∧
      (signedMod a b).toInt = (if b.toInt = 0 then 0 else a.toInt.tmod b.toInt) ∧
      (b.toInt ≠ 0 → a = b * signedDiv a b + signedMod a b) ∧
      signedCompare a b = compare a.toInt b.toInt ∧
      (∀ shift : Word, (shiftRightSigned shift a).toInt = a.toInt.fdiv (2 ^ shift.toNat)) ∧
      ∀ index : Word,
        (index.toNat < 31 →
          (signExtend index a).toInt = (a.setWidth (8 * (index.toNat + 1))).toInt) ∧
        (31 ≤ index.toNat → signExtend index a = a) := by
  refine ⟨⟨BitVec.le_toInt a, BitVec.toInt_lt⟩, signedDiv_eq_ofInt a b, toInt_signedMod a b, ?_,
    signedCompare_eq a b, fun shift => toInt_shiftRightSigned shift a, fun index => ?_⟩
  · intro divides
    exact eq_mul_signedDiv_add_signedMod a fun zero => divides ((toInt_eq_zero_iff b).mpr zero)
  · exact ⟨fun inside => toInt_signExtend inside a, fun le => signExtend_of_le le a⟩

/-- The least integer divided by minus one, shifted by the greatest word, and extended from the
byte below the highest and from the highest. -/
theorem signed_operations_least :
    let least : Word := BitVec.intMin 256
    ((-1 : Word).toInt ≠ 0 ∧ least = -1 * signedDiv least (-1) + signedMod least (-1)) ∧
      signedDiv least (-1) = least ∧ (signedMod least (-1)).toInt = 0 ∧
      ((30 : Word).toNat < 31 ∧ (signExtend 30 least).toInt = 0) ∧
      31 ≤ (31 : Word).toNat ∧ signExtend 31 least = least := by
  intro least
  obtain ⟨-, quotient, remainder, whole, -, -, extended⟩ := signed_operations least (-1)
  have nonzero : (-1 : Word).toInt ≠ 0 := by decide
  have below : (30 : Word).toNat < 31 := by decide
  have highest : 31 ≤ (31 : Word).toNat := by decide
  refine ⟨⟨nonzero, whole nonzero⟩, ?_, ?_, ⟨below, ?_⟩, highest, (extended 31).2 highest⟩
  · rw [quotient]
    decide
  · rw [remainder]
    decide
  · rw [(extended 30).1 below]
    decide

end ExecutionLayer.Word
