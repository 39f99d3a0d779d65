import ExecutionLayer.Code
import Mathlib.Data.Nat.Bitwise

/-!
# Jump destinations

Reading code from its first byte, instruction after instruction, finds the positions at which
instructions begin. The bitmap of a code marks those of them that hold a jump destination
instruction, and nothing else.
-/

set_option autoImplicit false

namespace ExecutionLayer.Code

/-- A position that reading instructions from the first byte on comes to. -/
inductive Boundary (code : Code) : Nat → Prop where
  | first : Boundary code 0
  | next {position : Nat} (boundary : Boundary code position) (inside : position < code.size) :
      Boundary code (position + 1 + immediateLength (code.opcodeAt position))

theorem immediateLength_eq (opcode : UInt8) :
    immediateLength opcode =
      if 0x60 ≤ opcode.toNat ∧ opcode.toNat ≤ 0x7F then opcode.toNat - 0x5F else 0 := by
  have push : 0x60 ≤ opcode ∧ opcode ≤ 0x7F ↔ 0x60 ≤ opcode.toNat ∧ opcode.toNat ≤ 0x7F := by
    rw [UInt8.le_iff_toNat_le, UInt8.le_iff_toNat_le]
    rfl
  unfold immediateLength
  simp only [push]
  split
  · rename_i inside
    rw [UInt8.toNat_sub_of_le]
    · rfl
    · exact UInt8.le_iff_toNat_le.mpr ((Nat.le_succ 0x5F).trans inside.1)
  · rfl

/-! ## The bitmap -/

section

variable {bitmap : Array UInt64} {position : Nat}

theorem toNat_bit (position : Nat) : (bit position).toNat = 2 ^ (position % 64) := by
  have small : position % 64 < 64 := Nat.mod_lt _ (by decide)
  have fits : 2 ^ (position % 64) < 2 ^ 64 := Nat.pow_lt_pow_right (by decide) small
  have shift : (UInt64.ofNat (position % 64)).toNat = position % 64 :=
    Nat.mod_eq_of_lt (small.trans (by decide))
  rw [bit, UInt64.toNat_shiftLeft, shift, Nat.mod_mod, UInt64.toNat_one, Nat.one_shiftLeft,
    Nat.mod_eq_of_lt fits]

theorem and_bit_ne_zero_iff (word : UInt64) (position : Nat) :
    word &&& bit position ≠ 0 ↔ word.toNat.testBit (position % 64) = true := by
  rw [ne_eq, ← UInt64.toNat_inj, UInt64.toNat_and, toNat_bit, UInt64.toNat_zero, Nat.and_two_pow]
  cases word.toNat.testBit (position % 64) <;> simp

theorem isMarked_iff : isMarked bitmap position = true ↔
    ∃ word, bitmap[position / 64]? = some word ∧
      word.toNat.testBit (position % 64) = true := by
  unfold isMarked
  cases bitmap[position / 64]? with
  | none => simp
  | some word => simp [← and_bit_ne_zero_iff]

theorem isMarked_mark {marked : Nat} (inside : marked / 64 < bitmap.size) :
    isMarked (mark bitmap marked) position = true ↔
      isMarked bitmap position = true ∨ position = marked := by
  rw [isMarked_iff, isMarked_iff, mark, Array.getElem?_modify]
  split
  · rename_i sameWord
    have sameBit : marked % 64 = position % 64 ↔ position = marked := by omega
    rw [sameWord] at inside
    simp only [Array.getElem?_eq_getElem inside, Option.map_some, Option.some.injEq,
      exists_eq_left', UInt64.toNat_or, toNat_bit, Nat.testBit_or, Nat.testBit_two_pow, sameBit,
      Bool.or_eq_true, decide_eq_true_eq]
  · rename_i otherWord
    have other : position ≠ marked := fun same => otherWord (same ▸ rfl)
    simp only [other, or_false]

theorem isMarked_ite_mark {found : Prop} [Decidable found] {marked : Nat}
    (inside : marked / 64 < bitmap.size) :
    isMarked (if found then mark bitmap marked else bitmap) position = true ↔
      isMarked bitmap position = true ∨ found ∧ position = marked := by
  split
  · rename_i holds
    simp only [isMarked_mark inside, holds, true_and]
  · rename_i fails
    simp only [fails, false_and, or_false]

theorem isMarked_replicate (count : Nat) :
    isMarked (Array.replicate count 0) position = false := by
  refine Bool.eq_false_iff.mpr fun marked => ?_
  obtain ⟨word, found, bit⟩ := isMarked_iff.mp marked
  obtain ⟨-, rfl⟩ : position / 64 < count ∧ 0 = word := by
    simpa [Array.getElem?_replicate] using found
  simp at bit

end

/-! ## The marked positions -/

variable {code : Code}

theorem drop_succ_of_drop_eq_cons {bytes : Bytes} {position : Nat} {byte : UInt8} {rest : Bytes}
    (split : bytes.drop position = byte :: rest) : bytes.drop (position + 1) = rest := by
  rw [← List.drop_drop, split, List.drop_succ_cons, List.drop_zero]

theorem opcodeAt_of_getElem? {position : Nat} {byte : UInt8}
    (found : code.toBytes[position]? = some byte) :
    code.opcodeAt position = byte ∧ position < code.size := by
  obtain ⟨inside, -⟩ := List.getElem?_eq_some_iff.mp found
  rw [opcodeAt, Array.getD_eq_getD_getElem?, ← Array.getElem?_toList]
  exact ⟨congrArg (Option.getD · 0) found, by simpa [toBytes, size] using inside⟩

/-- No instruction begins inside another one. -/
theorem Boundary.next_le {first second : Nat} (boundary : code.Boundary first)
    (later : code.Boundary second) (lt : first < second) :
    first + 1 + immediateLength (code.opcodeAt first) ≤ second := by
  -- The second instruction has one before it. That one begins neither before the first one,
  -- which would then be inside of it, nor behind, where the second one would come too early.
  cases later with
  | first => exact absurd lt (Nat.not_lt_zero first)
  | @next position earlier inside =>
      rcases Nat.lt_trichotomy first position with before | rfl | behind
      · have reached := boundary.next_le earlier before
        omega
      · exact Nat.le_refl _
      · have reached := earlier.next_le boundary behind
        omega
termination_by first + second

/-- An instruction at `start` or behind it that is a jump destination. -/
def DestinationFrom (code : Code) (start position : Nat) : Prop :=
  start ≤ position ∧ code.Boundary position ∧ code.toBytes[position]? = some jumpDestOpcode

theorem destinationFrom_iff {start position : Nat} {byte : UInt8}
    (found : code.toBytes[start]? = some byte) :
    code.DestinationFrom start position ↔
      (code.Boundary start ∧ byte = jumpDestOpcode) ∧ position = start ∨
        code.DestinationFrom (start + 1) position := by
  unfold DestinationFrom
  rcases Nat.lt_trichotomy start position with behind | rfl | before
  · have ne := Nat.ne_of_gt behind
    simp only [behind.le, Nat.succ_le_of_lt behind, ne, and_false, false_or]
  · have gone := Nat.not_succ_le_self start
    simp only [Nat.le_refl, found, Option.some.injEq, gone, true_and, and_true, false_and, or_false]
  · have ne := Nat.ne_of_lt before
    have gone := Nat.not_le.mpr (before.trans (Nat.lt_succ_self start))
    simp only [Nat.not_le.mpr before, ne, gone, and_false, false_and, or_false]

/-- From a position on, behind the bytes to be skipped, the marks follow the boundaries. -/
theorem isMarked_markDestinations {bitmap : Array UInt64} {start skip position : Nat}
    {rest : Bytes} (split : code.toBytes.drop start = rest)
    (boundary : code.Boundary (start + skip))
    (skipped : ∀ {later}, code.Boundary later → start ≤ later → start + skip ≤ later)
    (room : code.size ≤ 64 * bitmap.size) :
    isMarked (markDestinations bitmap start skip rest) position = true ↔
      isMarked bitmap position = true ∨ code.DestinationFrom start position := by
  induction rest generalizing bitmap start skip with
  | nil =>
      have past : ¬ code.DestinationFrom start position := by
        rintro ⟨le, -, found⟩
        have inside := (List.getElem?_eq_some_iff.mp found).1
        have ended := List.drop_eq_nil_iff.mp split
        omega
      simp only [markDestinations, past, or_false]
  | cons byte rest ih =>
      have found : code.toBytes[start]? = some byte := by
        rw [← List.head?_drop, split, List.head?_cons]
      have later := drop_succ_of_drop_eq_cons split
      rw [destinationFrom_iff found]
      cases skip with
      | succ skip =>
          have inside : ¬ code.Boundary start := fun here => by
            have := skipped here (Nat.le_refl start)
            omega
          rw [markDestinations, ih later (by rwa [Nat.add_right_comm]) ?_ room]
          · simp only [inside, false_and, false_or]
          · intro other here le
            have := skipped here (Nat.le_of_succ_le le)
            omega
      | zero =>
          rw [Nat.add_zero] at boundary
          obtain ⟨opcode, inside⟩ := opcodeAt_of_getElem? found
          have ahead := boundary.next inside
          rw [opcode] at ahead
          have next_le {other : Nat} (here : code.Boundary other) (le : start + 1 ≤ other) :
              start + 1 + immediateLength byte ≤ other :=
            opcode ▸ boundary.next_le here le
          have marked : start / 64 < bitmap.size :=
            Nat.div_lt_of_lt_mul (Nat.lt_of_lt_of_le inside room)
          rw [markDestinations, ih later ahead next_le, isMarked_ite_mark marked, or_assoc]
          · simp only [boundary, true_and]
          · rwa [apply_ite Array.size, mark, Array.size_modify, ite_self]

theorem isJumpDestination_iff {position : Nat} :
    code.isJumpDestination position = true ↔
      code.Boundary position ∧ code.toBytes[position]? = some jumpDestOpcode := by
  have room : code.size ≤
      64 * (Array.replicate ((code.toBytes.length + 63) / 64) (0 : UInt64)).size := by
    rw [Array.size_replicate, size, toBytes, Array.length_toList]
    omega
  rw [isJumpDestination, code.destinations_eq, destinationBitmap]
  refine (@isMarked_markDestinations code _ 0 0 _ _ rfl .first (fun _ le => le) room).trans ?_
  simp only [isMarked_replicate, DestinationFrom, Nat.zero_le, Bool.false_eq_true, false_or,
    true_and]

end ExecutionLayer.Code
