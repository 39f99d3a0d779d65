import ExecutionLayer.Proofs.Machine.Windows
import ExecutionLayer.Proofs.Rlp.Numbers
import Mathlib.Data.Nat.Digits.Defs

/-!
# What memory holds

A memory is known by its byte at every position, which is zero where no byte exists yet. Growth
changes no byte and a write changes the bytes it writes, so after any edits a position shows the
byte that was last written there.
-/

set_option autoImplicit false

namespace ExecutionLayer

/-! ## Bytes of byte strings -/

namespace Bytes

theorem getElem?_ofNatWidth (width value : Nat) {index : Nat} (inside : index < width) :
    (ofNatWidth width value)[index]? = some (UInt8.ofNat (value / 256 ^ (width - 1 - index))) := by
  induction width generalizing index with
  | zero => cases inside
  | succ width ih =>
      rw [ofNatWidth_eq_cons]
      cases index with
      | zero => rfl
      | succ index =>
          have place : width + 1 - 1 - (index + 1) = width - 1 - index := by omega
          rw [List.getElem?_cons_succ, ih (by omega), place]

theorem getElem?_padRight (bytes : Bytes) (length : Nat) {index : Nat} (inside : index < length) :
    (padRight bytes length)[index]? = some (bytes[index]?.getD 0) := by
  unfold padRight
  dsimp only
  by_cases there : index < bytes.length
  · have kept : index < (bytes.take length).length := by
      rw [List.length_take]
      omega
    rw [List.getElem?_append_left kept, List.getElem?_take_of_lt inside,
      List.getElem?_eq_getElem there, Option.getD_some]
  · have beyond : (bytes.take length).length ≤ index := by
      rw [List.length_take]
      omega
    have padded : index - (bytes.take length).length < length - (bytes.take length).length := by
      omega
    rw [List.getElem?_append_right beyond, List.getElem?_replicate_of_lt padded,
      List.getElem?_eq_none (Nat.le_of_not_lt there), Option.getD_none]

theorem getElem?_window (bytes : Bytes) (offset length : Nat) {index : Nat}
    (inside : index < length) :
    (window bytes offset length)[index]? = some (bytes[offset + index]?.getD 0) := by
  rw [window, getElem?_padRight _ _ inside, List.getElem?_drop]

/-- The number that bytes denote is the one with those digits. -/
theorem toNat_eq_ofDigits (bytes : Bytes) :
    toNat bytes = Nat.ofDigits 256 (bytes.reverse.map UInt8.toNat) := by
  rw [Nat.ofDigits_eq_foldr, List.foldr_map, List.foldr_reverse]
  unfold toNat
  congr 1
  funext value byte
  simp only [Nat.cast_id]
  omega

end Bytes

namespace Memory

/-! ## The byte at a position -/

/-- The byte at a position. Where no byte exists it is zero. -/
def byteAt (memory : Memory) (position : Nat) : UInt8 :=
  memory.bytes[position]?.getD 0

theorem byteAt_empty (position : Nat) : empty.byteAt position = 0 :=
  rfl

/-- Growth neither changes a byte nor brings one back. -/
theorem byteAt_expand (memory : Memory) (range : MemoryRange) (position : Nat) :
    (memory.expand range).byteAt position = memory.byteAt position := by
  obtain ⟨count, grown⟩ := memory.bytes_expand range
  unfold byteAt
  rw [grown]
  by_cases there : position < memory.bytes.size
  · rw [Array.getElem?_append_left there]
  · rw [Array.getElem?_append_right (Nat.le_of_not_lt there), Array.getElem?_replicate,
      Array.getElem?_eq_none (Nat.le_of_not_lt there)]
    split <;> rfl

theorem read_eq (memory : Memory) (range : MemoryRange) :
    memory.read range =
      (List.range range.length).map fun index => memory.byteAt (range.offset + index) := by
  apply List.ext_getElem?
  intro index
  by_cases inside : index < range.length
  · unfold read
    rw [Bytes.getElem?_padRight _ _ inside, List.getElem?_map,
      List.getElem?_range inside, Option.map_some, Array.getElem?_toList]
    unfold byteAt MemoryRange.stop
    rw [Array.getElem?_extract]
    split
    · rfl
    · rw [Array.getElem?_eq_none (by omega)]
  · rw [List.getElem?_eq_none, List.getElem?_eq_none]
    · rw [List.length_map, List.length_range]
      omega
    · rw [read, Bytes.length_padRight]
      omega

/-- Data that the array has room for replaces the bytes from its offset on, and no others. -/
theorem getElem?_overwriteBytes {bytes : Array UInt8} {offset : Nat} {data : Bytes}
    (room : offset + data.length ≤ bytes.size) (position : Nat) :
    (overwriteBytes bytes offset data)[position]? =
      (if offset ≤ position then data[position - offset]? else none).or bytes[position]? := by
  induction data generalizing bytes offset with
  | nil => simp [overwriteBytes]
  | cons byte rest ih =>
      rw [List.length_cons] at room
      have left : offset + 1 + rest.length ≤ (bytes.setIfInBounds offset byte).size := by
        rw [Array.size_setIfInBounds]
        omega
      rw [overwriteBytes, ih left, Array.getElem?_setIfInBounds]
      rcases Nat.lt_trichotomy position offset with before | rfl | behind
      · rw [if_neg (by omega), if_neg (by omega), if_neg (by omega)]
      · rw [if_neg (by omega), if_pos rfl, if_pos (by omega), if_pos (Nat.le_refl _), Nat.sub_self]
        rfl
      · have place : position - offset = position - (offset + 1) + 1 := by omega
        rw [if_pos (by omega), if_neg (by omega), if_pos (by omega), place, List.getElem?_cons_succ]

/-- A write replaces the bytes it writes and no others. -/
theorem byteAt_write (memory : Memory) (offset : Nat) (data : Bytes) (position : Nat) :
    (memory.write offset data).byteAt position =
      (if offset ≤ position then data[position - offset]? else none).getD
        (memory.byteAt position) := by
  rw [← memory.byteAt_expand ⟨offset, data.length⟩ position]
  by_cases nothing : data = []
  · subst nothing
    simp [write, overwriteBytes, byteAt]
  have room : offset + data.length ≤ (memory.expand ⟨offset, data.length⟩).bytes.size := by
    refine (memory.covers_expand ⟨offset, data.length⟩).resolve_left fun isEmpty => nothing ?_
    simpa [MemoryRange.isEmpty] using isEmpty
  have written := getElem?_overwriteBytes room position
  unfold byteAt
  rw [show (memory.write offset data).bytes = overwriteBytes _ offset data from rfl, written]
  split
  · cases data[position - offset]? <;> rfl
  · rfl

/-! ## Edits -/

/-- What code does to a memory. -/
inductive Edit where
  | expand (range : MemoryRange)
  | write (offset : Nat) (data : Bytes)
  | writeWord (offset : Nat) (word : Word)
  | writeByte (offset : Nat) (byte : UInt8)
  | writePadded (range : MemoryRange) (source : Bytes) (start : Nat)

namespace Edit

def apply (memory : Memory) : Edit → Memory
  | .expand range => memory.expand range
  | .write offset data => memory.write offset data
  | .writeWord offset word => memory.writeWord offset word
  | .writeByte offset byte => memory.writeByte offset byte
  | .writePadded range source start => memory.writePadded range source start

/-- The byte that an edit writes at a position, if it writes there. A word has its most
significant byte first, and zeros follow a source. -/
def byteAt? (position : Nat) : Edit → Option UInt8
  | .expand _ => none
  | .write offset data => if offset ≤ position then data[position - offset]? else none
  | .writeWord offset word =>
      if offset ≤ position ∧ position < offset + 32 then
        some (UInt8.ofNat (word.toNat / 256 ^ (31 - (position - offset))))
      else none
  | .writeByte offset byte => if position = offset then some byte else none
  | .writePadded range source start =>
      if range.offset ≤ position ∧ position < range.stop then
        some (source[start + (position - range.offset)]?.getD 0)
      else none

theorem byteAt_apply (memory : Memory) (edit : Edit) (position : Nat) :
    (edit.apply memory).byteAt position = (edit.byteAt? position).getD (memory.byteAt position) := by
  cases edit with
  | expand range => exact memory.byteAt_expand range position
  | write offset data => exact memory.byteAt_write offset data position
  | writeWord offset word =>
      have length : word.toBytes.length = 32 := Bytes.length_ofNatWidth ..
      change (memory.write offset word.toBytes).byteAt position = _
      rw [byteAt_write, byteAt?]
      by_cases inside : offset ≤ position ∧ position < offset + 32
      · have digit := Bytes.getElem?_ofNatWidth 32 word.toNat
          (show position - offset < 32 by omega)
        rw [if_pos inside.1, if_pos inside, Word.toBytes, digit]
      · rw [if_neg inside]
        split
        · rw [List.getElem?_eq_none (by omega)]
        · rfl
  | writeByte offset byte =>
      change (memory.write offset [byte]).byteAt position = _
      rw [byteAt_write, byteAt?]
      rcases Nat.lt_trichotomy position offset with before | rfl | behind
      · rw [if_neg (by omega), if_neg (by omega)]
      · rw [if_pos (Nat.le_refl _), if_pos rfl, Nat.sub_self]
        rfl
      · rw [if_pos (by omega), if_neg (by omega), List.getElem?_eq_none]
        rw [List.length_singleton]
        omega
  | writePadded range source start =>
      have length : (Bytes.window source start range.length).length = range.length :=
        Bytes.length_window ..
      change (memory.write range.offset (Bytes.window source start range.length)).byteAt position = _
      rw [byteAt_write, byteAt?]
      by_cases inside : range.offset ≤ position ∧ position < range.stop
      · have near : position - range.offset < range.length := by
          unfold MemoryRange.stop at inside
          omega
        rw [if_pos inside.1, if_pos inside, Bytes.getElem?_window _ _ _ near]
      · rw [if_neg inside]
        split
        · rename_i behind
          rw [List.getElem?_eq_none]
          rw [length]
          unfold MemoryRange.stop at inside
          omega
        · rfl

end Edit

/-- A new memory after edits, the first of the list first. -/
def edited (edits : List Edit) : Memory :=
  edits.foldl Edit.apply empty

/-- The byte that was last written at a position, or zero if none was. -/
def lastWritten (edits : List Edit) (position : Nat) : UInt8 :=
  (edits.reverse.findSome? (Edit.byteAt? position)).getD 0

theorem byteAt_edited (edits : List Edit) (position : Nat) :
    (edited edits).byteAt position = lastWritten edits position := by
  induction edits using List.reverseRecOn with
  | nil => exact byteAt_empty position
  | append_singleton edits edit ih =>
      have later : edited (edits ++ [edit]) = edit.apply (edited edits) := by
        rw [edited, List.foldl_append]
        rfl
      unfold lastWritten at ih ⊢
      rw [later, Edit.byteAt_apply, ih, List.reverse_append, List.reverse_singleton,
        List.singleton_append, List.findSome?_cons]
      cases edit.byteAt? position <;> rfl

theorem toNat_readWord (memory : Memory) (offset : Nat) :
    (memory.readWord offset).toNat =
      Nat.ofDigits 256 ((memory.read ⟨offset, 32⟩).reverse.map UInt8.toNat) := by
  have length : (memory.read ⟨offset, 32⟩).length = 32 := Bytes.length_padRight ..
  have small : Bytes.toNat (memory.read ⟨offset, 32⟩) < 2 ^ 256 := by
    have digits := Bytes.toNat_lt_pow (memory.read ⟨offset, 32⟩)
    rw [length] at digits
    exact Nat.lt_of_lt_of_le digits (by decide)
  rw [readWord, Word.ofBytes, BitVec.toNat_ofNat, Nat.mod_eq_of_lt small, Bytes.toNat_eq_ofDigits]

/-- Memory is an array of bytes that begins with zeros everywhere. After any edits, whatever their
order and however they overlap, a window shows at each of its positions the byte that was last
written there, or zero. The word at an offset has the 32 bytes there as its digits, the most
significant first. -/
theorem read_edited (edits : List Edit) :
    (∀ range : MemoryRange, (edited edits).read range =
        (List.range range.length).map fun index => lastWritten edits (range.offset + index)) ∧
      ∀ offset, ((edited edits).readWord offset).toNat =
        Nat.ofDigits 256 (((edited edits).read ⟨offset, 32⟩).reverse.map UInt8.toNat) := by
  refine ⟨fun range => ?_, toNat_readWord _⟩
  rw [read_eq]
  simp only [byteAt_edited]

/-- A word over the end of another, growth, and a copy that its source is too short for. -/
example : (edited [.writeWord 0 0x0102, .writeByte 40 7, .expand ⟨100, 1⟩,
    .writePadded ⟨31, 2⟩ [9, 8] 1]).read ⟨30, 11⟩ = [1, 8, 0, 0, 0, 0, 0, 0, 0, 0, 7] := by
  decide +kernel

end Memory

end ExecutionLayer
