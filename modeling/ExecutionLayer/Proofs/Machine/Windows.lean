import ExecutionLayer.Machine.Frame
import ExecutionLayer.Proofs.Machine.Memory

/-!
# Windows and what they cost

A window asks for words, and a memory that covers it has at least as many. So memories grow to
the greatest of the numbers they are asked for, and the price they were grown for is the price of
that number, whatever the order.
-/

set_option autoImplicit false

namespace ExecutionLayer

/-- The number of words that cover a window. -/
def MemoryRange.words (range : MemoryRange) : Nat :=
  if range.isEmpty then 0 else Memory.wordsFor range.stop

theorem Memory.wordsFor_mono {near far : Nat} (le : near ≤ far) : wordsFor near ≤ wordsFor far := by
  unfold wordsFor
  omega

namespace MemoryRange

theorem words_le {range : MemoryRange} (fits : range.Fits) : range.words ≤ Memory.maxWords := by
  unfold words
  split
  · exact Nat.zero_le _
  · rename_i some
    exact Memory.wordsFor_le (fits.resolve_left some)

theorem words_furthest (left right : MemoryRange) :
    (left.furthest right).words = max left.words right.words := by
  unfold furthest
  by_cases leftEmpty : left.isEmpty = true
  · have none : left.words = 0 := if_pos leftEmpty
    rw [if_pos leftEmpty, none, Nat.zero_max]
  rw [if_neg leftEmpty]
  by_cases rightEmpty : right.isEmpty = true
  · have none : right.words = 0 := if_pos rightEmpty
    rw [if_pos rightEmpty, none, Nat.max_zero]
  have leftWords : left.words = Memory.wordsFor left.stop := if_neg leftEmpty
  have rightWords : right.words = Memory.wordsFor right.stop := if_neg rightEmpty
  rw [if_neg rightEmpty]
  split
  · rename_i further
    have most := Memory.wordsFor_mono (Nat.le_of_lt further)
    rw [leftWords, rightWords, Nat.max_eq_right most]
  · rename_i notFurther
    have most := Memory.wordsFor_mono (Nat.le_of_not_lt notFurther)
    rw [leftWords, rightWords, Nat.max_eq_left most]

end MemoryRange

namespace Memory

/-! ## Growth -/

@[ext]
theorem ext {left right : Memory} (same : left.bytes = right.bytes) : left = right := by
  obtain ⟨bytes, aligned⟩ := left
  obtain ⟨others, alignedOthers⟩ := right
  subst same
  rfl

theorem wordSize_expand (memory : Memory) (range : MemoryRange) :
    (memory.expand range).wordSize = max memory.wordSize range.words := by
  have size := memory.size_eq
  unfold wordSize
  rw [size_expand]
  by_cases isEmpty : range.isEmpty = true
  · have none : range.words = 0 := if_pos isEmpty
    rw [if_pos (.inl isEmpty), none, Nat.max_zero]
  have words : range.words = wordsFor range.stop := if_neg isEmpty
  rw [words]
  split
  · rename_i there
    have near := there.resolve_left isEmpty
    have few : wordsFor range.stop ≤ memory.size / 32 := by
      unfold wordsFor
      omega
    rw [Nat.max_eq_left few]
  · rename_i beyond
    have far : ¬range.stop ≤ memory.size := fun near => beyond (.inr near)
    have more : memory.size / 32 ≤ wordsFor range.stop := by
      unfold wordsFor
      omega
    rw [Nat.mul_div_cancel _ (by decide), Nat.max_eq_right more]

/-- A memory and zeros after it. -/
theorem bytes_expand (memory : Memory) (range : MemoryRange) :
    ∃ count, (memory.expand range).bytes = memory.bytes ++ Array.replicate count 0 := by
  unfold expand
  split
  · exact ⟨0, by simp⟩
  · exact ⟨_, rfl⟩

/-- What grows out of a memory by zeros is known by its number of words. -/
theorem eq_of_wordSize {memory left right : Memory} {some other : Nat}
    (first : left.bytes = memory.bytes ++ Array.replicate some 0)
    (second : right.bytes = memory.bytes ++ Array.replicate other 0)
    (same : left.wordSize = right.wordSize) : left = right := by
  have sizes : left.bytes.size = right.bytes.size := by
    have leftSize : left.bytes.size = left.wordSize * 32 := left.size_eq
    have rightSize : right.bytes.size = right.wordSize * 32 := right.size_eq
    rw [leftSize, rightSize, same]
  rw [first, second, Array.size_append, Array.size_append, Array.size_replicate,
    Array.size_replicate] at sizes
  apply ext
  rw [first, second, Nat.add_left_cancel sizes]

/-- Growing for one window and then for another is growing once for the further one. -/
theorem expand_expand (memory : Memory) (left right : MemoryRange) :
    (memory.expand left).expand right = memory.expand (left.furthest right) := by
  obtain ⟨first, grown⟩ := memory.bytes_expand left
  obtain ⟨second, again⟩ := (memory.expand left).bytes_expand right
  obtain ⟨_, once⟩ := memory.bytes_expand (left.furthest right)
  rw [grown, Array.append_assoc, Array.replicate_append_replicate] at again
  refine eq_of_wordSize again once ?_
  rw [wordSize_expand, wordSize_expand, wordSize_expand, MemoryRange.words_furthest, Nat.max_assoc]

/-! ## Prices without a limit -/

/-- The price of a number of words, however many. -/
def exactCost (words : Nat) : Nat :=
  3 * words + words * words / 512

/-- What a window costs beside what the memory cost, wherever the window ends. -/
def exactExpansion (memory : Memory) (range : MemoryRange) : Nat :=
  exactCost range.words - exactCost memory.wordSize

theorem exactCost_mono {fewer more : Nat} (le : fewer ≤ more) : exactCost fewer ≤ exactCost more := by
  have square : fewer * fewer ≤ more * more := Nat.mul_le_mul le le
  unfold exactCost
  omega

theorem toNat_memoryCost_eq {words : Nat} (le : words ≤ maxWords) :
    (Gas.memoryCost words).toNat = exactCost words := by
  rw [toNat_memoryCost le]
  exact Nat.add_comm _ _

/-- Growing step by step costs what the price rises by. -/
theorem exactCost_expand (memory : Memory) (range : MemoryRange) :
    exactCost (memory.expand range).wordSize =
      exactCost memory.wordSize + memory.exactExpansion range := by
  rw [wordSize_expand]
  unfold exactExpansion
  rcases Nat.le_total memory.wordSize range.words with more | few
  · have rises := exactCost_mono more
    rw [Nat.max_eq_right more]
    omega
  · have falls := exactCost_mono few
    rw [Nat.max_eq_left few]
    omega

/-- The price of a window that gas may pay for is exact over every memory, a memory beyond the
limit included: there the window is addressable and free. -/
theorem toNat_expansionCost_eq (memory : Memory) {range : MemoryRange} (fits : range.Fits) :
    (memory.expansionCost range).toNat = memory.exactExpansion range := by
  have bound := MemoryRange.words_le fits
  unfold expansionCost Gas.memoryExpansionCost exactExpansion
  by_cases isEmpty : range.isEmpty = true
  · have none : range.words = 0 := if_pos isEmpty
    rw [if_pos isEmpty, none]
    exact (Nat.zero_sub _).symm
  have words : range.words = wordsFor range.stop := if_neg isEmpty
  rw [if_neg isEmpty, ← words]
  split
  · rename_i few
    exact (Nat.sub_eq_zero_of_le (exactCost_mono few)).symm
  · rename_i more
    have fewer := Nat.le_of_lt (Nat.not_le.mp more)
    have rises := memoryCost_mono fewer bound
    rw [UInt64.toNat_sub_of_le _ _ (UInt64.le_iff_toNat_le.mpr rises), toNat_memoryCost_eq bound,
      toNat_memoryCost_eq (Nat.le_trans fewer bound)]

end Memory

namespace MemoryRange

/-- The price of the further of two windows is that of one and then of the other. -/
theorem exactExpansion_furthest (memory : Memory) (left right : MemoryRange) :
    memory.exactExpansion (left.furthest right) =
      memory.exactExpansion left + (memory.expand left).exactExpansion right := by
  have once := memory.exactCost_expand (left.furthest right)
  have first := memory.exactCost_expand left
  have second := (memory.expand left).exactCost_expand right
  rw [memory.expand_expand] at second
  omega

end MemoryRange

end ExecutionLayer
