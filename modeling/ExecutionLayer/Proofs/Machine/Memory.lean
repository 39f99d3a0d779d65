import ExecutionLayer.Machine.Memory
import ExecutionLayer.Proofs.Results

/-!
# Sizes and prices of memory

Memory grows where a window is made addressable and nowhere else: what is written inside a
window that is there leaves the size as it is. Prices telescope, so that growing step by step
costs what growing at once does.
-/

set_option autoImplicit false

namespace ExecutionLayer

namespace MemoryRange

/-- The window is one that gas may pay for. -/
def Fits (range : MemoryRange) : Prop :=
  range.isEmpty = true ∨ range.stop ≤ limit

theorem fits_ofWords {offset length : Word} {range : MemoryRange}
    (named : ofWords offset length = .ok range) : range.Fits := by
  unfold ofWords at named
  split at named
  · cases named
    exact .inl rfl
  · split at named
    · cases named
    · rename_i near
      cases named
      exact .inr (Nat.not_lt.mp near)

theorem length_sized {offset : Word} {length : Nat} {range : MemoryRange}
    (named : sized offset length = .ok range) (near : length ≤ limit) :
    range.length = length := by
  have whole : (BitVec.ofNat 256 length).toNat = length := by
    rw [BitVec.toNat_ofNat, Nat.mod_eq_of_lt (Nat.lt_of_le_of_lt near (by decide))]
  unfold sized ofWords at named
  split at named
  · rename_i nothing
    cases named
    rw [nothing] at whole
    exact whole
  · split at named
    · cases named
    · cases named
      exact whole

theorem fits_furthest {left right : MemoryRange} (first : left.Fits) (second : right.Fits) :
    (left.furthest right).Fits := by
  unfold furthest
  split
  · exact second
  · split
    · exact first
    · split
      · exact second
      · exact first

end MemoryRange

namespace Memory

/-- The window is addressable. -/
def Covers (memory : Memory) (range : MemoryRange) : Prop :=
  range.isEmpty = true ∨ range.stop ≤ memory.size

theorem size_mod (memory : Memory) : memory.size % 32 = 0 :=
  memory.aligned

theorem size_eq (memory : Memory) : memory.size = memory.wordSize * 32 := by
  have whole := memory.aligned
  unfold wordSize size
  omega

theorem size_expand (memory : Memory) (range : MemoryRange) :
    (memory.expand range).size =
      if range.isEmpty ∨ range.stop ≤ memory.size then memory.size
      else wordsFor range.stop * 32 := by
  unfold expand
  split
  · rfl
  · rename_i beyond
    have short : ¬range.stop ≤ memory.bytes.size := fun near => beyond (.inr near)
    unfold size wordsFor
    simp only [Array.size_append, Array.size_replicate]
    omega

theorem size_le_expand (memory : Memory) (range : MemoryRange) :
    memory.size ≤ (memory.expand range).size := by
  rw [size_expand]
  split
  · exact Nat.le_refl _
  · rename_i beyond
    have short : ¬range.stop ≤ memory.size := fun near => beyond (.inr near)
    unfold wordsFor
    omega

theorem covers_expand (memory : Memory) (range : MemoryRange) :
    (memory.expand range).Covers range := by
  by_cases there : range.isEmpty ∨ range.stop ≤ memory.size
  · rcases there with isEmpty | near
    · exact .inl isEmpty
    · exact .inr (Nat.le_trans near (memory.size_le_expand range))
  · right
    rw [size_expand, if_neg there]
    unfold wordsFor
    omega

theorem Covers.expand_eq {memory : Memory} {range : MemoryRange} (covers : memory.Covers range) :
    memory.expand range = memory :=
  if_pos covers

/-- What is written inside a window that is there lets nothing grow. -/
theorem Covers.size_write {memory : Memory} {offset : Nat} {data : Bytes}
    (covers : memory.Covers ⟨offset, data.length⟩) :
    (memory.write offset data).size = memory.size := by
  unfold write
  dsimp only
  rw [size, size_overwriteBytes, covers.expand_eq]
  rfl

theorem Covers.shorter {memory : Memory} {offset length shorter : Nat}
    (covers : memory.Covers ⟨offset, length⟩) (le : shorter ≤ length) :
    memory.Covers ⟨offset, shorter⟩ := by
  by_cases nothing : shorter = 0
  · left
    rw [nothing]
    rfl
  · rcases covers with isEmpty | near
    · have none : length = 0 := by simpa [MemoryRange.isEmpty] using isEmpty
      omega
    · right
      dsimp only [MemoryRange.stop] at near ⊢
      omega

/-- Making the further of two windows addressable does so for both. -/
theorem Covers.of_furthest {memory : Memory} {left right : MemoryRange}
    (covers : memory.Covers (left.furthest right)) :
    memory.Covers left ∧ memory.Covers right := by
  unfold MemoryRange.furthest at covers
  by_cases leftEmpty : left.isEmpty = true
  · rw [if_pos leftEmpty] at covers
    exact ⟨.inl leftEmpty, covers⟩
  rw [if_neg leftEmpty] at covers
  by_cases rightEmpty : right.isEmpty = true
  · rw [if_pos rightEmpty] at covers
    exact ⟨covers, .inl rightEmpty⟩
  rw [if_neg rightEmpty] at covers
  split at covers
  · rename_i further
    have near := covers.resolve_left rightEmpty
    exact ⟨.inr (Nat.le_trans (Nat.le_of_lt further) near), covers⟩
  · rename_i notFurther
    have near := covers.resolve_left leftEmpty
    exact ⟨covers, .inr (Nat.le_trans (Nat.not_lt.mp notFurther) near)⟩

/-! ## Prices -/

/-- No window that gas may pay for needs more words. -/
def maxWords : Nat := 134217728

theorem wordsFor_le {range : MemoryRange} (near : range.stop ≤ MemoryRange.limit) :
    wordsFor range.stop ≤ maxWords := by
  unfold wordsFor maxWords
  unfold MemoryRange.limit at near
  omega

theorem wordSize_expand_le {memory : Memory} {range : MemoryRange}
    (bounded : memory.wordSize ≤ maxWords) (fits : range.Fits) :
    (memory.expand range).wordSize ≤ maxWords := by
  unfold wordSize at bounded ⊢
  rw [size_expand]
  split
  · exact bounded
  · rename_i beyond
    have near := fits.resolve_left fun isEmpty => beyond (.inl isEmpty)
    rw [Nat.mul_div_cancel _ (by decide)]
    exact wordsFor_le near

/-- Below the greatest size the price does not wrap around. -/
theorem toNat_memoryCost {words : Nat} (le : words ≤ maxWords) :
    (Gas.memoryCost words).toNat = words * words / 512 + 3 * words := by
  have size : maxWords = 134217728 := rfl
  have square : words * words ≤ 18014398509481984 := Nat.mul_le_mul le le
  have count : (UInt64.ofNat words).toNat = words :=
    UInt64.toNat_ofNat_of_lt' (Nat.lt_of_le_of_lt le (by decide))
  have product : (UInt64.ofNat words * UInt64.ofNat words).toNat = words * words := by
    rw [UInt64.toNat_mul, count]
    omega
  have linear : (3 * UInt64.ofNat words).toNat = 3 * words := by
    have three : (3 : UInt64).toNat = 3 := rfl
    rw [UInt64.toNat_mul, count, three]
    omega
  have quadratic : (UInt64.ofNat words * UInt64.ofNat words / 512).toNat = words * words / 512 := by
    have divisor : (512 : UInt64).toNat = 512 := rfl
    rw [UInt64.toNat_div, product, divisor]
  unfold Gas.memoryCost
  dsimp only
  rw [UInt64.toNat_add, quadratic, linear]
  omega

theorem memoryCost_mono {fewer more : Nat} (le : fewer ≤ more) (bounded : more ≤ maxWords) :
    (Gas.memoryCost fewer).toNat ≤ (Gas.memoryCost more).toNat := by
  rw [toNat_memoryCost bounded, toNat_memoryCost (Nat.le_trans le bounded)]
  have square : fewer * fewer ≤ more * more := Nat.mul_le_mul le le
  omega

/-- What growing costs is what the price of the whole memory rises by. -/
theorem toNat_expansionCost {memory : Memory} {range : MemoryRange}
    (bounded : memory.wordSize ≤ maxWords) (fits : range.Fits) :
    (memory.expansionCost range).toNat + (Gas.memoryCost memory.wordSize).toNat =
      (Gas.memoryCost (memory.expand range).wordSize).toNat := by
  have boundedAfter := wordSize_expand_le bounded fits
  by_cases isEmpty : range.isEmpty = true
  · have same : memory.expand range = memory := Covers.expand_eq (.inl isEmpty)
    have free : memory.expansionCost range = 0 := if_pos isEmpty
    rw [same, free]
    exact Nat.zero_add _
  unfold expansionCost Gas.memoryExpansionCost
  rw [if_neg isEmpty]
  by_cases there : range.stop ≤ memory.size
  · have few : wordsFor range.stop ≤ memory.wordSize := by
      have size := memory.size_eq
      unfold wordsFor
      omega
    have same : memory.expand range = memory := Covers.expand_eq (.inr there)
    rw [if_pos few, same]
    exact Nat.zero_add _
  · have more : ¬wordsFor range.stop ≤ memory.wordSize := by
      have size := memory.size_eq
      unfold wordsFor
      omega
    have grown : (memory.expand range).wordSize = wordsFor range.stop := by
      rw [wordSize, size_expand, if_neg (not_or.mpr ⟨isEmpty, there⟩),
        Nat.mul_div_cancel _ (by decide)]
    rw [grown] at boundedAfter ⊢
    have rises := memoryCost_mono (Nat.le_of_lt (Nat.not_le.mp more)) boundedAfter
    rw [if_neg more, UInt64.toNat_sub_of_le _ _ (UInt64.le_iff_toNat_le.mpr rises)]
    omega

end Memory

end ExecutionLayer
