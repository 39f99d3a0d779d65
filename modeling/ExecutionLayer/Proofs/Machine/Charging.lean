import ExecutionLayer.Instruction.Call
import ExecutionLayer.Proofs.Instruction.Memory
import ExecutionLayer.Proofs.Machine.Windows
import Mathlib.Data.List.Perm.Basic

/-!
# Charges for many windows

Charging for windows one after another is charging once for the one that ends furthest out. So
neither what is paid nor the memory that results depends on the order of the windows.
-/

set_option autoImplicit false

namespace ExecutionLayer

namespace MemoryRange

theorem fits_empty : MemoryRange.empty.Fits := .inl rfl

theorem fits_foldl {windows : List MemoryRange} {first : MemoryRange} (fitsFirst : first.Fits)
    (fits : ∀ window ∈ windows, window.Fits) : (windows.foldl furthest first).Fits := by
  induction windows generalizing first with
  | nil => exact fitsFirst
  | cons window rest ih =>
      exact ih (fits_furthest fitsFirst (fits window List.mem_cons_self)) fun other member =>
        fits other (List.mem_cons_of_mem _ member)

theorem words_foldl (windows : List MemoryRange) (first : MemoryRange) :
    (windows.foldl furthest first).words =
      windows.foldl (fun most window => max most window.words) first.words := by
  induction windows generalizing first with
  | nil => rfl
  | cons window rest ih => rw [List.foldl_cons, ih, words_furthest, List.foldl_cons]

/-- Which window ends furthest out may depend on the order, but not how many words it asks for. -/
theorem words_foldl_perm {windows reordered : List MemoryRange} (perm : windows.Perm reordered)
    (first : MemoryRange) :
    (reordered.foldl furthest first).words = (windows.foldl furthest first).words := by
  rw [words_foldl, words_foldl]
  refine (perm.foldl_eq' (fun left _ right _ most => ?_) first.words).symm
  exact Nat.max_right_comm ..

end MemoryRange

namespace Memory

/-- What charging for windows one after another takes in sum, and the memory it leaves. -/
def chargeAll (memory : Memory) : List MemoryRange → Nat × Memory
  | [] => (0, memory)
  | window :: rest =>
      let (later, grown) := (memory.expand window).chargeAll rest
      ((memory.expansionCost window).toNat + later, grown)

theorem memory_chargeAll (memory : Memory) (windows : List MemoryRange) :
    (memory.chargeAll windows).2 = windows.foldl expand memory := by
  induction windows generalizing memory with
  | nil => rfl
  | cons window rest ih => exact ih (memory.expand window)

/-- The charges add up to what the price of the whole memory rises by. -/
theorem total_chargeAll (memory : Memory) {windows : List MemoryRange}
    (fits : ∀ window ∈ windows, window.Fits) :
    exactCost (windows.foldl expand memory).wordSize =
      exactCost memory.wordSize + (memory.chargeAll windows).1 := by
  induction windows generalizing memory with
  | nil => rfl
  | cons window rest ih =>
      have here := memory.exactCost_expand window
      have charged := memory.toNat_expansionCost_eq (fits window List.mem_cons_self)
      have later := ih (memory.expand window) fun other member =>
        fits other (List.mem_cons_of_mem _ member)
      simp only [chargeAll, List.foldl_cons]
      omega

theorem foldl_expand (memory : Memory) (windows : List MemoryRange) (first : MemoryRange) :
    windows.foldl expand (memory.expand first) =
      memory.expand (windows.foldl MemoryRange.furthest first) := by
  induction windows generalizing first with
  | nil => rfl
  | cons window rest ih => rw [List.foldl_cons, expand_expand, ih, List.foldl_cons]

/-- Charging for windows one after another is charging once for the furthest. -/
theorem chargeAll_eq (memory : Memory) {windows : List MemoryRange}
    (fits : ∀ window ∈ windows, window.Fits) :
    memory.chargeAll windows =
      ((memory.expansionCost (windows.foldl MemoryRange.furthest .empty)).toNat,
        memory.expand (windows.foldl MemoryRange.furthest .empty)) := by
  have fitsFurthest := MemoryRange.fits_foldl MemoryRange.fits_empty fits
  have grown : windows.foldl expand memory = _ := memory.foldl_expand windows .empty
  have total := memory.total_chargeAll fits
  have once := memory.exactCost_expand (windows.foldl MemoryRange.furthest .empty)
  rw [grown] at total
  apply Prod.ext
  · dsimp only
    rw [memory.toNat_expansionCost_eq fitsFurthest]
    omega
  · exact (memory.memory_chargeAll windows).trans grown

/-- Windows that ask for as many words cost as much and leave the same memory. -/
theorem expand_congr (memory : Memory) {left right : MemoryRange} (same : left.words = right.words) :
    memory.expand left = memory.expand right := by
  obtain ⟨_, first⟩ := memory.bytes_expand left
  obtain ⟨_, second⟩ := memory.bytes_expand right
  apply eq_of_wordSize first second
  rw [wordSize_expand, wordSize_expand, same]

theorem exactExpansion_congr (memory : Memory) {left right : MemoryRange}
    (same : left.words = right.words) :
    memory.exactExpansion left = memory.exactExpansion right := by
  unfold exactExpansion
  rw [same]

end Memory

namespace Frame

/-- A frame pays for a window that gas may pay for if it has what the window costs exactly. -/
theorem chargeMemory_eq (frame : Frame) {range : MemoryRange} (fits : range.Fits) :
    frame.chargeMemory range =
      if frame.memory.exactExpansion range ≤ frame.gas.toNat then
        .ok { frame with
          gas := UInt64.ofNat (frame.gas.toNat - frame.memory.exactExpansion range)
          memory := frame.memory.expand range }
      else .error .insufficientGas := by
  have cost := frame.memory.toNat_expansionCost_eq fits
  have enough : frame.memory.expansionCost range ≤ frame.gas ↔
      frame.memory.exactExpansion range ≤ frame.gas.toNat := by
    rw [UInt64.le_iff_toNat_le, cost]
  unfold chargeMemory useGas
  by_cases pays : frame.memory.exactExpansion range ≤ frame.gas.toNat
  · have left : frame.gas - frame.memory.expansionCost range =
        UInt64.ofNat (frame.gas.toNat - frame.memory.exactExpansion range) := by
      rw [← UInt64.toNat_inj, UInt64.toNat_sub_of_le _ _ (enough.mpr pays), cost,
        UInt64.toNat_ofNat_of_lt' (Nat.lt_of_le_of_lt (Nat.sub_le _ _) frame.gas.toNat_lt_size)]
    rw [if_pos pays, if_pos (enough.mpr pays), left]
    rfl
  · rw [if_neg pays, if_neg (mt enough.mp pays)]
    rfl

theorem chargeMemory_eq_ok {frame charged : Frame} {range : MemoryRange} (fits : range.Fits)
    (paid : frame.chargeMemory range = .ok charged) :
    charged.gas.toNat + frame.memory.exactExpansion range = frame.gas.toNat ∧
      charged.memory = frame.memory.expand range := by
  rw [frame.chargeMemory_eq fits] at paid
  split at paid
  · rename_i enough
    cases paid
    have bound := frame.gas.toNat_lt
    refine ⟨?_, rfl⟩
    dsimp only
    rw [UInt64.toNat_ofNat', Nat.mod_eq_of_lt (by omega)]
    omega
  · cases paid

/-- Paying for one window and then for another is paying once for the further one. -/
theorem chargeMemory_chargeMemory (frame : Frame) {left right : MemoryRange} (first : left.Fits)
    (second : right.Fits) :
    (do (← frame.chargeMemory left).chargeMemory right) =
      frame.chargeMemory (left.furthest right) := by
  have both := MemoryRange.exactExpansion_furthest frame.memory left right
  have once := frame.chargeMemory_eq (MemoryRange.fits_furthest first second)
  have rest : (UInt64.ofNat (frame.gas.toNat - frame.memory.exactExpansion left)).toNat =
      frame.gas.toNat - frame.memory.exactExpansion left :=
    UInt64.toNat_ofNat_of_lt' (Nat.lt_of_le_of_lt (Nat.sub_le _ _) frame.gas.toNat_lt_size)
  rw [chargeMemory_eq frame first, once]
  by_cases pays : frame.memory.exactExpansion left ≤ frame.gas.toNat
  · rw [if_pos pays, ok_bind, chargeMemory_eq _ second]
    have whether :
        (frame.memory.expand left).exactExpansion right ≤
            frame.gas.toNat - frame.memory.exactExpansion left ↔
          frame.memory.exactExpansion left + (frame.memory.expand left).exactExpansion right ≤
            frame.gas.toNat := by
      omega
    simp only [rest, Memory.expand_expand, both, Nat.sub_sub, whether]
  · rw [if_neg pays, if_neg (by omega)]
    rfl

theorem chargeMemory_empty (frame : Frame) : frame.chargeMemory .empty = .ok frame := by
  have free : frame.memory.exactExpansion .empty = 0 := Nat.zero_sub _
  rw [chargeMemory_eq frame (.inl rfl), free, if_pos (Nat.zero_le _)]
  simp only [Nat.sub_zero, UInt64.ofNat_toNat]
  rfl

theorem foldlM_chargeMemory (frame : Frame) {windows : List MemoryRange} {first : MemoryRange}
    (fitsFirst : first.Fits) (fits : ∀ window ∈ windows, window.Fits) :
    (do windows.foldlM chargeMemory (← frame.chargeMemory first)) =
      frame.chargeMemory (windows.foldl MemoryRange.furthest first) := by
  induction windows generalizing first with
  | nil => simp only [List.foldlM_nil, bind_pure, List.foldl_nil]
  | cons window rest ih =>
      have fitsWindow := fits window List.mem_cons_self
      have later := ih (MemoryRange.fits_furthest fitsFirst fitsWindow) fun other member =>
        fits other (List.mem_cons_of_mem _ member)
      rw [← chargeMemory_chargeMemory frame fitsFirst fitsWindow, bind_assoc] at later
      simp only [List.foldlM_cons, List.foldl_cons, later]

theorem chargeMemory_congr (frame : Frame) {left right : MemoryRange} (first : left.Fits)
    (second : right.Fits) (same : left.words = right.words) :
    frame.chargeMemory left = frame.chargeMemory right := by
  rw [chargeMemory_eq frame first, chargeMemory_eq frame second,
    frame.memory.exactExpansion_congr same, frame.memory.expand_congr same]

end Frame

/-- Charges for memory do not depend on their order. Charging for windows one after another, each
at its place or without length, takes as much in every order, leaves the same memory, and comes to
one charge for the window that ends furthest out. A frame pays for all of them if and only if it
can pay for that one. So a call that pays for the further of its two windows paid for both. -/
theorem Memory.charges_unordered {windows reordered : List MemoryRange}
    (fits : ∀ window ∈ windows, window.Fits) (perm : windows.Perm reordered) (memory : Memory) :
    memory.chargeAll reordered = memory.chargeAll windows ∧
      memory.chargeAll windows =
        ((memory.expansionCost (windows.foldl MemoryRange.furthest .empty)).toNat,
          memory.expand (windows.foldl MemoryRange.furthest .empty)) ∧
      (∀ frame : Frame, frame.memory = memory →
        reordered.foldlM Frame.chargeMemory frame = windows.foldlM Frame.chargeMemory frame ∧
          windows.foldlM Frame.chargeMemory frame =
            frame.chargeMemory (windows.foldl MemoryRange.furthest .empty)) ∧
      ∀ kind stack input output,
        CallKind.memoryRanges kind stack = .ok (input, output) →
          memory.chargeAll [input, output] =
              ((memory.expansionCost (input.furthest output)).toNat,
                memory.expand (input.furthest output)) ∧
            ∀ frame : Frame, frame.memory = memory →
              (do (← frame.chargeMemory input).chargeMemory output) =
                frame.chargeMemory (input.furthest output) := by
  have fitsReordered : ∀ window ∈ reordered, window.Fits := fun window member =>
    fits window (perm.mem_iff.mpr member)
  have furthest := MemoryRange.fits_foldl MemoryRange.fits_empty fits
  have furthestReordered := MemoryRange.fits_foldl MemoryRange.fits_empty fitsReordered
  have same := MemoryRange.words_foldl_perm perm .empty
  have charged := memory.chargeAll_eq fits
  have one (frame : Frame) {windows : List MemoryRange} (fits : ∀ window ∈ windows, window.Fits) :
      windows.foldlM Frame.chargeMemory frame =
        frame.chargeMemory (windows.foldl MemoryRange.furthest .empty) := by
    have paid := frame.foldlM_chargeMemory MemoryRange.fits_empty fits
    rwa [frame.chargeMemory_empty, ok_bind] at paid
  refine ⟨?_, charged, fun frame _ => ⟨?_, one frame fits⟩, ?_⟩
  · rw [memory.chargeAll_eq fitsReordered, charged, memory.expand_congr same,
      memory.toNat_expansionCost_eq furthest, memory.toNat_expansionCost_eq furthestReordered,
      memory.exactExpansion_congr same]
  · rw [one frame fits, one frame fitsReordered]
    exact frame.chargeMemory_congr furthestReordered furthest same
  · intro kind stack input output named
    obtain ⟨inputFits, outputFits⟩ := Action.fits_memoryRanges named
    refine ⟨@chargeAll_eq memory [input, output] ?_, fun frame _ => ?_⟩
    · simp [inputFits, outputFits]
    · exact frame.chargeMemory_chargeMemory inputFits outputFits

/-- A window without length far out, one word, and two words more, of which the last two are those
of a call. -/
theorem Memory.windows_of_call_unordered :
    (∀ window ∈ ([⟨100000, 0⟩, ⟨0, 32⟩, ⟨10, 64⟩] : List MemoryRange), window.Fits) ∧
      ([⟨100000, 0⟩, ⟨0, 32⟩, ⟨10, 64⟩] : List MemoryRange).Perm
        [⟨10, 64⟩, ⟨100000, 0⟩, ⟨0, 32⟩] ∧
      Memory.empty.chargeAll [⟨10, 64⟩, ⟨100000, 0⟩, ⟨0, 32⟩] =
        Memory.empty.chargeAll [⟨100000, 0⟩, ⟨0, 32⟩, ⟨10, 64⟩] ∧
      Memory.empty.chargeAll [⟨100000, 0⟩, ⟨0, 32⟩, ⟨10, 64⟩] =
        (9, Memory.empty.expand ⟨10, 64⟩) ∧
      List.foldlM Frame.chargeMemory { message := {}, gas := 8 }
          ([⟨10, 64⟩, ⟨100000, 0⟩, ⟨0, 32⟩] : List MemoryRange) =
        .error .insufficientGas ∧
      CallKind.call.memoryRanges ⟨[0, 0, 0, 0, 32, 10, 64], by decide⟩ =
        .ok (⟨0, 32⟩, ⟨10, 64⟩) ∧
      Memory.empty.chargeAll [⟨0, 32⟩, ⟨10, 64⟩] = (9, Memory.empty.expand ⟨10, 64⟩) := by
  have fits : ∀ window ∈ ([⟨100000, 0⟩, ⟨0, 32⟩, ⟨10, 64⟩] : List MemoryRange), window.Fits := by
    simp [MemoryRange.Fits, MemoryRange.isEmpty, MemoryRange.stop, MemoryRange.limit]
  have perm : ([⟨100000, 0⟩, ⟨0, 32⟩, ⟨10, 64⟩] : List MemoryRange).Perm
      [⟨10, 64⟩, ⟨100000, 0⟩, ⟨0, 32⟩] := by
    decide
  have named : CallKind.call.memoryRanges ⟨[0, 0, 0, 0, 32, 10, 64], by decide⟩ =
      .ok (⟨0, 32⟩, ⟨10, 64⟩) := by
    decide
  obtain ⟨same, once, frames, calls⟩ := charges_unordered fits perm .empty
  obtain ⟨unordered, furthest⟩ := frames { message := {}, gas := 8 } rfl
  have poor : Frame.chargeMemory { message := {}, gas := 8 } ⟨10, 64⟩ = .error .insufficientGas :=
    rfl
  exact ⟨fits, perm, same, once, (unordered.trans furthest).trans poor, named,
    (calls _ _ _ _ named).1⟩

end ExecutionLayer
