import ExecutionLayer.Proofs.Instruction.Finishing
import ExecutionLayer.Proofs.Instruction.Prices
import ExecutionLayer.Proofs.Machine.Contents

/-!
# Copies to memory

Call data and code are read as if infinitely many zeros followed them. A load of call data and a
copy of it narrow the position they read from in different ways, and both come to the same bytes.
-/

set_option autoImplicit false

namespace ExecutionLayer

/-! ## Byte strings followed by zeros -/

namespace Bytes

/-- The byte at a position of the string that infinitely many zeros follow. -/
def zeroExtended (bytes : Bytes) (position : Nat) : UInt8 :=
  bytes[position]?.getD 0

/-- The bytes from a position on of the string that infinitely many zeros follow. -/
def slice (bytes : Bytes) (offset length : Nat) : Bytes :=
  (List.range length).map fun index => bytes.zeroExtended (offset + index)

theorem zeroExtended_of_le {bytes : Bytes} {position : Nat} (beyond : bytes.length ≤ position) :
    bytes.zeroExtended position = 0 := by
  rw [zeroExtended, List.getElem?_eq_none beyond, Option.getD_none]

theorem window_eq_slice (bytes : Bytes) (offset length : Nat) :
    bytes.window offset length = bytes.slice offset length := by
  apply List.ext_getElem?
  intro index
  by_cases inside : index < length
  · rw [getElem?_window _ _ _ inside, slice, List.getElem?_map, List.getElem?_range inside,
      Option.map_some, zeroExtended]
  · have outside := Nat.le_of_not_lt inside
    rw [List.getElem?_eq_none, List.getElem?_eq_none]
    · rwa [slice, List.length_map, List.length_range]
    · rwa [length_window]

/-- The position after the last one that a byte string can have reads as well as any further one. -/
theorem zeroExtended_clamped {bytes : Bytes} (short : bytes.length < UInt64.size) (offset : Word)
    (index : Nat) :
    bytes.zeroExtended (offset.toIndexClamped + index) =
      bytes.zeroExtended (offset.toNat + index) := by
  unfold Word.toIndexClamped
  rcases Nat.le_total offset.toNat (UInt64.size - 1) with near | far
  · rw [Nat.min_eq_left near]
  · rw [Nat.min_eq_right far, zeroExtended_of_le (by omega), zeroExtended_of_le (by omega)]

theorem slice_of_le {bytes : Bytes} {offset : Nat} (beyond : bytes.length ≤ offset) (length : Nat) :
    bytes.slice offset length = List.replicate length 0 := by
  apply List.eq_replicate_iff.mpr
  refine ⟨by rw [slice, List.length_map, List.length_range], fun byte member => ?_⟩
  obtain ⟨index, -, rfl⟩ := List.mem_map.mp member
  exact zeroExtended_of_le (Nat.le_trans beyond (Nat.le_add_right ..))

end Bytes

theorem MemoryRange.ofWords_eq {offset length : Word} (some : length ≠ 0)
    (near : offset.toNat + length.toNat ≤ limit) :
    ofWords offset length = .ok ⟨offset.toNat, length.toNat⟩ := by
  rw [ofWords, if_neg some, if_neg (Nat.not_lt.mpr near)]

namespace Memory

theorem byteAt_writePadded (memory : Memory) (range : MemoryRange) (source : Bytes)
    (start position : Nat) :
    (memory.writePadded range source start).byteAt position =
      if range.offset ≤ position ∧ position < range.stop then
        source.zeroExtended (start + (position - range.offset))
      else memory.byteAt position := by
  refine (Edit.byteAt_apply memory (.writePadded range source start) position).trans ?_
  rw [Edit.byteAt?]
  split <;> rfl

end Memory

/-! ## The instructions -/

namespace Action

variable {machine : Machine} {offset : Word} {rest : List Word}

/-- An offset that is no position names zeros, and so does one behind the call data. -/
theorem finishes_callDataLoad (words : machine.frame.stack.words = offset :: rest)
    (paid : Gas.veryLow ≤ machine.frame.gas)
    (short : machine.frame.message.input.length < UInt64.size) :
    Finishes callDataLoad machine fun _ after =>
      after.frame.status = machine.frame.status ∧
        after.frame.stack.words =
          Word.ofBytes (machine.frame.message.input.slice offset.toNat 32) :: rest := by
  have bound := machine.frame.stack.length_le
  rw [words, List.length_cons] at bound
  refine .bind (finishes_useGas paid ?_)
  refine .bind (finishes_pop words fun stack left => ?_)
  refine .bind (finishes_frame ?_)
  have room : stack.words.length < Stack.limit := by
    rw [left]
    omega
  have pushes (word : Word)
      (read : word = Word.ofBytes (machine.frame.message.input.slice offset.toNat 32)) :
      Finishes (push word) { machine with
          frame := { machine.frame with gas := machine.frame.gas - Gas.veryLow, stack } }
        fun _ after => after.frame.status = machine.frame.status ∧
          after.frame.stack.words =
            Word.ofBytes (machine.frame.message.input.slice offset.toNat 32) :: rest :=
    finishes_push room fun pushed top => ⟨rfl, by rw [top, read]; exact congrArg _ left⟩
  rcases Nat.lt_or_ge offset.toNat UInt64.size with near | far
  · simp only [Word.toIndex?, if_pos near]
    exact pushes _ (by rw [Bytes.window_eq_slice])
  · simp only [Word.toIndex?, if_neg (Nat.not_lt.mpr far)]
    exact pushes 0 (by rw [Bytes.slice_of_le (by omega)]; rfl)

/-- The window and the clamped offset of a copy that is affordable. -/
theorem finishes_chargeCopy {destination length : Word} {price : UInt64} {range : MemoryRange}
    {ends : MemoryRange × Nat → Machine → Prop}
    (words : machine.frame.stack.words = destination :: offset :: length :: rest)
    (named : MemoryRange.ofWords destination length = .ok range) (low : price.toNat ≤ 2600)
    (paid : price.toNat + 3 * Memory.wordsFor range.length +
      machine.frame.memory.exactExpansion range ≤ machine.frame.gas.toNat)
    (holds : ∀ (stack : Stack) (gas : UInt64), stack.words = rest →
      ends (range, offset.toIndexClamped) { machine with
        frame := { machine.frame with
          gas, stack, memory := machine.frame.memory.expand range } }) :
    Finishes (chargeCopy price) machine ends := by
  have fits := MemoryRange.fits_ofWords named
  have copied := Gas.toNat_copyCost (length_le_of_ofWords named) low
  refine .bind (finishes_pop words fun third left => ?_)
  refine .bind (finishes_pop left fun second left => ?_)
  refine .bind (finishes_pop left fun stack left => ?_)
  refine .bind (finishes_ofExcept named ?_)
  have affordable : price + Gas.copyCost range.length ≤ machine.frame.gas := by
    rw [UInt64.le_iff_toNat_le, copied]
    omega
  refine .bind (finishes_useGas affordable ?_)
  refine .bind (finishes_chargeMemory fits ?_ fun gas => ?_)
  · dsimp only
    rw [UInt64.toNat_sub_of_le _ _ affordable, copied]
    omega
  · exact .pure (holds stack gas left)

/-- The window becomes the bytes of the source, for a source that the running frame holds. -/
theorem finishes_copy {source : CopySource} (held : source ≠ .returnData)
    {destination length : Word} {range : MemoryRange}
    (words : machine.frame.stack.words = destination :: offset :: length :: rest)
    (named : MemoryRange.ofWords destination length = .ok range)
    (paid : Gas.veryLow.toNat + 3 * Memory.wordsFor range.length +
      machine.frame.memory.exactExpansion range ≤ machine.frame.gas.toNat) :
    Finishes (copy source) machine fun _ after =>
      after.frame.status = machine.frame.status ∧ after.frame.stack.words = rest ∧
        after.frame.memory = (machine.frame.memory.expand range).writePadded range
          (sourceBytes machine.frame source) offset.toIndexClamped := by
  unfold copy
  rw [if_neg held]
  refine .bind (finishes_chargeCopy words named (by decide) paid fun stack gas left => ?_)
  refine finishes_modifyFrame ⟨rfl, left, ?_⟩
  cases source with
  | callData => rfl
  | code => rfl
  | returnData => exact absurd rfl held

theorem finishes_extCodeCopy {account destination length : Word} {range : MemoryRange} {code : Code}
    (words : machine.frame.stack.words = account :: destination :: offset :: length :: rest)
    (read : (Journaled.code (Address.ofWord account)).answer machine.world = .ok code)
    (named : MemoryRange.ofWords destination length = .ok range)
    (paid : (Gas.accountAccessCost (machine.frame.warmAddress (Address.ofWord account)).1).toNat +
      3 * Memory.wordsFor range.length +
      machine.frame.memory.exactExpansion range ≤ machine.frame.gas.toNat) :
    Finishes extCodeCopy machine fun _ after =>
      after.frame.status = machine.frame.status ∧ after.frame.stack.words = rest ∧
        after.frame.memory = (machine.frame.memory.expand range).writePadded range
          code.toBytes offset.toIndexClamped := by
  have low (isCold : Bool) : (Gas.accountAccessCost isCold).toNat ≤ 2600 := by
    cases isCold <;> decide
  refine .bind (finishes_pop words fun popped left => ?_)
  refine .bind (finishes_warmAddress ?_)
  refine .bind (finishes_chargeCopy left named (low _) paid fun stack gas left => ?_)
  refine .bind (finishes_onWorld read fun world => ?_)
  exact finishes_modifyFrame ⟨rfl, left, rfl⟩

theorem finishes_mload {destination : Word}
    (words : machine.frame.stack.words = destination :: rest)
    (near : destination.toNat + 32 ≤ MemoryRange.limit)
    (paid : Gas.veryLow.toNat + machine.frame.memory.exactExpansion ⟨destination.toNat, 32⟩ ≤
      machine.frame.gas.toNat) :
    Finishes mload machine fun _ after =>
      after.frame.status = machine.frame.status ∧
        after.frame.stack.words =
          (machine.frame.memory.expand ⟨destination.toNat, 32⟩).readWord destination.toNat ::
            rest := by
  have bound := machine.frame.stack.length_le
  rw [words, List.length_cons] at bound
  have named : MemoryRange.sized destination 32 = .ok ⟨destination.toNat, 32⟩ :=
    @MemoryRange.ofWords_eq destination 32 (by decide) near
  have affordable : Gas.veryLow ≤ machine.frame.gas := by
    rw [UInt64.le_iff_toNat_le]
    omega
  refine .bind (finishes_pop words fun stack left => ?_)
  refine .bind (finishes_ofExcept named ?_)
  refine .bind (finishes_useGas affordable ?_)
  refine .bind (finishes_chargeMemory (.inr near) ?_ fun gas => ?_)
  · dsimp only
    rw [UInt64.toNat_sub_of_le _ _ affordable]
    omega
  refine .bind (finishes_frame ?_)
  refine finishes_push (left ▸ bound) fun pushed top => ⟨rfl, ?_⟩
  rw [top]
  exact congrArg _ left

end Action

/-! ## Affordable copies -/

/-- The frame can pay for a copy: the window ends within the limit of memory, and the gas covers a
base price, three for each word copied and the growth of memory. -/
structure Frame.AffordsCopy (frame : Frame) (price : UInt64) (destination length : Word) :
    Prop where
  near : length = 0 ∨ destination.toNat + length.toNat ≤ MemoryRange.limit
  paid : price.toNat + 3 * Memory.wordsFor length.toNat +
    frame.memory.exactExpansion ⟨destination.toNat, length.toNat⟩ ≤ frame.gas.toNat

/-- The frame executes a copy of `length` bytes, from `offset` of a source on, to memory. The price
is the one beside the words copied and the growth of memory. The source is the call data, the
executing code, or the code that the world shows of an account. -/
inductive Machine.Copies (machine : Machine) (destination offset length : Word)
    (rest : List Word) : Bytes → UInt64 → Prop where
  | callData (reached : machine.At 0x37 (destination :: offset :: length :: rest)) :
      Copies machine destination offset length rest machine.frame.message.input Gas.veryLow
  | code (reached : machine.At 0x39 (destination :: offset :: length :: rest)) :
      Copies machine destination offset length rest machine.frame.message.code.toBytes Gas.veryLow
  | otherCode {account : Word} {code : Code}
      (reached : machine.At 0x3C (account :: destination :: offset :: length :: rest))
      (read : (Journaled.code (Address.ofWord account)).answer machine.world = .ok code) :
      Copies machine destination offset length rest code.toBytes
        (Gas.accountAccessCost (machine.frame.warmAddress (Address.ofWord account)).1)

/-- A memory in which a window was filled from a source that zeros follow. -/
structure Memory.Filled (before : Memory) (destination length : Nat) (source : Bytes)
    (offset : Nat) (after : Memory) : Prop where
  byteAt : ∀ position, after.byteAt position =
    if destination ≤ position ∧ position < destination + length then
      source.zeroExtended (offset + (position - destination))
    else before.byteAt position
  covers : after.Covers ⟨destination, length⟩

/-- A copy writes what the source shows at the offset, although it reads at a clamped one. -/
theorem Memory.filled_writePadded (memory : Memory) (range : MemoryRange) {source : Bytes}
    (short : source.length < UInt64.size) (offset : Word) :
    memory.Filled range.offset range.length source offset.toNat
      ((memory.expand range).writePadded range source offset.toIndexClamped) := by
  constructor
  · intro position
    rw [byteAt_writePadded, Bytes.zeroExtended_clamped short, byteAt_expand]
    rfl
  · have covers := memory.covers_expand range
    have length : (source.window offset.toIndexClamped range.length).length = range.length :=
      Bytes.length_window ..
    have size : ((memory.expand range).writePadded range source offset.toIndexClamped).size =
        (memory.expand range).size := by
      apply Covers.size_write
      rw [length]
      exact covers
    unfold Covers at covers ⊢
    rw [size]
    exact covers

namespace Frame.AffordsCopy

variable {frame : Frame} {price : UInt64} {destination length : Word}

/-- The window that is charged for and filled. -/
theorem exists_range (affords : frame.AffordsCopy price destination length) :
    ∃ range, MemoryRange.ofWords destination length = .ok range ∧
      price.toNat + 3 * Memory.wordsFor range.length + frame.memory.exactExpansion range ≤
        frame.gas.toNat ∧
      ∀ (source : Bytes) (offset : Word), source.length < UInt64.size →
        frame.memory.Filled destination.toNat length.toNat source offset.toNat
          ((frame.memory.expand range).writePadded range source offset.toIndexClamped) := by
  by_cases none : length = 0
  · subst none
    refine ⟨.empty, if_pos rfl, affords.paid, fun source offset short => ?_⟩
    have nothing := frame.memory.filled_writePadded .empty short offset
    refine ⟨fun position => ?_, .inl rfl⟩
    rw [nothing.byteAt, if_neg (by change ¬(0 ≤ position ∧ position < 0 + 0); omega),
      if_neg (by change ¬(_ ∧ position < destination.toNat + 0); omega)]
  · have near := affords.near.resolve_left none
    exact ⟨_, MemoryRange.ofWords_eq none near, affords.paid, fun source offset short =>
      frame.memory.filled_writePadded ⟨destination.toNat, length.toNat⟩ short offset⟩

end Frame.AffordsCopy

namespace Machine

variable {machine : Machine} {destination offset length : Word} {rest : List Word}

/-- A copy whose source the frame holds. -/
theorem At.step_copy {opcode : UInt8} {source : CopySource} {schedule : GasSchedule}
    (reached : machine.At opcode (destination :: offset :: length :: rest))
    (decoded : Instruction.ofOpcode? schedule opcode = some (.copy source))
    (held : source ≠ .returnData)
    (affords : machine.frame.AffordsCopy Gas.veryLow destination length)
    (short : (Action.sourceBytes machine.frame source).length < UInt64.size) (context : Context) :
    ∃ after, machine.step schedule context = .ok after ∧
      after.frame.status = .codeExecuting ∧ after.frame.stack.words = rest ∧
      machine.frame.memory.Filled destination.toNat length.toNat
        (Action.sourceBytes machine.frame source) offset.toNat after.frame.memory := by
  obtain ⟨range, named, paid, fills⟩ := affords.exists_range
  have enough : (Instruction.copy source).consumed ≤
      (destination :: offset :: length :: rest).length := Nat.le_add_left ..
  refine reached.step decoded enough (reached.room enough (Nat.zero_le _)) (.bind ?_)
  refine (Action.finishes_copy held reached.words named paid).mono ?_
  rintro - after ⟨status, words, memory⟩
  exact .pure ⟨status.trans reached.executing, words, memory ▸ fills _ offset short⟩

theorem At.step_extCodeCopy {account : Word} {code : Code}
    (reached : machine.At 0x3C (account :: destination :: offset :: length :: rest))
    (read : (Journaled.code (Address.ofWord account)).answer machine.world = .ok code)
    (affords : machine.frame.AffordsCopy
      (Gas.accountAccessCost (machine.frame.warmAddress (Address.ofWord account)).1) destination
      length)
    (short : code.toBytes.length < UInt64.size) (schedule : GasSchedule) (context : Context) :
    ∃ after, machine.step schedule context = .ok after ∧
      after.frame.status = .codeExecuting ∧ after.frame.stack.words = rest ∧
      machine.frame.memory.Filled destination.toNat length.toNat code.toBytes offset.toNat
        after.frame.memory := by
  obtain ⟨range, named, paid, fills⟩ := affords.exists_range
  have enough : Instruction.extCodeCopy.consumed ≤
      (account :: destination :: offset :: length :: rest).length := Nat.le_add_left ..
  refine reached.step rfl enough (reached.room enough (by decide)) (.bind ?_)
  refine (Action.finishes_extCodeCopy reached.words read named paid).mono ?_
  rintro - after ⟨status, words, memory⟩
  exact .pure ⟨status.trans reached.executing, words, memory ▸ fills _ offset short⟩

/-- A copy that the frame can pay for fills its window and takes its operands off the stack. -/
theorem Copies.step {source : Bytes} {price : UInt64}
    (copies : machine.Copies destination offset length rest source price)
    (affords : machine.frame.AffordsCopy price destination length)
    (short : source.length < UInt64.size) (schedule : GasSchedule) (context : Context) :
    ∃ after, machine.step schedule context = .ok after ∧
      after.frame.status = .codeExecuting ∧ after.frame.stack.words = rest ∧
      machine.frame.memory.Filled destination.toNat length.toNat source offset.toNat
        after.frame.memory := by
  cases copies with
  | callData reached =>
      have decoded : Instruction.ofOpcode? schedule 0x37 = some (.copy .callData) := rfl
      exact reached.step_copy decoded (by decide) affords short context
  | code reached =>
      have decoded : Instruction.ofOpcode? schedule 0x39 = some (.copy .code) := rfl
      exact reached.step_copy decoded (by decide) affords short context
  | otherCode reached read => exact reached.step_extCodeCopy read affords short schedule context

/-- A load of call data pushes the 32 bytes at its offset. -/
theorem At.step_callDataLoad (reached : machine.At 0x35 (offset :: rest))
    (paid : Gas.veryLow ≤ machine.frame.gas)
    (short : machine.frame.message.input.length < UInt64.size) (schedule : GasSchedule)
    (context : Context) :
    ∃ after, machine.step schedule context = .ok after ∧
      after.frame.status = .codeExecuting ∧
      after.frame.stack.words =
        Word.ofBytes (machine.frame.message.input.slice offset.toNat 32) :: rest := by
  have enough : Instruction.callDataLoad.consumed ≤ (offset :: rest).length := Nat.le_add_left ..
  refine reached.step rfl enough (reached.room enough (by decide)) (.bind ?_)
  refine (Action.finishes_callDataLoad reached.words paid short).mono ?_
  rintro - after ⟨status, words⟩
  exact .pure ⟨status.trans reached.executing, words⟩

/-- A load from memory pushes the 32 bytes there, and costs no more where they are addressable. -/
theorem At.step_mload (reached : machine.At 0x51 (destination :: rest))
    (near : destination.toNat + 32 ≤ MemoryRange.limit)
    (covers : machine.frame.memory.Covers ⟨destination.toNat, 32⟩)
    (paid : Gas.veryLow ≤ machine.frame.gas) (schedule : GasSchedule) (context : Context) :
    ∃ after, machine.step schedule context = .ok after ∧
      after.frame.status = .codeExecuting ∧
      after.frame.stack.words = machine.frame.memory.readWord destination.toNat :: rest := by
  have enough : Instruction.mload.consumed ≤ (destination :: rest).length := Nat.le_add_left ..
  have free := machine.frame.memory.exactCost_expand ⟨destination.toNat, 32⟩
  rw [covers.expand_eq] at free
  refine reached.step rfl enough (reached.room enough (by decide)) (.bind ?_)
  refine (Action.finishes_mload reached.words near ?_).mono ?_
  · have least := UInt64.le_iff_toNat_le.mp paid
    omega
  · rintro - after ⟨status, words⟩
    rw [covers.expand_eq] at words
    exact .pure ⟨status.trans reached.executing, words⟩

end Machine

/-! ## Loads and copies -/

namespace Memory.Filled

variable {before after : Memory} {destination length offset : Nat} {source : Bytes}

/-- The window reads as the slice of the source. -/
theorem read_eq (filled : before.Filled destination length source offset after) :
    after.read ⟨destination, length⟩ = source.slice offset length := by
  rw [Memory.read_eq, Bytes.slice]
  apply List.map_congr_left
  intro index member
  have inside : index < length := List.mem_range.mp member
  dsimp only
  rw [filled.byteAt, if_pos ⟨Nat.le_add_right .., by omega⟩, Nat.add_sub_cancel_left]

end Memory.Filled

/-- Call data and code are followed by zeros without end, at whatever offset an instruction reads
them. A load of call data pushes the 32 bytes at its offset. A copy of call data, of the executing
code or of another account's code fills its window with the bytes from its offset on and leaves all
other bytes of memory as they are. So what is loaded from call data is what is loaded from memory
to which 32 bytes of call data were copied from the same offset. A byte string has fewer than
2^64 bytes, offsets have no such bound. -/
theorem Machine.callData_loaded_as_copied (schedule : GasSchedule) (context : Context) :
    (∀ (machine : Machine) (offset : Word) (rest : List Word),
      machine.At 0x35 (offset :: rest) → Gas.veryLow ≤ machine.frame.gas →
      machine.frame.message.input.length < UInt64.size →
        ∃ after, machine.step schedule context = .ok after ∧
          after.frame.status = .codeExecuting ∧
          after.frame.stack.words =
            Word.ofBytes (machine.frame.message.input.slice offset.toNat 32) :: rest) ∧
    (∀ (machine : Machine) (destination offset length : Word) (rest : List Word) (source : Bytes)
      (price : UInt64),
      machine.Copies destination offset length rest source price →
      machine.frame.AffordsCopy price destination length → source.length < UInt64.size →
        ∃ after, machine.step schedule context = .ok after ∧
          after.frame.status = .codeExecuting ∧ after.frame.stack.words = rest ∧
          after.frame.memory.read ⟨destination.toNat, length.toNat⟩ =
            source.slice offset.toNat length.toNat ∧
          ∀ position, position < destination.toNat ∨ destination.toNat + length.toNat ≤ position →
            after.frame.memory.byteAt position = machine.frame.memory.byteAt position) ∧
    ∀ (loader copier : Machine) (destination offset : Word) (others rest : List Word),
      loader.At 0x35 (offset :: others) → Gas.veryLow ≤ loader.frame.gas →
      copier.At 0x37 (destination :: offset :: 32 :: rest) →
      copier.frame.AffordsCopy Gas.veryLow destination 32 →
      loader.frame.message.input = copier.frame.message.input →
      copier.frame.message.input.length < UInt64.size →
        ∃ word loaded copied,
          word = Word.ofBytes (copier.frame.message.input.slice offset.toNat 32) ∧
          loader.step schedule context = .ok loaded ∧ loaded.frame.stack.words = word :: others ∧
          copier.step schedule context = .ok copied ∧
          ∀ (reader : Machine) (below : List Word),
            reader.At 0x51 (destination :: below) → Gas.veryLow ≤ reader.frame.gas →
            reader.frame.memory = copied.frame.memory →
              ∃ read, reader.step schedule context = .ok read ∧
                read.frame.stack.words = word :: below := by
  refine ⟨?_, ?_, ?_⟩
  · intro machine offset rest reached paid short
    exact reached.step_callDataLoad paid short schedule context
  · intro machine destination offset length rest source price copies affords short
    obtain ⟨after, stepped, executing, words, filled⟩ :=
      copies.step affords short schedule context
    refine ⟨after, stepped, executing, words, filled.read_eq, fun position outside => ?_⟩
    rw [filled.byteAt, if_neg (by omega)]
  · intro loader copier destination offset others rest loads loadPaid copies affords same short
    rw [← same] at short
    obtain ⟨loaded, stepped, -, pushed⟩ :=
      loads.step_callDataLoad loadPaid short schedule context
    rw [same] at short pushed
    obtain ⟨copied, steppedCopy, -, -, filled⟩ :=
      (Copies.callData copies).step affords short schedule context
    refine ⟨_, loaded, copied, rfl, stepped, pushed, steppedCopy,
      fun reader below reads paid memory => ?_⟩
    have near := affords.near.resolve_left (by decide)
    obtain ⟨read, steppedRead, -, found⟩ :=
      reads.step_mload near (memory ▸ filled.covers) paid schedule context
    refine ⟨read, steppedRead, ?_⟩
    rw [found, memory, Memory.readWord]
    exact congrArg (Word.ofBytes · :: below) filled.read_eq

namespace CallData

/-- A load and a copy of call data, a load from memory, and a copy of another account's code. -/
def code : Code :=
  .ofBytes [0x35, 0x37, 0x51, 0x3C]

/-- The only account has that code. -/
def view : WorldView where
  account _ := .ok (some { code })
  storage _ _ := .ok 0

def context : Context :=
  ⟨{}, {}, fun _ => none⟩

/-- At a position of the code, with three bytes of call data. -/
def machine (pc : Nat) (stack : Stack) (memory : Memory) : Machine where
  frame :=
    { message := { input := [1, 2, 3], code }, status := .codeExecuting, pc, stack, memory
      gas := 5000 }
  world := { base := view }

end CallData

open CallData in
/-- A load at an offset of more than 64 bits. The last byte of call data and zeros behind it, once
loaded and once copied to an odd place and loaded from there. A copy of code from beyond its end,
over the 64-bit boundary. -/
theorem Machine.callData_loaded_behind_end :
    let schedule := GasSchedule.ofFork .berlin
    (∃ loaded, (machine 0 ⟨[0x10000000000000000], by decide⟩ .empty).step schedule context =
        .ok loaded ∧ loaded.frame.stack.words = [0]) ∧
    (∃ loaded copied read,
      (machine 0 ⟨[2], by decide⟩ .empty).step schedule context = .ok loaded ∧
      (machine 1 ⟨[5, 2, 32], by decide⟩ .empty).step schedule context = .ok copied ∧
      (machine 2 ⟨[5], by decide⟩ copied.frame.memory).step schedule context = .ok read ∧
      loaded.frame.stack.words = [3 <<< 248] ∧ read.frame.stack.words = [3 <<< 248]) ∧
    ∃ copied, (machine 3 ⟨[7, 1, 0xFFFFFFFFFFFFFFFF, 2], by decide⟩ .empty).step schedule context =
        .ok copied ∧ copied.frame.memory.read ⟨1, 2⟩ = [0, 0] := by
  intro schedule
  obtain ⟨loads, copies, agree⟩ := Machine.callData_loaded_as_copied schedule context
  refine ⟨?_, ?_, ?_⟩
  · obtain ⟨loaded, stepped, -, pushed⟩ :=
      loads (machine 0 ⟨[0x10000000000000000], by decide⟩ .empty) 0x10000000000000000 []
        ⟨rfl, by decide, rfl⟩ (by decide) (by decide)
    exact ⟨loaded, stepped, pushed.trans (by decide)⟩
  · obtain ⟨word, loaded, copied, named, steppedLoad, pushed, steppedCopy, reads⟩ :=
      agree (machine 0 ⟨[2], by decide⟩ .empty) (machine 1 ⟨[5, 2, 32], by decide⟩ .empty) 5 2 [] []
        ⟨rfl, by decide, rfl⟩ (by decide) ⟨rfl, by decide, rfl⟩ ⟨.inr (by decide), by decide⟩ rfl
        (by decide)
    have affordable : Gas.veryLow ≤ (5000 : UInt64) := by decide
    obtain ⟨read, steppedRead, found⟩ :=
      reads (machine 2 ⟨[5], by decide⟩ copied.frame.memory) [] ⟨rfl, rfl, rfl⟩ affordable rfl
    obtain rfl : word = 3 <<< 248 := named.trans (by decide)
    exact ⟨loaded, copied, read, steppedLoad, steppedCopy, steppedRead, pushed, found⟩
  · obtain ⟨copied, stepped, -, -, written, -⟩ :=
      copies (machine 3 ⟨[7, 1, 0xFFFFFFFFFFFFFFFF, 2], by decide⟩ .empty) 1 0xFFFFFFFFFFFFFFFF 2 []
        code.toBytes _ (.otherCode ⟨rfl, by decide, rfl⟩ rfl)
        ⟨.inr (by decide), by decide⟩ (by decide)
    exact ⟨copied, stepped, written.trans (by decide)⟩

end ExecutionLayer
