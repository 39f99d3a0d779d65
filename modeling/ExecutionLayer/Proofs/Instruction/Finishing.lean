import ExecutionLayer.Proofs.Instruction.Evaluation
import ExecutionLayer.Proofs.Machine.Windows
import ExecutionLayer.Proofs.World.Rollback

/-!
# Instructions that finish

An action finishes where nothing on its way halts the frame and the world does not fail. What it
finishes with follows the parts of the action. A frame that is at an instruction which
finishes goes on behind it.
-/

set_option autoImplicit false

namespace ExecutionLayer

namespace Action

variable {Value Result : Type}

/-- The action ends, and something holds of its value and of the machine it leaves. -/
def Finishes (action : Action Value) (machine : Machine) (ends : Value → Machine → Prop) : Prop :=
  ∃ value after, action machine = .ok value after ∧ ends value after

namespace Finishes

variable {action : Action Value} {next : Value → Action Result} {machine : Machine}

theorem mono {ends weaker : Value → Machine → Prop} (finishes : Finishes action machine ends)
    (weaken : ∀ value after, ends value after → weaker value after) :
    Finishes action machine weaker := by
  obtain ⟨value, after, ran, holds⟩ := finishes
  exact ⟨value, after, ran, weaken value after holds⟩

theorem bind {ends : Result → Machine → Prop}
    (first : Finishes action machine fun value after => Finishes (next value) after ends) :
    Finishes (action >>= next) machine ends := by
  obtain ⟨value, middle, ran, result, after, ranNext, holds⟩ := first
  refine ⟨result, after, ?_, holds⟩
  simp only [Bind.bind, EStateM.bind, ran, ranNext]

theorem pure {value : Value} {ends : Value → Machine → Prop} (holds : ends value machine) :
    Finishes (Pure.pure value) machine ends :=
  ⟨value, machine, rfl, holds⟩

end Finishes

section

variable {machine : Machine}

theorem finishes_useGas {amount : UInt64} {ends : Unit → Machine → Prop}
    (paid : amount ≤ machine.frame.gas)
    (holds : ends () { machine with
      frame := { machine.frame with gas := machine.frame.gas - amount } }) :
    Finishes (useGas amount) machine ends :=
  ⟨_, _, run_useGas paid, holds⟩

theorem finishes_pop {top : Word} {rest : List Word} {ends : Word → Machine → Prop}
    (words : machine.frame.stack.words = top :: rest)
    (holds : ∀ stack : Stack, stack.words = rest →
      ends top { machine with frame := { machine.frame with stack } }) :
    Finishes pop machine ends := by
  obtain ⟨stack, left, popped⟩ := run_pop machine words
  exact ⟨_, _, popped, holds stack left⟩

theorem finishes_push {word : Word} {ends : Unit → Machine → Prop}
    (room : machine.frame.stack.words.length < Stack.limit)
    (holds : ∀ stack : Stack, stack.words = word :: machine.frame.stack.words →
      ends () { machine with frame := { machine.frame with stack } }) :
    Finishes (push word) machine ends := by
  obtain ⟨stack, top, pushed⟩ := run_push machine word room
  exact ⟨_, _, pushed, holds stack top⟩

theorem finishes_ofExcept {Value : Type} {result : Except Halt Value} {value : Value}
    {ends : Value → Machine → Prop} (found : result = .ok value) (holds : ends value machine) :
    Finishes (ofExcept result) machine ends :=
  ⟨value, machine, by rw [found]; rfl, holds⟩

theorem finishes_frame {ends : Frame → Machine → Prop} (holds : ends machine.frame machine) :
    Finishes frame machine ends :=
  ⟨_, _, rfl, holds⟩

theorem finishes_modifyFrame {change : Frame → Frame} {ends : Unit → Machine → Prop}
    (holds : ends () { machine with frame := change machine.frame }) :
    Finishes (modifyFrame change) machine ends :=
  ⟨_, _, rfl, holds⟩

theorem finishes_warmAddress {address : Address} {ends : Bool → Machine → Prop}
    (holds : ends (machine.frame.warmAddress address).1
      { machine with frame := (machine.frame.warmAddress address).2 }) :
    Finishes (warmAddress address) machine ends :=
  ⟨_, _, rfl, holds⟩

theorem finishes_onWorld {Value : Type} {operation : Journaled Value} {value : Value}
    {ends : Value → Machine → Prop} (answered : operation.answer machine.world = .ok value)
    (holds : ∀ world, ends value { machine with world }) :
    Finishes (onWorld operation) machine ends := by
  unfold Journaled.answer at answered
  cases ran : operation machine.world with
  | ok found world =>
      rw [ran] at answered
      cases answered
      exact ⟨_, _, by rw [onWorld, ran], holds world⟩
  | error error world =>
      rw [ran] at answered
      cases answered

/-- Gas that covers the exact price of a window makes it addressable. -/
theorem finishes_chargeMemory {range : MemoryRange} {ends : Unit → Machine → Prop}
    (fits : range.Fits)
    (paid : machine.frame.memory.exactExpansion range ≤ machine.frame.gas.toNat)
    (holds : ∀ gas, ends () { machine with
      frame := { machine.frame with gas, memory := machine.frame.memory.expand range } }) :
    Finishes (chargeMemory range) machine ends := by
  rw [← Memory.toNat_expansionCost_eq _ fits] at paid
  refine ⟨(), _, ?_, holds (machine.frame.gas - machine.frame.memory.expansionCost range)⟩
  change (ofExcept (machine.frame.chargeMemory range) >>= _ : Action Unit) machine = _
  rw [Frame.chargeMemory, Frame.useGas, if_pos (UInt64.le_iff_toNat_le.mpr paid)]
  rfl

end

end Action

/-! ## Steps -/

/-- The frame is executing, at an opcode and over the words of its stack. -/
structure Machine.At (machine : Machine) (opcode : UInt8) (words : List Word) : Prop where
  executing : machine.frame.status = .codeExecuting
  opcode : machine.frame.currentOpcode = opcode
  words : machine.frame.stack.words = words

/-- Instructions that push no more than they take always find room. -/
theorem Machine.At.room {machine : Machine} {opcode : UInt8} {words : List Word}
    (reached : machine.At opcode words) {instruction : Instruction}
    (enough : instruction.consumed ≤ words.length)
    (falls : instruction.produced ≤ instruction.consumed) :
    words.length - instruction.consumed + instruction.produced ≤ Stack.limit := by
  have bound := machine.frame.stack.length_le
  rw [reached.words] at bound
  omega

/-- A frame whose instruction finishes steps behind it. -/
theorem Machine.At.step {machine : Machine} {opcode : UInt8} {words : List Word}
    (reached : machine.At opcode words) {schedule : GasSchedule} {context : Context}
    {instruction : Instruction}
    (decoded : Instruction.ofOpcode? schedule opcode = some instruction)
    (enough : instruction.consumed ≤ words.length)
    (room : words.length - instruction.consumed + instruction.produced ≤ Stack.limit)
    {holds : Machine → Prop}
    (finishes : Action.Finishes (instruction.execute schedule context) machine fun count after =>
      after.frame.status = .codeExecuting ∧
        holds { after with frame := { after.frame with pc := after.frame.pc + count } }) :
    ∃ after, machine.step schedule context = .ok after ∧
      after.frame.status = .codeExecuting ∧ holds after := by
  obtain ⟨count, ready, ran, executing, ends⟩ := finishes
  have height : machine.frame.stack.height = words.length := by
    rw [Stack.height, reached.words]
  have fits : instruction.stackFault? machine.frame.stack.height = none := by
    rw [height]
    exact Instruction.stackFault?_eq_none enough room
  have advanced : ready.advance count =
      { ready with frame := { ready.frame with pc := ready.frame.pc + count } } := if_pos executing
  refine ⟨ready.advance count, ?_, ?_, ?_⟩
  · simp only [Machine.step, reached.opcode, decoded, fits, ran]
  · rw [advanced]
    exact executing
  · rw [advanced]
    exact ends

end ExecutionLayer
