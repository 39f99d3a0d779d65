import ExecutionLayer.Instruction.Step

/-!
# Evaluation of instructions

What the check of the stack, payments, pops and pushes come to where the gas, the operands and the
room are there.
-/

set_option autoImplicit false

namespace ExecutionLayer

theorem Instruction.stackFault?_eq_none {instruction : Instruction} {height : Nat}
    (enough : instruction.consumed ≤ height)
    (room : height - instruction.consumed + instruction.produced ≤ Stack.limit) :
    instruction.stackFault? height = none := by
  rw [stackFault?, if_neg (Nat.not_lt.mpr enough), if_neg (Nat.not_lt.mpr room)]

namespace Action

variable {machine : Machine}

theorem run_useGas {amount : UInt64} (paid : amount ≤ machine.frame.gas) :
    useGas amount machine = .ok () { machine with
      frame := { machine.frame with gas := machine.frame.gas - amount } } := by
  change (ofExcept (machine.frame.useGas amount) >>= _ : Action Unit) machine = _
  rw [Frame.useGas, if_pos paid]
  rfl

theorem run_pop (machine : Machine) {top : Word} {rest : List Word}
    (words : machine.frame.stack.words = top :: rest) :
    ∃ stack : Stack, stack.words = rest ∧
      pop machine = .ok top { machine with frame := { machine.frame with stack } } := by
  have popped : machine.frame.pop =
      .ok (top, { machine.frame with stack := machine.frame.stack.removeTop 1 }) := by
    simp only [Frame.pop, Stack.pop, words]
    rfl
  refine ⟨machine.frame.stack.removeTop 1, ?_, ?_⟩
  · change machine.frame.stack.words.drop 1 = rest
    rw [words]
    rfl
  · change (ofExcept machine.frame.pop >>= _ : Action Word) machine = _
    rw [popped]
    rfl

theorem run_push (machine : Machine) (word : Word)
    (room : machine.frame.stack.words.length < Stack.limit) :
    ∃ stack : Stack, stack.words = word :: machine.frame.stack.words ∧
      push word machine = .ok () { machine with frame := { machine.frame with stack } } := by
  have top : machine.frame.push word =
      .ok { machine.frame with stack := ⟨word :: machine.frame.stack.words, room⟩ } := by
    simp only [Frame.push, Stack.push, dif_pos room]
    rfl
  refine ⟨⟨word :: machine.frame.stack.words, room⟩, rfl, ?_⟩
  change (ofExcept (machine.frame.push word) >>= _ : Action Unit) machine = _
  rw [top]
  rfl

end Action

end ExecutionLayer
