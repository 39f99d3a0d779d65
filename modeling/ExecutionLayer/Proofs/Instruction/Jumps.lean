import ExecutionLayer.Proofs.Instruction.Evaluation
import ExecutionLayer.Proofs.Machine.Destinations

/-!
# Jumps

A jump that is taken lands at its destination if an instruction of the code begins there and is a
jump destination. To any other word it fails.
-/

set_option autoImplicit false

namespace ExecutionLayer

/-- The frame is at a jump that it can pay for and that it takes. -/
inductive Frame.TakesJump (frame : Frame) (destination : Word) : Prop where
  | always {rest : List Word} (opcode : frame.currentOpcode = 0x56)
      (words : frame.stack.words = destination :: rest) (paid : Gas.mid ≤ frame.gas)
  | conditional {condition : Word} {rest : List Word} (opcode : frame.currentOpcode = 0x57)
      (words : frame.stack.words = destination :: condition :: rest) (holds : condition ≠ 0)
      (paid : Gas.high ≤ frame.gas)

namespace Action

theorem run_jumpTo (machine : Machine) (destination : Word) :
    jumpTo destination machine =
      if machine.frame.message.code.isJumpDestination destination.toNat then
        .ok () { machine with frame := { machine.frame with pc := destination.toNat } }
      else .error (.halt .invalidJumpDestination) machine := by
  change (ofExcept (do return { machine.frame with pc := ← jumpTarget machine.frame destination })
    >>= _ : Action Unit) machine = _
  unfold jumpTarget
  split <;> rfl

end Action

namespace Machine

variable {machine : Machine} {destination : Word}

/-- Up to the jump itself only the price and the operands are gone. -/
theorem execute_of_takesJump (schedule : GasSchedule) (context : Context)
    (takes : machine.frame.TakesJump destination) :
    ∃ instruction ready,
      Instruction.ofOpcode? schedule machine.frame.currentOpcode = some instruction ∧
      instruction.stackFault? machine.frame.stack.height = none ∧
      instruction.execute schedule context machine =
        (do Action.jumpTo destination; return 0 : Action Nat) ready ∧
      ready.frame.message = machine.frame.message ∧
      ready.frame.status = machine.frame.status := by
  cases takes with
  | always opcode words paid =>
      let payer : Machine :=
        { machine with frame := { machine.frame with gas := machine.frame.gas - Gas.mid } }
      obtain ⟨stack, -, popped⟩ := Action.run_pop payer words
      refine ⟨.jump, { payer with frame := { payer.frame with stack } }, ?_, ?_, ?_, rfl, rfl⟩
      · rw [opcode]
        rfl
      · apply Instruction.stackFault?_eq_none
        · simp [Stack.height, words, Instruction.consumed]
        · exact Nat.le_trans (Nat.sub_le ..) machine.frame.stack.length_le
      · change Action.jump machine = _
        simp only [Action.jump, Bind.bind, EStateM.bind, Action.run_useGas paid]
        simp only [payer] at popped
        simp only [popped]
        rfl
  | conditional opcode words holds paid =>
      let payer : Machine :=
        { machine with frame := { machine.frame with gas := machine.frame.gas - Gas.high } }
      obtain ⟨shorter, left, popped⟩ := Action.run_pop payer words
      let popper : Machine := { payer with frame := { payer.frame with stack := shorter } }
      obtain ⟨stack, -, poppedAgain⟩ := Action.run_pop popper left
      refine ⟨.jumpIf, { popper with frame := { popper.frame with stack } }, ?_, ?_, ?_, rfl, rfl⟩
      · rw [opcode]
        rfl
      · apply Instruction.stackFault?_eq_none
        · simp [Stack.height, words, Instruction.consumed]
        · exact Nat.le_trans (Nat.sub_le ..) machine.frame.stack.length_le
      · change Action.jumpIf machine = _
        simp only [Action.jumpIf, Bind.bind, EStateM.bind, Action.run_useGas paid]
        simp only [payer, popper] at popped poppedAgain
        simp only [popped, poppedAgain, if_neg holds]
        rfl

theorem step_of_lands (schedule : GasSchedule) (context : Context)
    (executing : machine.frame.status = .codeExecuting)
    (takes : machine.frame.TakesJump destination)
    (lands : machine.frame.message.code.isJumpDestination destination.toNat = true) :
    ∃ after, machine.step schedule context = .ok after ∧
      after.frame.status = .codeExecuting ∧ after.frame.pc = destination.toNat := by
  obtain ⟨instruction, ready, decoded, fits, executed, message, status⟩ :=
    execute_of_takesJump schedule context takes
  rw [← message] at lands
  have jumped : (do Action.jumpTo destination; return 0 : Action Nat) ready =
      .ok 0 { ready with frame := { ready.frame with pc := destination.toNat } } := by
    simp only [Bind.bind, EStateM.bind, Action.run_jumpTo, if_pos lands]
    rfl
  refine ⟨({ ready with frame := { ready.frame with pc := destination.toNat } } : Machine).advance 0,
    ?_, ?_⟩
  · simp only [step, decoded, fits, executed, jumped]
  · rw [executing] at status
    simp only [advance, status, if_pos, Nat.add_zero, and_self]

theorem step_of_not_lands (schedule : GasSchedule) (context : Context)
    (takes : machine.frame.TakesJump destination)
    (fails : machine.frame.message.code.isJumpDestination destination.toNat = false) :
    ∃ after, machine.step schedule context = .ok after ∧
      after.frame.status = .exceptionalHalt ∧
      after.frame.haltReason = some .invalidJumpDestination := by
  obtain ⟨instruction, ready, decoded, fits, executed, message, -⟩ :=
    execute_of_takesJump schedule context takes
  rw [← message] at fails
  have stopped : (do Action.jumpTo destination; return 0 : Action Nat) ready =
      .error (.halt .invalidJumpDestination) ready := by
    simp only [Bind.bind, EStateM.bind, Action.run_jumpTo, fails]
    rfl
  refine ⟨ready.halt .invalidJumpDestination, ?_, rfl, rfl⟩
  simp only [step, decoded, fits, executed, stopped]

end Machine

/-- The valid jump destinations of a code are the positions that reading its instructions from the
first byte on comes to and that hold the byte 0x5B. Only the opcodes from 0x60 to 0x7F are
followed by bytes that reading skips, one to 32 of them. A taken jump to a word lands there if it
is one of these positions, and otherwise the frame halts. -/
theorem Code.jumps_land_iff (bytes : Bytes) :
    (∀ opcode, immediateLength opcode =
      if 0x60 ≤ opcode.toNat ∧ opcode.toNat ≤ 0x7F then opcode.toNat - 0x5F else 0) ∧
    (∀ position, (ofBytes bytes).isJumpDestination position = true ↔
      (ofBytes bytes).Boundary position ∧ bytes[position]? = some 0x5B) ∧
    ∀ (schedule : GasSchedule) (context : Context) (machine : Machine) (destination : Word),
      machine.frame.status = .codeExecuting → machine.frame.message.code = ofBytes bytes →
        machine.frame.TakesJump destination →
          ∃ after, machine.step schedule context = .ok after ∧
            ((ofBytes bytes).Boundary destination.toNat ∧
                bytes[destination.toNat]? = some 0x5B →
              after.frame.status = .codeExecuting ∧ after.frame.pc = destination.toNat) ∧
            (¬((ofBytes bytes).Boundary destination.toNat ∧
                bytes[destination.toNat]? = some 0x5B) →
              after.frame.status = .exceptionalHalt ∧
                after.frame.haltReason = some .invalidJumpDestination) := by
  have isDestination (position : Nat) : (ofBytes bytes).isJumpDestination position = true ↔
      (ofBytes bytes).Boundary position ∧ bytes[position]? = some 0x5B := by
    have found : (ofBytes bytes).toBytes = bytes := by simp [toBytes, ofBytes]
    rw [isJumpDestination_iff, found]
    rfl
  refine ⟨immediateLength_eq, isDestination, fun schedule context machine destination => ?_⟩
  intro executing code takes
  rw [← isDestination, ← code]
  cases found : machine.frame.message.code.isJumpDestination destination.toNat with
  | true =>
      obtain ⟨after, stepped, landed⟩ :=
        Machine.step_of_lands schedule context executing takes found
      exact ⟨after, stepped, fun _ => landed, fun fails => absurd rfl fails⟩
  | false =>
      obtain ⟨after, stepped, halted⟩ := Machine.step_of_not_lands schedule context takes found
      exact ⟨after, stepped, fun lands => absurd lands (by decide), fun _ => halted⟩

namespace Landing

/-- A jump, a push of the byte 0x5B, a jump destination and a conditional jump. -/
def bytes : Bytes :=
  [0x56, 0x60, 0x5B, 0x5B, 0x57]

def view : WorldView where
  account _ := .ok none
  storage _ _ := .ok 0

def context : Context :=
  ⟨{}, {}, fun _ => none⟩

/-- At a position of the code, with operands. -/
def machine (pc : Nat) (stack : Stack) : Machine where
  frame := { message := { code := .ofBytes bytes }, status := .codeExecuting, pc, stack, gas := 10 }
  world := { base := view }

end Landing

open Landing in
/-- The jump lands behind the push, and the conditional one does not land at the pushed byte. -/
theorem Code.jumps_land_behind_push :
    (∃ landed, (machine 0 ⟨[3], by decide⟩).step (.ofFork .berlin) context = .ok landed ∧
      landed.frame.status = .codeExecuting ∧ landed.frame.pc = 3) ∧
    ∃ failed, (machine 4 ⟨[2, 1], by decide⟩).step (.ofFork .berlin) context = .ok failed ∧
      failed.frame.status = .exceptionalHalt ∧
      failed.frame.haltReason = some .invalidJumpDestination := by
  obtain ⟨-, isDestination, jumps⟩ := Code.jumps_land_iff Landing.bytes
  constructor
  · obtain ⟨landed, stepped, lands, -⟩ := jumps (.ofFork .berlin) context
      (machine 0 ⟨[3], by decide⟩) 3 rfl rfl (.always (by decide) rfl (by decide))
    exact ⟨landed, stepped, lands ((isDestination 3).mp (by decide +kernel))⟩
  · obtain ⟨failed, stepped, -, fails⟩ := jumps (.ofFork .berlin) context
      (machine 4 ⟨[2, 1], by decide⟩) 2 rfl rfl
      (.conditional (by decide) rfl (by decide) (by decide))
    refine ⟨failed, stepped, fails fun lands => ?_⟩
    exact absurd ((isDestination 2).mpr lands) (by decide +kernel)

end ExecutionLayer
