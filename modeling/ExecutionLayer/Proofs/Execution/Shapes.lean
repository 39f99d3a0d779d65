import ExecutionLayer.Proofs.Execution.Returns
import ExecutionLayer.Proofs.Instruction.Evaluation
import ExecutionLayer.Proofs.Instruction.Shapes

/-!
# Stacks across steps and returns

A step that the dispatcher admits has the declared effect on the stack. A frame that waits for
a child keeps its stack, and the child's return puts one word in place of the operands.
-/

set_option autoImplicit false

namespace ExecutionLayer

/-! ## Returns -/

namespace Stack

theorem words_drop {stack rest : Stack} {count : Nat} (dropped : stack.drop count = .ok rest) :
    rest.words = stack.words.drop count := by
  unfold drop at dropped
  split at dropped
  · cases dropped
    rfl
  · cases dropped

theorem words_push {stack pushed : Stack} {word : Word} (made : stack.push word = .ok pushed) :
    pushed.words = word :: stack.words := by
  unfold push at made
  split at made
  · cases made
    rfl
  · cases made

end Stack

namespace Frame

/-- The answer stands on what is left without the operands. -/
theorem words_answer {frame child pushed : Frame} {stack : Stack} {memory : Memory}
    {returnData : Bytes} {word : Word}
    (pushing : Frame.push { takeBack { frame with stack, memory } child with returnData } word =
      .ok pushed) : pushed.stack.words = word :: stack.words := by
  obtain ⟨top, made, finished⟩ := bind_eq_ok pushing
  cases finished
  dsimp only at made
  rw [stack_takeBack] at made
  exact Stack.words_push made

theorem words_resumeCall {frame child after : Frame} {kind : CallKind}
    (resumed : frame.resumeCall kind child = .ok after) :
    ∃ word, after.stack.words = word :: frame.stack.words.drop kind.operandCount := by
  obtain ⟨⟨_, outputRange⟩, _, resumed⟩ := bind_eq_ok resumed
  obtain ⟨rest, dropped, resumed⟩ := bind_eq_ok resumed
  obtain ⟨pushed, pushing, resumed⟩ := bind_eq_ok resumed
  cases resumed
  rw [← Stack.words_drop dropped]
  exact ⟨_, @words_answer frame child pushed rest _ _ _ pushing⟩

theorem words_resumeCreate {frame child after : Frame} {kind : CreateKind}
    (resumed : frame.resumeCreate kind child = .ok after) :
    ∃ word, after.stack.words = word :: frame.stack.words.drop kind.operandCount := by
  obtain ⟨rest, dropped, resumed⟩ := bind_eq_ok resumed
  obtain ⟨pushed, pushing, resumed⟩ := bind_eq_ok resumed
  cases resumed
  rw [← Stack.words_drop dropped]
  exact ⟨_, @words_answer frame child pushed rest frame.memory _ _ pushing⟩

/-- A child's return puts one word in place of the operands of the request. -/
theorem Resumable.words_resume {schedule : GasSchedule} {frame : Frame} {instruction : Instruction}
    (resumable : frame.Resumable schedule)
    (decoded : Instruction.ofOpcode? schedule frame.currentOpcode = some instruction)
    (child : Frame) :
    (frame.resume schedule child).status = .codeExecuting ∧
      ∃ word, (frame.resume schedule child).stack.words =
        word :: frame.stack.words.drop instruction.consumed := by
  refine ⟨(resumable.receives child).status, ?_⟩
  obtain ⟨request, requested, fits, answerable⟩ := resumable
  rw [decoded] at requested
  cases requested
  unfold resume
  rw [decoded]
  cases instruction with
  | call kind =>
      obtain ⟨ranges, named⟩ := answerable
      obtain ⟨after, resumed⟩ := resumeCall_succeeds named (Instruction.consumed_le fits) child
      dsimp only [resumeBy]
      rw [resumed]
      exact words_resumeCall resumed
  | create kind =>
      obtain ⟨after, resumed⟩ := resumeCreate_succeeds (Instruction.consumed_le fits) child
      dsimp only [resumeBy]
      rw [resumed]
      exact words_resumeCreate resumed
  | _ => exact answerable.elim

end Frame

/-! ## Steps -/

namespace Machine

section

variable {schedule : GasSchedule} {context : Context} {machine after : Machine}
  {instruction : Instruction}

theorem Shaped.advance {below : List Word} (shaped : machine.Shaped instruction below)
    (count : Nat) : (machine.advance count).Shaped instruction below := by
  unfold Machine.advance
  split
  · exact shaped
  · exact shaped

/-- Only a turn that leaves the frame waiting suspends it. -/
theorem Turns.resumable (turns : machine.Turns instruction after)
    (decoded : Instruction.ofOpcode? schedule machine.frame.currentOpcode = some instruction)
    (fits : instruction.stackFault? machine.frame.stack.height = none)
    (awake : machine.frame.status ≠ .codeSuspended) (waits : after.frame.status = .codeSuspended) :
    after.frame.stack = machine.frame.stack ∧
      Instruction.ofOpcode? schedule after.frame.currentOpcode = some instruction ∧
      ∀ pendingChild, Frame.Resumable schedule { after.frame with pendingChild } := by
  rcases turns.turn with ⟨status, _⟩ | ⟨status, _⟩ | ⟨status, _, _⟩ |
    ⟨child, _, _, pc, stack, answerable, _⟩
  · exact absurd (status.symm.trans waits) awake
  · rw [waits] at status
    cases status
  · rw [waits] at status
    cases status
  · have same : after.frame.currentOpcode = machine.frame.currentOpcode := by
      rw [Frame.currentOpcode, turns.message, pc]
      rfl
    rw [← same] at decoded
    rw [← stack] at fits
    exact ⟨stack, decoded, fun _ => ⟨instruction, decoded, fits, answerable⟩⟩

theorem Turns.not_halted (turns : machine.Turns instruction after)
    (alive : machine.frame.status ≠ .exceptionalHalt) :
    after.frame.status ≠ .exceptionalHalt := by
  intro halted
  rcases turns.turn with ⟨status, _⟩ | ⟨status, _⟩ | ⟨status, _, _⟩ | ⟨_, status, _⟩
  · exact alive (status.symm.trans halted)
  all_goals
    rw [halted] at status
    cases status

/-- An admitted step halts without blaming the stack, or takes a turn with the declared shape. -/
theorem shaped_step
    (decoded : Instruction.ofOpcode? schedule machine.frame.currentOpcode = some instruction)
    (enough : instruction.consumed ≤ machine.frame.stack.height)
    (room : machine.frame.stack.height - instruction.consumed + instruction.produced ≤ Stack.limit)
    (stepped : machine.step schedule context = .ok after) :
    let below := machine.frame.stack.words.drop instruction.consumed
    (∃ (halted : Machine) (reason : Halt), after = halted.halt reason ∧
        reason.blamesStack = false ∧ ∃ count, halted.Holds count below) ∨
      machine.Turns instruction after ∧ after.Shaped instruction below := by
  intro below
  have fits := Instruction.stackFault?_eq_none enough room
  have height : below.length = machine.frame.stack.height - instruction.consumed :=
    List.length_drop
  have shapes := Action.shapes_execute schedule context instruction machine below
    (by rw [height]; exact room) (Stack.Holds.of_le enough)
  have turns := Action.turns_execute schedule context instruction machine
  unfold Action.Leaves at shapes
  unfold Action.Turns Action.Leads at turns
  cases ran : instruction.execute schedule context machine with
  | ok count moved =>
      simp only [step, decoded, fits, ran] at stepped shapes turns
      cases stepped
      exact .inr ⟨turns.advance count, shapes.advance count⟩
  | error stop halted =>
      cases stop with
      | halt reason =>
          simp only [step, decoded, fits, ran] at stepped shapes
          cases stepped
          exact .inl ⟨halted, reason, rfl, shapes⟩
      | state error =>
          simp only [step, decoded, fits, ran] at stepped
          cases stepped

/-- Every instruction that the dispatcher admits has exactly the effect on the stack that it
declares, and so has a request for a child together with the child's return. -/
theorem step_shape
    (decoded : Instruction.ofOpcode? schedule machine.frame.currentOpcode = some instruction)
    (enough : instruction.consumed ≤ machine.frame.stack.height)
    (room : machine.frame.stack.height - instruction.consumed + instruction.produced ≤ Stack.limit)
    (stepped : machine.step schedule context = .ok after) :
    let rest := machine.frame.stack.height - instruction.consumed
    let below := machine.frame.stack.words.drop instruction.consumed
    (machine.frame.status ≠ .exceptionalHalt → after.frame.status = .exceptionalHalt →
        ∃ reason, after.frame.haltReason = some reason ∧
          reason ≠ .insufficientStackItems ∧ reason ≠ .tooManyStackItems) ∧
      (∃ top, after.frame.stack.words = top ++ below) ∧
      (after.frame.status ∈ [.codeExecuting, .codeSuccess, .revert] →
        after.frame.stack.height = rest + instruction.produced) ∧
      (machine.frame.status ≠ .codeSuspended → after.frame.status = .codeSuspended →
        after.frame.stack = machine.frame.stack ∧
          ∀ (pendingChild : Option Message) (child : Frame),
            let resumed := { after.frame with pendingChild }.resume schedule child
            resumed.status = .codeExecuting ∧ resumed.stack.height = rest + 1 ∧
              ∃ word, resumed.stack.words = word :: below) := by
  intro rest below
  have length : below.length = rest := List.length_drop
  rcases shaped_step decoded enough room stepped with
    ⟨halted, reason, rfl, blameless, count, top, words, _⟩ | ⟨turns, shaped⟩
  · refine ⟨fun _ _ => ⟨reason, rfl, ?_, ?_⟩, ⟨top, words⟩, ?_, ?_⟩
    · rintro rfl
      cases blameless
    · rintro rfl
      cases blameless
    · intro ended
      have listed : Frame.Status.exceptionalHalt ∈
        [Frame.Status.codeExecuting, .codeSuccess, .revert] := ended
      exact absurd listed (by decide)
    · intro _ suspended
      cases suspended
  · refine ⟨fun alive halted => absurd halted (turns.not_halted alive), ?_, ?_, ?_⟩
    · rcases shaped with ⟨_, top, words, _⟩ | ⟨top, words, _⟩
      · exact ⟨top, words⟩
      · exact ⟨top, words⟩
    · intro ended
      rcases shaped with ⟨suspended, _⟩ | holds
      · rw [suspended] at ended
        exact absurd ended (by decide)
      · rw [holds.height, length, Nat.add_comm]
    · intro awake suspended
      obtain ⟨stack, requested, resumable⟩ :=
        turns.resumable decoded (Instruction.stackFault?_eq_none enough room) awake suspended
      refine ⟨stack, fun pendingChild child => ?_⟩
      intro resumed
      obtain ⟨status, word, words⟩ := (resumable pendingChild).words_resume requested child
      have answer : resumed.stack.words = word :: below := by
        have same := congrArg (·.words.drop instruction.consumed) stack
        exact words.trans (congrArg (word :: ·) same)
      refine ⟨status, ?_, word, answer⟩
      rw [Stack.height, answer, List.length_cons, length]

end

namespace Calling

def context : Context :=
  ⟨{}, {}, fun _ => none⟩

/-- A call of an account without code, with one word below its operands. -/
def machine : Machine where
  frame := { Frame.ofMessage { code := .ofBytes [0xF1] } ∅ ∅ with
    status := .codeExecuting
    gas := 100000
    stack := { words := [1000, 11, 0, 0, 0, 0, 0, 7] } }
  world := { base := { account := fun _ => .ok none, storage := fun _ _ => .ok 0 } }

end Calling

open Calling in
/-- The frame waits with all eight words, and two are left when the child comes back. -/
theorem call_suspends :
    ∃ after, Calling.machine.step (.ofFork .berlin) Calling.context = .ok after ∧
      after.frame.status = .codeSuspended ∧ after.frame.stack = Calling.machine.frame.stack ∧
      ∀ child, ∃ word, (({ after.frame with pendingChild := none } : Frame).resume
        (.ofFork .berlin) child).stack.words = [word, 7] := by
  have evaluated : (Calling.machine.step (.ofFork .berlin) Calling.context).toOption.any
      (fun after => after.frame.status == .codeSuspended) = true := by
    decide +kernel
  obtain ⟨after, ran, status⟩ := (Option.any_eq_true _ _).mp evaluated
  have stepped : Calling.machine.step (.ofFork .berlin) Calling.context = .ok after := by
    cases result : Calling.machine.step (.ofFork .berlin) Calling.context with
    | ok found =>
        rw [result] at ran
        exact congrArg Except.ok (Option.some.inj ran)
    | error error =>
        rw [result] at ran
        cases ran
  have suspended : after.frame.status = .codeSuspended := beq_iff_eq.mp status
  have decoded : Instruction.ofOpcode? (.ofFork .berlin) Calling.machine.frame.currentOpcode =
      some (.call .call) := by
    decide +kernel
  obtain ⟨_, _, _, waits⟩ := step_shape decoded (by decide) (by decide) stepped
  obtain ⟨stack, resumes⟩ := waits (by decide) suspended
  refine ⟨after, stepped, suspended, stack, fun child => ?_⟩
  obtain ⟨_, _, word, words⟩ := resumes none child
  exact ⟨word, words⟩

end Machine

end ExecutionLayer
