import ExecutionLayer.Proofs.Execution.Termination
import ExecutionLayer.Proofs.Instruction.Headings
import Mathlib.Data.List.Chain

/-!
# Nested frames

Every frame that waits does so at its request, one level above the frame that it waits for, and
no frame is deeper than the limit. Whatever its child came to, it goes on, and a frame that is
about to wait always has a child to enter.
-/

set_option autoImplicit false

namespace ExecutionLayer

namespace Frame

/-- The frame names a child one level below itself and within the limit. -/
def AsksWithin (frame : Frame) : Prop :=
  ∃ child, frame.pendingChild = some child ∧ child.depth = frame.message.depth + 1 ∧
    child.depth ≤ Message.maxDepth

variable {schedule : GasSchedule}

theorem Resumable.resumeBy_eq {frame : Frame} (resumable : frame.Resumable schedule)
    (child : Frame) :
    ∃ instruction, Instruction.ofOpcode? schedule frame.currentOpcode = some instruction ∧
      instruction.AsksForChild ∧
      frame.resumeBy child instruction = .ok (frame.resume schedule child) := by
  obtain ⟨instruction, decoded, fits, answerable⟩ := resumable
  unfold resume
  rw [decoded]
  cases instruction with
  | call kind =>
      have enough : kind.operandCount ≤ frame.stack.height := Instruction.consumed_le fits
      obtain ⟨ranges, named⟩ := answerable
      obtain ⟨after, resumed⟩ := resumeCall_succeeds named enough child
      refine ⟨.call kind, rfl, trivial, ?_⟩
      dsimp only [resumeBy]
      rw [resumed]
  | create kind =>
      have enough : kind.operandCount ≤ frame.stack.height := Instruction.consumed_le fits
      obtain ⟨after, resumed⟩ := resumeCreate_succeeds enough child
      refine ⟨.create kind, rfl, trivial, ?_⟩
      dsimp only [resumeBy]
      rw [resumed]
  | _ => exact answerable.elim

theorem message_resume (schedule : GasSchedule) (frame child : Frame) :
    (frame.resume schedule child).message = frame.message := by
  rcases resume_cases schedule frame child with resumed | ⟨_, unchanged⟩
  · exact resumed.message
  · rw [unchanged]

theorem asksWithin_step {context : Context} {machine after : Machine}
    (executing : machine.frame.status = .codeExecuting)
    (ran : machine.step schedule context = .ok after)
    (suspended : after.frame.status = .codeSuspended) : after.frame.AsksWithin := by
  obtain ⟨message, halted | ⟨_, _, heads⟩⟩ := Machine.heads_step executing ran
  · simp [halted] at suspended
  · cases heads with
    | falls executing _ => simp [executing] at suspended
    | jumps executing _ => simp [executing] at suspended
    | waits child _ pendingChild _ depth limited =>
        exact ⟨child, pendingChild, by rw [depth, message], limited⟩
    | ends ended => rcases ended with ended | ended <;> simp [ended] at suspended

end Frame

namespace Configuration

/-- The depths of the live frame and of those that wait, innermost first. -/
def depths (configuration : Configuration) : List Nat :=
  (configuration.current :: configuration.parents).map (·.message.depth)

/-- Each frame is one level below the next, none is below the limit, and a frame about to wait
asks for one that keeps it so. -/
structure Nested (configuration : Configuration) : Prop where
  chain : configuration.depths.IsChain fun inner outer => inner = outer + 1
  limited : ∀ depth ∈ configuration.depths, depth ≤ Message.maxDepth
  asks : configuration.current.status = .codeSuspended → configuration.current.AsksWithin

section

variable {schedule : GasSchedule} {context : Context} {before after : Configuration}

theorem Nested.keeps (nested : before.Nested)
    (message : after.current.message = before.current.message)
    (parents : after.parents = before.parents)
    (asks : after.current.status = .codeSuspended → after.current.AsksWithin) : after.Nested := by
  have same : after.depths = before.depths := by simp only [depths, List.map_cons, message, parents]
  exact ⟨same ▸ nested.chain, same ▸ nested.limited, asks⟩

theorem Nested.transition (nested : before.Nested) (orderly : Orderly schedule before)
    (transition : Transition schedule context before after) : after.Nested := by
  cases transition with
  | starts _ ran parents =>
      apply nested.keeps (Frame.start_ok ran).ages.message parents
      intro suspended
      rcases (Frame.start_ok ran).status with status | status | status <;>
        simp [status] at suspended
  | steps status ran parents =>
      exact nested.keeps (Machine.heads_step status ran).1 parents
        (Frame.asksWithin_step status ran)
  | enters child status pendingChild current parents _ =>
      obtain ⟨asked, named, depth, limited⟩ := nested.asks status
      cases pendingChild.symm.trans named
      have deeper : after.depths = child.depth :: before.depths := by
        simp only [depths, current, parents, List.map_cons]
        rfl
      refine ⟨?_, ?_, by simp [current, Frame.ofMessage]⟩
      · rw [deeper]
        exact .cons_cons depth nested.chain
      · rw [deeper]
        intro other member
        rcases List.mem_cons.mp member with rfl | earlier
        · exact limited
        · exact nested.limited other earlier
  | commits _ ran parents =>
      apply nested.keeps (Frame.commit_ok ran).ages.message parents
      intro suspended
      rcases (Frame.commit_ok ran).status with status | status <;> simp [status] at suspended
  | rollsBack _ ran parents =>
      have rolled := Frame.rollBack_ok ran
      exact nested.keeps (by rw [rolled]) parents (by simp [rolled])
  | leaves parent _ parents current _ =>
      have shallower : before.depths = before.current.message.depth :: after.depths := by
        simp only [depths, current, parents, List.map_cons, Frame.message_resume]
      have resumable := orderly.parents parent (by simp [parents])
      have resumed := (resumable.receives before.current).status
      obtain ⟨chain, limited, _⟩ := nested
      rw [shallower] at chain limited
      refine ⟨chain.tail, ?_, by simp [current, resumed]⟩
      exact fun depth member => limited depth (List.mem_cons_of_mem _ member)

theorem Reaches.nested {depth : Nat} {first last : Configuration}
    (reached : Reaches schedule context depth first last) (nested : first.Nested)
    (orderly : Orderly schedule first) : last.Nested := by
  induction reached with
  | start => exact nested
  | advance earlier advanced _ ih =>
      exact ih.transition (earlier.orderly orderly) (transition_of_advance advanced)

theorem nested_of_root {root : Frame} (awake : root.status ≠ .codeSuspended)
    (shallow : root.message.depth ≤ Message.maxDepth) (world : JournaledWorld) :
    Nested ⟨root, [], world⟩ :=
  ⟨.singleton _, by simpa [depths] using shallow, fun suspended => absurd suspended awake⟩

theorem Nested.enters {configuration : Configuration} (nested : configuration.Nested)
    (suspended : configuration.current.status = .codeSuspended) :
    ∃ next, configuration.advance schedule context = .ok (.running next) := by
  obtain ⟨child, named, _⟩ := nested.asks suspended
  exact ⟨_, (advance_of_suspended schedule context suspended).trans (enterChild_of_some named)⟩

/-- A run that fails fails at a configuration it reached. -/
theorem run_eq_error {fuel : Nat} {first : Configuration} {error : StateError}
    (ran : first.run schedule context fuel = some (.error error)) :
    ∃ failing, Reaches schedule context 0 first failing ∧
      failing.advance schedule context = .error error := by
  induction fuel generalizing first with
  | zero => cases ran
  | succ fuel ih =>
      unfold run at ran
      cases advanced : first.advance schedule context with
      | error raised =>
          simp only [advanced, Option.some.injEq, Except.error.injEq] at ran
          exact ⟨first, .start, ran ▸ advanced⟩
      | ok progress =>
          cases progress with
          | finished root world => simp [advanced] at ran
          | running next =>
              rw [advanced] at ran
              obtain ⟨failing, reached, fails⟩ := ih ran
              exact ⟨failing, (Reaches.start.advance advanced (Nat.zero_le _)).trans reached, fails⟩

end

/-- From a root frame that has yet to start and is not too deep, a run comes only to
configurations in which each waiting frame is suspended at a call or creation with its child
handed over, goes on whatever that child came to, and is one level above the frame it waits
for, up to the limit. A suspended live frame always has a child to enter. So what fails a run
is never a missing child, but the start, a step or the settlement of a frame. -/
theorem frames_nest {schedule : GasSchedule} {context : Context} {root : Frame}
    {world : JournaledWorld} (status : root.status = .notStarted)
    (shallow : root.message.depth ≤ Message.maxDepth) :
    (∀ last, Reaches schedule context 0 ⟨root, [], world⟩ last →
      (∀ parent ∈ last.parents, parent.status = .codeSuspended ∧ parent.pendingChild = none ∧
        ∀ child, ∃ instruction,
          Instruction.ofOpcode? schedule parent.currentOpcode = some instruction ∧
          instruction.AsksForChild ∧
          parent.resumeBy child instruction = .ok (parent.resume schedule child) ∧
          (parent.resume schedule child).status = .codeExecuting) ∧
      last.depths.IsChain (fun inner outer => inner = outer + 1) ∧
      (∀ depth ∈ last.depths, depth ≤ Message.maxDepth) ∧
      (last.current.status = .codeSuspended →
        ∃ next, last.advance schedule context = .ok (.running next))) ∧
    (∀ fuel error,
      run schedule context fuel ⟨root, [], world⟩ = some (.error error) →
        ∃ failing, Reaches schedule context 0 ⟨root, [], world⟩ failing ∧
          failing.current.status ≠ .codeSuspended ∧
          failing.advance schedule context = .error error) ∧
    ∀ fork error, schedule = .ofFork fork → process schedule context root world = .error error →
      ∃ failing, Reaches schedule context 0 ⟨root, [], world⟩ failing ∧
        failing.current.status ≠ .codeSuspended ∧
        failing.advance schedule context = .error error := by
  have orderly : Orderly schedule ⟨root, [], world⟩ := orderly_of_notStarted status world
  have nested : Nested ⟨root, [], world⟩ := nested_of_root (by simp [status]) shallow world
  have awake {failing : Configuration} {error : StateError}
      (reached : Reaches schedule context 0 ⟨root, [], world⟩ failing)
      (fails : failing.advance schedule context = .error error) :
      failing.current.status ≠ .codeSuspended := by
    intro suspended
    obtain ⟨next, advanced⟩ := (reached.nested nested orderly).enters suspended
    rw [fails] at advanced
    cases advanced
  refine ⟨fun last reached => ⟨?_, ?_⟩, ?_, ?_⟩
  · intro parent member
    obtain ⟨suspended, handedOver⟩ :=
      reached.handedOver (handedOver_of_root root world) parent member
    refine ⟨suspended, handedOver, fun child => ?_⟩
    have resumable := (reached.orderly orderly).parents parent member
    obtain ⟨instruction, decoded, asks, resumed⟩ := resumable.resumeBy_eq child
    exact ⟨instruction, decoded, asks, resumed, (resumable.receives child).status⟩
  · have nestedLast := reached.nested nested orderly
    exact ⟨nestedLast.chain, nestedLast.limited, nestedLast.enters⟩
  · intro fuel error ran
    obtain ⟨failing, reached, fails⟩ := run_eq_error ran
    exact ⟨failing, reached, awake reached fails, fails⟩
  · rintro fork error rfl failed
    obtain ⟨failing, reached, concludes⟩ := process_concludes fork context world status
    rw [failed] at concludes
    cases concludes with
    | fails fails => exact ⟨failing, reached, awake reached fails, fails⟩

open Payment in
/-- The paid account's frame runs one level below the payer's, which waits at its call and goes
on whatever comes back. -/
theorem payment_nests :
    ∃ last parent, Reaches (.ofFork .berlin) context 0 ⟨root, [], { base := view }⟩ last ∧
      last.current.status = .codeExecuting ∧ last.parents = [parent] ∧
      parent.status = .codeSuspended ∧ parent.currentOpcode = 0xF1 ∧
      last.depths = [1, 0] ∧ last.depths.IsChain (fun inner outer => inner = outer + 1) ∧
      ∀ child, (parent.resume (.ofFork .berlin) child).status = .codeExecuting := by
  have evaluated : (iterate (.ofFork .berlin) context 11 ⟨root, [], { base := view }⟩).any
      (fun last => last.current.status == .codeExecuting && last.depths == [1, 0] &&
        last.parents.map Frame.currentOpcode == [0xF1]) = true := by
    decide +kernel
  obtain ⟨last, ran, holds⟩ := (Option.any_eq_true _ _).mp evaluated
  simp only [Bool.and_eq_true, beq_iff_eq] at holds
  obtain ⟨⟨executing, depths⟩, waits⟩ := holds
  have reached := Reaches.of_iterate ran
  have status : root.status = .notStarted := rfl
  have shallow : root.message.depth ≤ Message.maxDepth := by decide
  obtain ⟨configurations, _⟩ := @frames_nest (.ofFork .berlin) context root { base := view }
    status shallow
  obtain ⟨parents, chain, _⟩ := configurations last reached
  obtain ⟨parent, waiting, opcode⟩ := List.map_eq_singleton_iff.mp waits
  obtain ⟨suspended, _, resumes⟩ := parents parent (by simp [waiting])
  refine ⟨last, parent, reached, executing, waiting, suspended, opcode, depths, chain, ?_⟩
  intro child
  obtain ⟨_, _, _, _, goesOn⟩ := resumes child
  exact goesOn

end Configuration

end ExecutionLayer
