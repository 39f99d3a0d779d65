import ExecutionLayer.Proofs.Execution.Transitions
import ExecutionLayer.Proofs.Instruction.Headings
import ExecutionLayer.Proofs.Machine.Destinations

/-!
# Instruction boundaries

Reading code from its first byte, instruction after instruction, finds the positions at which
instructions begin. Jump destinations are among them, every instruction is as long as its opcode
says, and a frame goes on after a child right behind its request. So a running frame never
takes the immediate bytes of a push for instructions.
-/

set_option autoImplicit false

namespace ExecutionLayer

/-- The instruction that an opcode names is as long as the opcode and its immediate bytes. -/
theorem Instruction.size_of_decoded {schedule : GasSchedule} {opcode : UInt8}
    {instruction : Instruction} (decoded : ofOpcode? schedule opcode = some instruction) :
    instruction.size = 1 + Code.immediateLength opcode := by
  rw [Code.immediateLength_eq]
  unfold ofOpcode? at decoded
  split at decoded
  case h_76 =>
    split at decoded
    · rename_i push
      cases decoded
      rw [if_pos push]
      exact Nat.add_comm _ _
    · rename_i other
      rw [if_neg other]
      repeat' split at decoded
      all_goals cases decoded <;> rfl
  all_goals
    rename_i code
    rw [code, if_neg (by decide)]
    repeat' split at decoded
    all_goals cases decoded <;> rfl

namespace Frame

/-- The program counter is at an instruction, or the code has run out. -/
def AtBoundary (frame : Frame) : Prop :=
  frame.message.code.size ≤ frame.pc ∨ frame.message.code.Boundary frame.pc

variable {schedule : GasSchedule} {before after : Frame}

theorem AtBoundary.congr (atBoundary : before.AtBoundary) (message : after.message = before.message)
    (pc : after.pc = before.pc) : after.AtBoundary := by
  unfold AtBoundary
  rw [message, pc]
  exact atBoundary

theorem AtBoundary.falls {instruction : Instruction} (atBoundary : before.AtBoundary)
    (decoded : Instruction.ofOpcode? schedule before.currentOpcode = some instruction)
    (message : after.message = before.message) (pc : after.pc = before.pc + instruction.size) :
    after.AtBoundary := by
  unfold AtBoundary at *
  rw [message, pc]
  rcases atBoundary with past | boundary
  · exact .inl (by omega)
  · rcases Nat.lt_or_ge before.pc before.message.code.size with inside | past
    · have next := boundary.next inside
      rw [Instruction.size_of_decoded decoded, ← Nat.add_assoc]
      exact .inr next
    · exact .inl (by omega)

/-- Until its code ends, the frame is at a boundary. -/
def Aligned (frame : Frame) : Prop :=
  frame.status.isRecording = true → frame.AtBoundary

theorem aligned_of_ended (ended : after.status.isRecording = false) : after.Aligned := by
  intro recording
  rw [ended] at recording
  cases recording

theorem pc_start {frame started : Frame} {world later : JournaledWorld}
    (ran : frame.start world = .ok started later) (recording : started.status.isRecording = true) :
    started.pc = frame.pc := by
  cases kind : frame.message.kind with
  | messageCall =>
      rw [start_of_call kind] at ran
      obtain ⟨_, ⟨contract, rfl⟩ | rfl | ⟨_, rfl⟩⟩ := startCall_cases ran
      · obtain ⟨_, _, ended | ended⟩ := runPrecompile_ages (frame.checkpointed world) contract <;>
          simp [ended, Status.isRecording] at recording
      · cases recording
      · rfl
  | contractCreation =>
      rw [start_of_creation kind] at ran
      obtain ⟨_, rfl⟩ | ⟨_, _, _, _, _, rfl⟩ := startCreation_cases ran
      · cases recording
      · rfl

theorem pc_takeBack (frame child : Frame) : (frame.takeBack child).pc = frame.pc := by
  unfold takeBack
  split
  · exact (Action.keeps_addRefund _ child.refund).pc
  · rfl

theorem Answered.pc {frame child : Frame} (answered : Answered frame child after) :
    after.pc = frame.pc + 1 := by
  obtain ⟨stack, memory, returnData, word, pushed, pushing, rfl⟩ := answered
  obtain ⟨_, _, made⟩ := bind_eq_ok pushing
  cases made
  exact congrArg (· + 1) (pc_takeBack { frame with stack, memory } child)

/-- A request is one byte long. -/
theorem Answered.aligned {frame child : Frame} {instruction : Instruction}
    (answered : Answered frame child after) (atBoundary : frame.AtBoundary)
    (decoded : Instruction.ofOpcode? schedule frame.currentOpcode = some instruction)
    (size : instruction.size = 1) : after.Aligned := by
  intro _
  apply atBoundary.falls decoded answered.resumed.message
  rw [size, answered.pc]

theorem AtBoundary.resume {parent : Frame} (atBoundary : parent.AtBoundary) (child : Frame) :
    (parent.resume schedule child).Aligned := by
  unfold Frame.resume
  cases decoded : Instruction.ofOpcode? schedule parent.currentOpcode with
  | none => exact aligned_of_ended rfl
  | some instruction =>
      cases instruction with
      | call kind =>
          dsimp only [resumeBy]
          cases resumed : parent.resumeCall kind child with
          | ok after => exact (resumeCall_ok resumed).aligned atBoundary decoded rfl
          | error reason => exact aligned_of_ended rfl
      | create kind =>
          dsimp only [resumeBy]
          cases resumed : parent.resumeCreate kind child with
          | ok after => exact (resumeCreate_ok resumed).aligned atBoundary decoded rfl
          | error reason => exact aligned_of_ended rfl
      | _ => exact fun _ => atBoundary

theorem AtBoundary.step {context : Context} {machine stepped : Machine}
    (atBoundary : machine.frame.AtBoundary) (executing : machine.frame.status = .codeExecuting)
    (ran : machine.step schedule context = .ok stepped) : stepped.frame.Aligned := by
  obtain ⟨message, halted | ⟨instruction, decoded, heads⟩⟩ := Machine.heads_step executing ran
  · exact aligned_of_ended (by rw [halted]; rfl)
  · cases heads with
    | falls _ pc => exact fun _ => atBoundary.falls decoded message pc
    | jumps _ destination =>
        intro _
        rw [AtBoundary, message]
        exact .inr ((Code.isJumpDestination_iff.mp destination).1)
    | waits _ _ _ pc _ _ => exact fun _ => atBoundary.congr message pc
    | ends ended =>
        apply aligned_of_ended
        rcases ended with ended | ended <;> rw [ended] <;> rfl

end Frame

namespace Configuration

/-- The live frame is at a boundary until its code ends, and so is every frame that waits. -/
structure Aligned (configuration : Configuration) : Prop where
  current : configuration.current.Aligned
  parents : ∀ parent ∈ configuration.parents, parent.AtBoundary

section

variable {schedule : GasSchedule} {context : Context}

theorem Aligned.transition {before after : Configuration} (aligned : before.Aligned)
    (transition : Transition schedule context before after) : after.Aligned := by
  cases transition with
  | starts status ran parents =>
      refine ⟨fun recording => ?_, parents ▸ aligned.parents⟩
      have begun := aligned.current (by rw [status]; rfl)
      exact begun.congr (Frame.start_ok ran).ages.message (Frame.pc_start ran recording)
  | steps status ran parents =>
      have running := aligned.current (by rw [status]; rfl)
      exact ⟨Frame.AtBoundary.step running status ran, parents ▸ aligned.parents⟩
  | enters child status _ current parents _ =>
      constructor
      · intro _
        rw [current]
        exact .inr .first
      · rw [parents]
        intro parent member
        rcases List.mem_cons.mp member with rfl | earlier
        · exact (aligned.current (by rw [status]; rfl)).congr rfl rfl
        · exact aligned.parents parent earlier
  | commits _ ran parents =>
      refine ⟨Frame.aligned_of_ended ?_, parents ▸ aligned.parents⟩
      rcases (Frame.commit_ok ran).status with status | status <;> rw [status] <;> rfl
  | rollsBack _ ran parents =>
      refine ⟨Frame.aligned_of_ended ?_, parents ▸ aligned.parents⟩
      rw [Frame.rollBack_ok ran]
      rfl
  | leaves parent _ parents current _ =>
      constructor
      · rw [current]
        exact (aligned.parents parent (by simp [parents])).resume before.current
      · exact fun other member => aligned.parents other (by simp [parents, member])

theorem Reaches.aligned {depth : Nat} {first last : Configuration}
    (reached : Reaches schedule context depth first last) (aligned : first.Aligned) :
    last.Aligned := by
  induction reached with
  | start => exact aligned
  | advance _ advanced _ ih => exact ih.transition (transition_of_advance advanced)

end

/-- A root frame begins at the first byte of its code. Then, wherever its run comes to, every
frame that runs or waits is at an instruction boundary of its own code or past the end of it,
also after jumps and after the return of children. -/
theorem pc_at_boundary {schedule : GasSchedule} {context : Context} {root : Frame}
    {world : JournaledWorld} {last : Configuration} (pc : root.pc = 0)
    (reached : Reaches schedule context 0 ⟨root, [], world⟩ last) :
    ∀ frame ∈ last.current :: last.parents,
      frame.status = .codeExecuting ∨ frame.status = .codeSuspended →
        frame.message.code.size ≤ frame.pc ∨ frame.message.code.Boundary frame.pc := by
  have begun : Aligned ⟨root, [], world⟩ := by
    refine ⟨fun _ => ?_, fun _ member => nomatch member⟩
    rw [Frame.AtBoundary, pc]
    exact .inr .first
  obtain ⟨current, parents⟩ := reached.aligned begun
  intro frame member status
  rcases List.mem_cons.mp member with rfl | waiting
  · apply current
    rcases status with status | status <;> rw [status] <;> rfl
  · exact parents frame waiting

namespace Jumping

/-- Jumps over a jump destination that is push data, then pushes two more of them. -/
def jumper : Code :=
  .ofBytes [0x60, 0x05, 0x56, 0x60, 0x5B, 0x5B, 0x61, 0x5B, 0x5B, 0x00]

/-- Calls the account at eleven and drops the answer. -/
def caller : Code :=
  .ofBytes [0x60, 0, 0x60, 0, 0x60, 0, 0x60, 0, 0x60, 0, 0x60, 11, 0x61, 0xC3, 0x50, 0xF1, 0x50]

def view : WorldView where
  account address := .ok (if address = 11 then some { code := jumper } else none)
  storage _ _ := .ok 0

def context : Context :=
  ⟨{}, {}, fun _ => none⟩

def root : Frame :=
  .ofMessage { recipient := 10, contract := 10, code := caller, gas := 100000 } ∅ ∅

end Jumping

open Jumping in
/-- The child jumped and pushed, its caller waits at the call, and once it resumed it is right
behind it. -/
theorem jumping_at_boundary :
    ∃ running resumed parent,
      Reaches (.ofFork .berlin) context 0 ⟨root, [], { base := view }⟩ running ∧
      running.current.status = .codeExecuting ∧ running.current.pc = 9 ∧ jumper.Boundary 9 ∧
      running.parents = [parent] ∧ parent.status = .codeSuspended ∧ parent.pc = 15 ∧
      caller.Boundary 15 ∧
      Reaches (.ofFork .berlin) context 0 ⟨root, [], { base := view }⟩ resumed ∧
      resumed.current.status = .codeExecuting ∧ resumed.current.pc = 16 ∧ caller.Boundary 16 := by
  have evaluated : (iterate (.ofFork .berlin) context 15 ⟨root, [], { base := view }⟩).any
      (fun running => running.current.status == .codeExecuting && running.current.pc == 9 &&
        running.current.message.code == jumper &&
        running.parents.map (fun parent => (parent.status, parent.pc, parent.message.code)) ==
          [(.codeSuspended, 15, caller)]) = true := by
    decide +kernel
  have resumes : (iterate (.ofFork .berlin) context 18 ⟨root, [], { base := view }⟩).any
      (fun resumed => resumed.current.status == .codeExecuting && resumed.current.pc == 16 &&
        resumed.current.message.code == caller) = true := by
    decide +kernel
  obtain ⟨running, ran, holds⟩ := (Option.any_eq_true _ _).mp evaluated
  obtain ⟨resumed, went, returns⟩ := (Option.any_eq_true _ _).mp resumes
  simp only [Bool.and_eq_true, beq_iff_eq] at holds returns
  obtain ⟨⟨⟨executing, pc⟩, code⟩, waits⟩ := holds
  obtain ⟨⟨resumedStatus, resumedPc⟩, resumedCode⟩ := returns
  have reached := Reaches.of_iterate ran
  have reachedLater := Reaches.of_iterate went
  have inside {code : Code} {position : Nat}
      (place : code.size ≤ position ∨ code.Boundary position) (before : position < code.size) :
      code.Boundary position :=
    place.resolve_left (Nat.not_le.mpr before)
  obtain ⟨parent, waiting, shape⟩ := List.map_eq_singleton_iff.mp waits
  obtain ⟨suspended, parentPc, parentCode⟩ :
      parent.status = .codeSuspended ∧ parent.pc = 15 ∧ parent.message.code = caller := by
    simpa only [Prod.mk.injEq] using shape
  have child := pc_at_boundary rfl reached running.current (by simp) (.inl executing)
  have above := pc_at_boundary rfl reached parent (by simp [waiting]) (.inr suspended)
  have later := pc_at_boundary rfl reachedLater resumed.current (by simp) (.inl resumedStatus)
  rw [code, pc] at child
  rw [parentCode, parentPc] at above
  rw [resumedCode, resumedPc] at later
  exact ⟨running, resumed, parent, reached, executing, pc, inside child (by decide), waiting,
    suspended, parentPc, inside above (by decide), reachedLater, resumedStatus, resumedPc,
    inside later (by decide)⟩

end Configuration

end ExecutionLayer
