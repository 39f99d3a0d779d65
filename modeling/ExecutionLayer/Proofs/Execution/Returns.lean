import ExecutionLayer.Proofs.Execution.Frames
import ExecutionLayer.Proofs.Instruction.Turns

/-!
# Returns to the parent

A suspended frame that took its turn with the operands its request needs always goes on when
the child comes back. A child that failed adds nothing to what the frame recorded.
-/

set_option autoImplicit false

namespace ExecutionLayer

theorem Stack.drop_of_le {stack : Stack} {count : Nat} (enough : count ≤ stack.height) :
    stack.drop count = .ok (stack.removeTop count) :=
  if_pos enough

/-- Words that were taken off leave room for one. -/
theorem Stack.push_removeTop {stack : Stack} {count : Nat} (positive : 0 < count)
    (enough : count ≤ stack.height) (word : Word) :
    ∃ pushed, (stack.removeTop count).push word = .ok pushed := by
  have limited : stack.height ≤ limit := stack.length_le
  have shorter : (stack.removeTop count).words.length = stack.height - count := List.length_drop
  have room : (stack.removeTop count).words.length < limit := by
    rw [shorter]
    omega
  exact ⟨_, dif_pos room⟩

theorem Instruction.consumed_le {instruction : Instruction} {height : Nat}
    (fits : instruction.stackFault? height = none) : instruction.consumed ≤ height := by
  unfold stackFault? at fits
  split at fits
  · cases fits
  · omega

namespace Frame

/-- What two frames recorded is the same: logs, accounts to delete, refund and warm sets. -/
structure RecordsAlike (left right : Frame) : Prop where
  logs : right.logs = left.logs
  selfDestructs : right.selfDestructs = left.selfDestructs
  refund : right.refund = left.refund
  warmAddresses : right.warmAddresses = left.warmAddresses
  warmSlots : right.warmSlots = left.warmSlots

/-- How a frame goes on with a child. -/
structure Receives (frame child after : Frame) : Prop where
  status : after.status = .codeExecuting
  unchanged : child.status ≠ .completedSuccess → frame.RecordsAlike after
  refund : child.status = .completedSuccess →
    after.refund = (frame.addRefund child.refund).refund
  bare : frame.Bare → child.Bare → after.Bare
  selfDestructs : ∀ address ∈ after.selfDestructs,
    address ∈ frame.selfDestructs ∨ address ∈ child.selfDestructs
  warms : child.status = .completedSuccess → child.Warms after

theorem bare_absorb {frame child : Frame} (bare : frame.Bare) (childBare : child.Bare) :
    (frame.absorb child).Bare := by
  obtain ⟨logs, selfDestructs, refund⟩ := bare
  obtain ⟨childLogs, childSelfDestructs, childRefund⟩ := childBare
  have nothing : Gas.saturateRefund 0 = 0 := by decide
  unfold absorb addRefund
  dsimp only
  split <;> constructor <;>
    simp [logs, selfDestructs, refund, childLogs, childSelfDestructs, childRefund, nothing]

theorem bare_takeBack {frame child : Frame} (bare : frame.Bare) (childBare : child.Bare) :
    (frame.takeBack child).Bare := by
  have paidBack : (frame.returnGas child.gas).Bare := bare.congr rfl rfl rfl
  unfold takeBack
  split
  · exact bare_absorb paidBack childBare
  · exact paidBack

theorem takeBack_of_failed {frame child : Frame} (failed : child.status ≠ .completedSuccess) :
    frame.takeBack child = frame.returnGas child.gas :=
  if_neg (by simpa using failed)

theorem refund_takeBack {frame child : Frame} (succeeded : child.status = .completedSuccess) :
    (frame.takeBack child).refund = (frame.addRefund child.refund).refund := by
  let merging : Frame :=
    { frame.returnGas child.gas with
      logs := (frame.returnGas child.gas).logs ++ child.logs
      selfDestructs := (frame.returnGas child.gas).selfDestructs.insertMany
        child.selfDestructs.toList }
  have merged : (merging.addRefund child.refund).refund = (frame.addRefund child.refund).refund :=
    @refund_addRefund_congr frame merging rfl rfl child.refund
  unfold takeBack
  rw [if_pos (beq_iff_eq.mpr succeeded)]
  exact merged

theorem selfDestructs_addRefund (frame : Frame) (amount : Int) :
    (frame.addRefund amount).selfDestructs = frame.selfDestructs := by
  unfold addRefund
  split <;> rfl

theorem mem_selfDestructs_takeBack {frame child : Frame} {address : Address}
    (member : address ∈ (frame.takeBack child).selfDestructs) :
    address ∈ frame.selfDestructs ∨ address ∈ child.selfDestructs := by
  unfold takeBack at member
  split at member
  · change address ∈ (addRefund _ child.refund).selfDestructs at member
    rw [selfDestructs_addRefund, Std.ExtTreeSet.mem_insertMany_list] at member
    rcases member with own | taken
    · exact .inl own
    · exact .inr (by simpa using taken)
  · exact .inl member

theorem warms_takeBack {frame child : Frame} (succeeded : child.status = .completedSuccess) :
    child.Warms (frame.takeBack child) := by
  unfold takeBack
  rw [if_pos (beq_iff_eq.mpr succeeded)]
  exact fun _ => id

theorem Answered.receives {frame child after : Frame} (answered : Answered frame child after) :
    frame.Receives child after := by
  obtain ⟨stack, memory, returnData, word, pushed, pushing, rfl⟩ := answered
  obtain ⟨_, _, made⟩ := bind_eq_ok pushing
  cases made
  refine ⟨rfl, fun failed => ?_, fun succeeded => ?_, fun bare childBare => ?_,
    fun _ => @mem_selfDestructs_takeBack { frame with stack, memory } _ _,
    @warms_takeBack { frame with stack, memory } child⟩
  · rw [takeBack_of_failed failed]
    exact ⟨rfl, rfl, rfl, rfl, rfl⟩
  · have merged := @refund_takeBack { frame with stack, memory } child succeeded
    exact merged.trans
      (@refund_addRefund_congr frame { frame with stack, memory } rfl rfl child.refund)
  · have bareFrame : Bare { frame with stack, memory } := bare.congr rfl rfl rfl
    exact (bare_takeBack bareFrame childBare).congr rfl rfl rfl

theorem stack_takeBack (frame child : Frame) : (frame.takeBack child).stack = frame.stack := by
  unfold takeBack
  split
  · exact stack_addRefund _ child.refund
  · rfl

/-- Where the operands came off, the answer fits. -/
theorem push_ne_error {base child : Frame} {stack : Stack} {count : Nat} {returnData : Bytes}
    {word : Word} {reason : Halt} (positive : 0 < count) (enough : count ≤ stack.height)
    (same : base.stack = stack.removeTop count) :
    Frame.push { takeBack base child with returnData } word ≠ .error reason := by
  obtain ⟨pushed, pushing⟩ := Stack.push_removeTop positive enough word
  intro failed
  unfold push at failed
  dsimp only at failed
  rw [stack_takeBack, same, pushing] at failed
  cases failed

theorem resumeCall_succeeds {frame : Frame} {kind : CallKind} {ranges : MemoryRange × MemoryRange}
    (named : kind.memoryRanges frame.stack = .ok ranges)
    (enough : kind.operandCount ≤ frame.stack.height) (child : Frame) :
    ∃ after, frame.resumeCall kind child = .ok after := by
  have positive : 0 < kind.operandCount := by cases kind <;> decide
  cases resumed : frame.resumeCall kind child with
  | ok after => exact ⟨after, rfl⟩
  | error reason =>
      -- Each of its three steps is possible.
      rcases bind_eq_error resumed with failed | ⟨_, _, resumed⟩
      · rw [named] at failed
        cases failed
      rcases bind_eq_error resumed with failed | ⟨stack, dropped, resumed⟩
      · rw [Stack.drop_of_le enough] at failed
        cases failed
      rw [Stack.drop_of_le enough] at dropped
      cases dropped
      rcases bind_eq_error resumed with failed | ⟨_, _, resumed⟩
      · exact absurd failed (push_ne_error positive enough rfl)
      · cases resumed

theorem resumeCreate_succeeds {frame : Frame} {kind : CreateKind}
    (enough : kind.operandCount ≤ frame.stack.height) (child : Frame) :
    ∃ after, frame.resumeCreate kind child = .ok after := by
  have positive : 0 < kind.operandCount := by cases kind <;> decide
  cases resumed : frame.resumeCreate kind child with
  | ok after => exact ⟨after, rfl⟩
  | error reason =>
      rcases bind_eq_error resumed with failed | ⟨stack, dropped, resumed⟩
      · rw [Stack.drop_of_le enough] at failed
        cases failed
      rw [Stack.drop_of_le enough] at dropped
      cases dropped
      rcases bind_eq_error resumed with failed | ⟨_, _, resumed⟩
      · exact absurd failed (push_ne_error positive enough rfl)
      · cases resumed

/-- The frame is at an instruction that asked for a child, with the operands that the
child's return needs. -/
def Resumable (schedule : GasSchedule) (frame : Frame) : Prop :=
  ∃ instruction, Instruction.ofOpcode? schedule frame.currentOpcode = some instruction ∧
    instruction.stackFault? frame.stack.height = none ∧ instruction.Answerable frame.stack

theorem Resumable.atRequest {schedule : GasSchedule} {frame : Frame}
    (resumable : frame.Resumable schedule) : frame.AtRequest schedule := by
  obtain ⟨instruction, decoded, _, answerable⟩ := resumable
  exact ⟨instruction, decoded, Instruction.asksForChild_of_answerable answerable⟩

theorem Resumable.receives {schedule : GasSchedule} {frame : Frame}
    (resumable : frame.Resumable schedule) (child : Frame) :
    frame.Receives child (frame.resume schedule child) := by
  obtain ⟨instruction, decoded, fits, answerable⟩ := resumable
  unfold resume
  rw [decoded]
  cases instruction with
  | call kind =>
      have enough : kind.operandCount ≤ frame.stack.height := Instruction.consumed_le fits
      obtain ⟨ranges, named⟩ := answerable
      obtain ⟨after, resumed⟩ := resumeCall_succeeds named enough child
      dsimp only [resumeBy]
      rw [resumed]
      exact (resumeCall_ok resumed).receives
  | create kind =>
      have enough : kind.operandCount ≤ frame.stack.height := Instruction.consumed_le fits
      obtain ⟨after, resumed⟩ := resumeCreate_succeeds enough child
      dsimp only [resumeBy]
      rw [resumed]
      exact (resumeCreate_ok resumed).receives
  | _ => exact answerable.elim

end Frame

end ExecutionLayer
