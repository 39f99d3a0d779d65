import ExecutionLayer.Execution
import ExecutionLayer.Proofs.Instruction.Step
import ExecutionLayer.Proofs.Results

/-!
# The life of a frame

What the start, the settlement and the resumption of a frame do to it and to the world.
-/

set_option autoImplicit false

namespace ExecutionLayer

theorem Journaled.run_checkpoint (world : JournaledWorld) :
    Journaled.checkpoint world = .ok world.journal.length world := rfl

namespace Frame

/-- A frame later in its life, which holds no more gas than before. -/
structure Ages (before after : Frame) : Prop where
  message : after.message = before.message
  pendingChild : after.pendingChild = before.pendingChild
  gas : after.gas.toNat ≤ before.gas.toNat

theorem Ages.of_keeps {before after : Frame} (keeps : before.Keeps after)
    (gas : after.gas.toNat ≤ before.gas.toNat) : Ages before after :=
  ⟨keeps.message, keeps.pendingChild, gas⟩

theorem ages_halt (frame : Frame) (reason : Halt) : Ages frame (frame.halt reason) :=
  ⟨rfl, rfl, Nat.zero_le _⟩

theorem useGas_ages {frame after : Frame} {amount : UInt64} (paid : frame.useGas amount = .ok after) :
    Ages frame after ∧ after.checkpoint = frame.checkpoint := by
  obtain ⟨keeps, exactly⟩ := useGas_eq_ok paid
  exact ⟨.of_keeps keeps (by omega), keeps.checkpoint⟩

/-! ## The start -/

/-- A native contract ends the frame with its output or halts it. -/
theorem runPrecompile_cases (frame : Frame) (contract : Precompile) :
    (∃ reason, frame.runPrecompile contract = frame.halt reason) ∨
      ∃ amount payer output, frame.useGas amount = .ok payer ∧
        frame.runPrecompile contract = payer.succeed output := by
  unfold runPrecompile
  cases contract frame.message.input frame.gas with
  | error error => exact .inl ⟨_, rfl⟩
  | ok result =>
      dsimp only
      cases paid : frame.useGas result.gasUsed with
      | error reason => exact .inl ⟨reason, rfl⟩
      | ok payer => exact .inr ⟨_, payer, _, paid, rfl⟩

theorem runPrecompile_ages (frame : Frame) (contract : Precompile) :
    Ages frame (frame.runPrecompile contract) ∧
      (frame.runPrecompile contract).checkpoint = frame.checkpoint ∧
      ((frame.runPrecompile contract).status = .codeSuccess ∨
        (frame.runPrecompile contract).status = .exceptionalHalt) := by
  rcases frame.runPrecompile_cases contract with
    ⟨reason, ended⟩ | ⟨amount, payer, output, paid, ended⟩
  · rw [ended]
    exact ⟨ages_halt frame reason, rfl, .inr rfl⟩
  · obtain ⟨ages, checkpoint⟩ := useGas_ages paid
    rw [ended]
    exact ⟨⟨ages.message, ages.pendingChild, ages.gas⟩, checkpoint, .inl rfl⟩

/-- What a frame that was started is. -/
structure Started (frame : Frame) (checkpoint : Checkpoint) (after : Frame) : Prop where
  ages : Ages frame after
  checkpoint : after.checkpoint = some checkpoint
  status : after.status = .codeExecuting ∨ after.status = .codeSuccess ∨
    after.status = .exceptionalHalt

theorem safeAt_startCall {frame : Frame} {world : JournaledWorld}
    (funded : Journaled.Funded world frame.message.sender frame.message.value) :
    Journaled.SafeAt frame.startCall world := by
  apply (Journaled.safeAt_transfer funded).bind
  intro _ after _
  cases Precompile.at? frame.message.contract with
  | some contract => exact .pure _ after
  | none =>
      dsimp only
      split <;> exact .pure _ after

theorem safeAt_startCreation {frame : Frame} {world : JournaledWorld}
    (funded : Journaled.Funded world frame.message.sender frame.message.value) :
    Journaled.SafeAt frame.startCreation world := by
  apply (Journaled.safeAt_question (fun account => account.any Account.blocksDeployment) _ _).bind
  intro isTaken answered ran
  obtain ⟨_, _, _, same⟩ := Journaled.question_ok (fun account => account.any Account.blocksDeployment) ran
  have fundedAnswered := funded.congr same
  cases isTaken with
  | true => exact .pure _ answered
  | false =>
      apply (Journaled.safeAt_createContract _ answered).bind
      intro _ created createdBy
      apply (Journaled.safeAt_transfer (fundedAnswered.createContract createdBy)).bind
      intro _ after _
      exact .pure _ after

/-- The frame with its checkpoint. -/
def checkpointed (frame : Frame) (world : JournaledWorld) : Frame :=
  { frame with checkpoint := some world.journal.length }

theorem start_of_call {frame : Frame} (kind : frame.message.kind = .messageCall)
    (world : JournaledWorld) : frame.start world = (frame.checkpointed world).startCall world := by
  unfold start
  rw [Journaled.run_bind_ok (Journaled.run_checkpoint world)]
  dsimp only
  rw [kind]
  rfl

theorem start_of_creation {frame : Frame} (kind : frame.message.kind = .contractCreation)
    (world : JournaledWorld) :
    frame.start world = (frame.checkpointed world).startCreation world := by
  unfold start
  rw [Journaled.run_bind_ok (Journaled.run_checkpoint world)]
  dsimp only
  rw [kind]
  rfl

theorem safeAt_start {frame : Frame} {world : JournaledWorld}
    (funded : Journaled.Funded world frame.message.sender frame.message.value) :
    Journaled.SafeAt frame.start world := by
  cases kind : frame.message.kind with
  | messageCall =>
      rw [Journaled.SafeAt, start_of_call kind, ← Journaled.SafeAt]
      exact safeAt_startCall funded
  | contractCreation =>
      rw [Journaled.SafeAt, start_of_creation kind, ← Journaled.SafeAt]
      exact safeAt_startCreation funded

theorem startCall_cases {frame started : Frame} {world after : JournaledWorld}
    (ran : frame.startCall world = .ok started after) :
    Journaled.transfer frame.message.sender frame.message.recipient frame.message.value world =
        .ok () after ∧
      ((∃ contract, started = frame.runPrecompile contract) ∨ started = frame.succeed [] ∨
        frame.message.code.isEmpty = false ∧
          started = { frame with status := .codeExecuting }) := by
  obtain ⟨_, moved, transferred, ran⟩ := Journaled.bind_eq_ok ran
  cases native : Precompile.at? frame.message.contract with
  | some contract =>
      rw [native] at ran
      cases ran
      exact ⟨transferred, .inl ⟨contract, rfl⟩⟩
  | none =>
      rw [native] at ran
      dsimp only at ran
      split at ran
      · cases ran
        exact ⟨transferred, .inr (.inl rfl)⟩
      · rename_i written
        cases ran
        exact ⟨transferred, .inr (.inr ⟨Bool.eq_false_iff.mpr written, rfl⟩)⟩

theorem startCall_ok {frame started : Frame} {world after : JournaledWorld}
    {checkpoint : Checkpoint} (taken : frame.checkpoint = some checkpoint)
    (ran : frame.startCall world = .ok started after) : Started frame checkpoint started := by
  obtain ⟨_, ⟨contract, rfl⟩ | rfl | ⟨_, rfl⟩⟩ := startCall_cases ran
  · obtain ⟨ages, kept, status⟩ := runPrecompile_ages frame contract
    exact ⟨ages, kept.trans taken, .inr status⟩
  · exact ⟨⟨rfl, rfl, Nat.le_refl _⟩, taken, .inr (.inl rfl)⟩
  · exact ⟨⟨rfl, rfl, Nat.le_refl _⟩, taken, .inl rfl⟩

theorem startCreation_cases {frame started : Frame} {world after : JournaledWorld}
    (ran : frame.startCreation world = .ok started after) :
    (Journaled.blocksDeployment frame.message.recipient world = .ok true after ∧
        started = frame.halt .contractCollision) ∨
      ∃ answered created,
        Journaled.blocksDeployment frame.message.recipient world = .ok false answered ∧
        Journaled.createContract frame.message.recipient answered = .ok () created ∧
        Journaled.transfer frame.message.sender frame.message.recipient frame.message.value
          created = .ok () after ∧
        started = { frame with status := .codeExecuting } := by
  obtain ⟨isTaken, answered, asked, ran⟩ := Journaled.bind_eq_ok ran
  cases isTaken with
  | true =>
      cases ran
      exact .inl ⟨asked, rfl⟩
  | false =>
      obtain ⟨_, created, creation, ran⟩ := Journaled.bind_eq_ok ran
      obtain ⟨_, moved, transferred, ran⟩ := Journaled.bind_eq_ok ran
      cases ran
      exact .inr ⟨answered, created, asked, creation, transferred, rfl⟩

theorem startCreation_ok {frame started : Frame} {world after : JournaledWorld}
    {checkpoint : Checkpoint} (taken : frame.checkpoint = some checkpoint)
    (ran : frame.startCreation world = .ok started after) :
    Started frame checkpoint started := by
  obtain ⟨_, rfl⟩ | ⟨_, _, _, _, _, rfl⟩ := startCreation_cases ran
  · exact ⟨ages_halt frame _, taken, .inr (.inr rfl)⟩
  · exact ⟨⟨rfl, rfl, Nat.le_refl _⟩, taken, .inl rfl⟩

/-- A frame that starts remembers where the journal ended. -/
theorem start_ok {frame started : Frame} {world after : JournaledWorld}
    (ran : frame.start world = .ok started after) :
    Started frame world.journal.length started := by
  cases kind : frame.message.kind with
  | messageCall =>
      rw [start_of_call kind] at ran
      obtain ⟨ages, checkpoint, status⟩ := startCall_ok rfl ran
      exact ⟨⟨ages.message, ages.pendingChild, ages.gas⟩, checkpoint, status⟩
  | contractCreation =>
      rw [start_of_creation kind] at ran
      obtain ⟨ages, checkpoint, status⟩ := startCreation_ok rfl ran
      exact ⟨⟨ages.message, ages.pendingChild, ages.gas⟩, checkpoint, status⟩

/-! ## The end -/

theorem payDeposit_eq_ok {schedule : GasSchedule} {frame payer : Frame}
    (paid : frame.payDeposit schedule = .ok payer) : ∃ amount, frame.useGas amount = .ok payer := by
  unfold payDeposit at paid
  split at paid
  · cases paid
  · split at paid
    · cases paid
    · exact ⟨_, paid⟩

theorem safeAt_commit (schedule : GasSchedule) (frame : Frame) (world : JournaledWorld) :
    Journaled.SafeAt (frame.commit schedule) world := by
  unfold commit
  cases frame.message.kind with
  | messageCall => exact .pure _ world
  | contractCreation =>
      dsimp only
      cases frame.payDeposit schedule with
      | error reason => exact .pure _ world
      | ok payer =>
          apply (Journaled.safeAt_setCode _ _ world).bind
          intro _ after _
          exact .pure _ after

/-- What a frame whose code ended normally settles to. -/
structure Committed (frame after : Frame) : Prop where
  ages : Ages frame after
  checkpoint : after.checkpoint = frame.checkpoint
  status : after.status = .completedSuccess ∨ after.status = .exceptionalHalt

theorem commit_cases {schedule : GasSchedule} {frame committed : Frame}
    {world after : JournaledWorld} (ran : frame.commit schedule world = .ok committed after) :
    (after = world ∧ (committed = { frame with status := .completedSuccess } ∨
        ∃ reason, committed = frame.halt reason)) ∨
      frame.message.kind = .contractCreation ∧ ∃ amount payer, frame.useGas amount = .ok payer ∧
        Journaled.setCode payer.message.recipient (Code.ofBytes payer.output) world =
          .ok () after ∧
        committed = { payer with status := .completedSuccess } := by
  unfold commit at ran
  cases kind : frame.message.kind with
  | messageCall =>
      rw [kind] at ran
      cases ran
      exact .inl ⟨rfl, .inl rfl⟩
  | contractCreation =>
      rw [kind] at ran
      dsimp only at ran
      cases paid : frame.payDeposit schedule with
      | error reason =>
          rw [paid] at ran
          cases ran
          exact .inl ⟨rfl, .inr ⟨reason, rfl⟩⟩
      | ok payer =>
          rw [paid] at ran
          obtain ⟨_, deployed, deploy, ran⟩ := Journaled.bind_eq_ok ran
          cases ran
          obtain ⟨amount, paid⟩ := payDeposit_eq_ok paid
          exact .inr ⟨rfl, amount, payer, paid, deploy, rfl⟩

theorem commit_ok {schedule : GasSchedule} {frame committed : Frame} {world after : JournaledWorld}
    (ran : frame.commit schedule world = .ok committed after) : Committed frame committed := by
  obtain ⟨_, rfl | ⟨reason, rfl⟩⟩ | ⟨_, amount, payer, paid, _, rfl⟩ := commit_cases ran
  · exact ⟨⟨rfl, rfl, Nat.le_refl _⟩, rfl, .inl rfl⟩
  · exact ⟨ages_halt frame reason, rfl, .inr rfl⟩
  · obtain ⟨ages, checkpoint⟩ := useGas_ages paid
    exact ⟨⟨ages.message, ages.pendingChild, ages.gas⟩, checkpoint, .inl rfl⟩

/-- A frame that failed goes back to where the journal ended when it started. -/
theorem rollBack_of_checkpoint {frame : Frame} {checkpoint : Checkpoint} (world : JournaledWorld)
    (taken : frame.checkpoint = some checkpoint) :
    frame.rollBack world = .ok { frame with status := .completedFailed, checkpoint := none }
      (world.undoLast (world.journal.length - checkpoint)) := by
  unfold rollBack
  rw [taken]
  rfl

/-! ## The return to the parent -/

/-- What a suspended frame becomes once its child completed. -/
structure Resumed (frame child after : Frame) : Prop where
  message : after.message = frame.message
  pendingChild : after.pendingChild = frame.pendingChild
  checkpoint : after.checkpoint = frame.checkpoint
  gas : after.gas.toNat ≤ frame.gas.toNat + child.gas.toNat
  status : after.status = .codeExecuting ∨ after.status = .exceptionalHalt

/-- What taking in a child's effects leaves as it was. -/
structure Absorbs (before after : Frame) : Prop where
  message : after.message = before.message
  pendingChild : after.pendingChild = before.pendingChild
  checkpoint : after.checkpoint = before.checkpoint
  gas : after.gas = before.gas

theorem absorb_absorbs (frame child : Frame) : Absorbs frame (frame.absorb child) := by
  have refunded : ∀ frame : Frame, Absorbs frame (frame.addRefund child.refund) := by
    intro frame
    obtain ⟨message, _, _, pendingChild, checkpoint⟩ := Action.keeps_addRefund frame child.refund
    exact ⟨message, pendingChild, checkpoint, Action.gas_addRefund frame child.refund⟩
  obtain ⟨message, pendingChild, checkpoint, gas⟩ := refunded
    { frame with
      logs := frame.logs ++ child.logs
      selfDestructs := frame.selfDestructs.insertMany child.selfDestructs.toList }
  exact ⟨message, pendingChild, checkpoint, gas⟩

/-- The frame with the gas of a child, and with what the child recorded if it succeeded. -/
def takeBack (frame child : Frame) : Frame :=
  if child.status == .completedSuccess then (frame.returnGas child.gas).absorb child
  else frame.returnGas child.gas

theorem takeBack_absorbs (frame child : Frame) :
    Absorbs (frame.returnGas child.gas) (frame.takeBack child) := by
  unfold takeBack
  split
  · exact absorb_absorbs _ child
  · exact ⟨rfl, rfl, rfl, rfl⟩

/-- The frame took its child back and goes on past the request, with an answer on top of
the stack. -/
def Answered (frame child after : Frame) : Prop :=
  ∃ (stack : Stack) (memory : Memory) (returnData : Bytes) (word : Word) (pushed : Frame),
    Frame.push { takeBack { frame with stack, memory } child with returnData } word =
        .ok pushed ∧
      after = { pushed with status := .codeExecuting, pc := pushed.pc + 1 }

theorem resumeCall_ok {frame child after : Frame} {kind : CallKind}
    (resumed : frame.resumeCall kind child = .ok after) : Answered frame child after := by
  obtain ⟨⟨_, outputRange⟩, _, resumed⟩ := bind_eq_ok resumed
  obtain ⟨stack, _, resumed⟩ := bind_eq_ok resumed
  obtain ⟨pushed, pushing, resumed⟩ := bind_eq_ok resumed
  cases resumed
  exact ⟨stack, _, _, _, pushed, pushing, rfl⟩

theorem resumeCreate_ok {frame child after : Frame} {kind : CreateKind}
    (resumed : frame.resumeCreate kind child = .ok after) : Answered frame child after := by
  obtain ⟨stack, _, resumed⟩ := bind_eq_ok resumed
  obtain ⟨pushed, pushing, resumed⟩ := bind_eq_ok resumed
  cases resumed
  exact ⟨stack, _, _, _, pushed, pushing, rfl⟩

theorem Answered.resumed {frame child after : Frame} (answered : Answered frame child after) :
    Resumed frame child after := by
  obtain ⟨stack, memory, returnData, word, pushed, pushing, rfl⟩ := answered
  obtain ⟨_, _, made⟩ := bind_eq_ok pushing
  cases made
  obtain ⟨message, pendingChild, checkpoint, gas⟩ :=
    takeBack_absorbs { frame with stack, memory } child
  refine ⟨message, pendingChild, checkpoint, ?_, .inl rfl⟩
  have returned := Frame.returnGas_le { frame with stack, memory } child.gas
  dsimp only
  rw [gas]
  exact returned

theorem resumed_halt (frame child : Frame) (reason : Halt) :
    Resumed frame child (frame.halt reason) :=
  ⟨rfl, rfl, rfl, Nat.zero_le _, .inr rfl⟩

/-- The frame is at an instruction that asks for a child. -/
def AtRequest (schedule : GasSchedule) (frame : Frame) : Prop :=
  ∃ instruction, Instruction.ofOpcode? schedule frame.currentOpcode = some instruction ∧
    instruction.AsksForChild

/-- A frame that is where it asked for the child goes on or halts, any other stays as it is
or halts. -/
theorem resume_cases (schedule : GasSchedule) (frame child : Frame) :
    Resumed frame child (frame.resume schedule child) ∨
      ¬frame.AtRequest schedule ∧ frame.resume schedule child = frame := by
  unfold resume
  cases decoded : Instruction.ofOpcode? schedule frame.currentOpcode with
  | none => exact .inl (resumed_halt frame child _)
  | some instruction =>
      dsimp only
      cases instruction with
      | call kind =>
          dsimp only [resumeBy]
          cases resumed : frame.resumeCall kind child with
          | ok after => exact .inl (resumeCall_ok resumed).resumed
          | error reason => exact .inl (resumed_halt frame child reason)
      | create kind =>
          dsimp only [resumeBy]
          cases resumed : frame.resumeCreate kind child with
          | ok after => exact .inl (resumeCreate_ok resumed).resumed
          | error reason => exact .inl (resumed_halt frame child reason)
      | _ =>
          refine .inr ⟨?_, rfl⟩
          rintro ⟨instruction, other, asks⟩
          rw [decoded] at other
          cases other
          exact asks

theorem resume_resumed {schedule : GasSchedule} {frame : Frame} (child : Frame)
    (atRequest : frame.AtRequest schedule) :
    Resumed frame child (frame.resume schedule child) :=
  (resume_cases schedule frame child).resolve_right fun other => other.1 atRequest

end Frame

end ExecutionLayer
