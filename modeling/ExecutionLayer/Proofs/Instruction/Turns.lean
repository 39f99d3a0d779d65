import ExecutionLayer.Proofs.Instruction.Calls
import ExecutionLayer.Proofs.Instruction.Observation
import ExecutionLayer.Proofs.World.Storage

/-!
# Where an instruction leaves a frame

An instruction that does not halt lets the code go on, ends it, or leaves the frame waiting
for a child with the operands that the child's return needs. What it wrote can be undone. In
a frame that may only read it wrote nothing, and the child may only read as well. Only a store
writes slots, and no other instruction moves the refund counter unless it drops it.
-/

set_option autoImplicit false

namespace ExecutionLayer

open JournaledWorld (Continues)

/-- A call that may only read. The value it moves, if any, comes back to its sender. -/
structure Message.ReadOnly (message : Message) : Prop where
  kind : message.kind = .messageCall
  isStatic : message.isStatic = true
  value : message.value = 0 ∨ message.sender = message.recipient

/-- The instruction asks for a child, and the stack has what the child's return reads. -/
def Instruction.Answerable (stack : Stack) : Instruction → Prop
  | .call kind => ∃ ranges, kind.memoryRanges stack = .ok ranges
  | .create _ => True
  | _ => False

theorem Instruction.asksForChild_of_answerable {instruction : Instruction} {stack : Stack}
    (answerable : instruction.Answerable stack) : instruction.AsksForChild := by
  cases instruction <;> trivial

/-- How an instruction leaves a frame that it does not halt. -/
inductive Frame.Turn (instruction : Instruction) (before after : Frame) : Prop where
  | goesOn (status : after.status = before.status)
      (pendingChild : after.pendingChild = before.pendingChild)
  | succeeds (status : after.status = .codeSuccess)
      (pendingChild : after.pendingChild = before.pendingChild)
  | reverts (status : after.status = .revert)
      (pendingChild : after.pendingChild = before.pendingChild) (bare : after.Bare)
  | waits (child : Message) (status : after.status = .codeSuspended)
      (pendingChild : after.pendingChild = some child) (pc : after.pc = before.pc)
      (stack : after.stack = before.stack) (answerable : instruction.Answerable after.stack)
      (readOnly : before.message.isStatic = true → child.ReadOnly)

namespace Machine

/-- What an instruction that does not halt makes of a machine. -/
structure Turns (instruction : Instruction) (before after : Machine) : Prop where
  message : after.frame.message = before.frame.message
  checkpoint : after.frame.checkpoint = before.frame.checkpoint
  continues : Continues before.world after.world
  readings : before.frame.message.isStatic = true → after.world.readings = before.world.readings
  slots : instruction ≠ .sstore → before.world.readings.StorageAlike after.world.readings
  refund : instruction ≠ .sstore → after.frame.status ≠ .revert →
    after.frame.refund = before.frame.refund
  bare : before.frame.message.isStatic = true → before.frame.Bare → after.frame.Bare
  turn : before.frame.Turn instruction after.frame

variable {instruction : Instruction} {start machine : Machine}

/-- After looking, the frame takes a turn that leaves what it recorded or drops it. -/
theorem Observes.take {after : Frame} (observes : start.Observes machine)
    (message : after.message = machine.frame.message)
    (checkpoint : after.checkpoint = machine.frame.checkpoint)
    (refund : after.status ≠ .revert → after.refund = machine.frame.refund)
    (bare : machine.frame.Bare → after.Bare) (turn : start.frame.Turn instruction after) :
    start.Turns instruction { machine with frame := after } :=
  ⟨message.trans observes.frame.message, checkpoint.trans observes.frame.checkpoint,
    observes.continues, fun _ => observes.readings, fun _ => .of_eq observes.readings,
    fun _ status => (refund status).trans observes.frame.refund,
    fun _ recorded => bare (observes.frame.bare recorded), turn⟩

theorem Observes.turns (observes : start.Observes machine) : start.Turns instruction machine :=
  observes.take rfl rfl (fun _ => rfl) id (.goesOn observes.frame.status observes.frame.pendingChild)

theorem Observes.turns_jump (observes : start.Observes machine) (pc : Nat) :
    start.Turns instruction { machine with frame := { machine.frame with pc } } :=
  observes.take rfl rfl (fun _ => rfl) (·.congr rfl rfl rfl)
    (.goesOn observes.frame.status observes.frame.pendingChild)

theorem Observes.turns_succeed (observes : start.Observes machine) (output : Bytes) :
    start.Turns instruction { machine with frame := machine.frame.succeed output } :=
  observes.take rfl rfl (fun _ => rfl) (·.congr rfl rfl rfl) (.succeeds rfl observes.frame.pendingChild)

theorem Observes.turns_revert (observes : start.Observes machine) (output : Bytes) :
    start.Turns instruction { machine with frame := machine.frame.revert output } :=
  observes.take rfl rfl (fun status => absurd rfl status) (fun _ => ⟨rfl, rfl, rfl⟩)
    (.reverts rfl observes.frame.pendingChild ⟨rfl, rfl, rfl⟩)

theorem Peeks.turns_suspend {child : Message} (peeks : start.Peeks machine)
    (answerable : instruction.Answerable machine.frame.stack)
    (readOnly : start.frame.message.isStatic = true → child.ReadOnly) :
    start.Turns instruction { machine with frame := machine.frame.suspend child } :=
  peeks.toObserves.take rfl rfl (fun _ => rfl) (·.congr rfl rfl rfl)
    (.waits child rfl rfl peeks.frame.pc peeks.stack answerable readOnly)

/-- A frame that writes is not one that may only read. -/
theorem Turns.of_writable (message : machine.frame.message = start.frame.message)
    (checkpoint : machine.frame.checkpoint = start.frame.checkpoint)
    (continues : Continues start.world machine.world)
    (slots : instruction ≠ .sstore → start.world.readings.StorageAlike machine.world.readings)
    (refund : instruction ≠ .sstore → machine.frame.refund = start.frame.refund)
    (writable : start.frame.message.isStatic = false)
    (turn : start.frame.Turn instruction machine.frame) : start.Turns instruction machine := by
  refine ⟨message, checkpoint, continues, fun isStatic => ?_, slots, fun other _ => refund other,
    fun isStatic => ?_, turn⟩
  · rw [writable] at isStatic
    cases isStatic
  · rw [writable] at isStatic
    cases isStatic

theorem Reversible.of_writable (frame : start.frame.Keeps machine.frame)
    (continues : Continues start.world machine.world)
    (writable : start.frame.message.isStatic = false) : start.Reversible machine := by
  refine ⟨frame, continues, fun isStatic => ?_⟩
  rw [writable] at isStatic
  cases isStatic

theorem Peeks.reversible {before after : Machine} (peeks : before.Peeks after) :
    before.Reversible after :=
  peeks.toObserves.reversible

end Machine

open Machine

namespace Action

variable {Value Result : Type} {instruction : Instruction} {machine : Machine}

/-- The action leaves the frame at a turn of the instruction, or halts it. -/
def Turns (instruction : Instruction) (action : Action Value) (machine : Machine) : Prop :=
  Leads action machine machine.Reversible fun _ after => machine.Turns instruction after

theorem Turns.map {change : Value → Result} {action : Action Value}
    (turns : Turns instruction action machine) :
    Turns instruction (action >>= fun value => pure (change value)) machine :=
  Leads.bind turns

theorem Maintains.turns {action : Action Value} (observes : Maintains Observes action)
    (machine : Machine) : Turns instruction action machine :=
  (observes.reaches (refl_of Observes machine) fun _ => Observes.reversible).mono
    fun _ _ => Observes.turns

theorem leads_requireWritable {next : Unit → Action Result} {halted : Machine → Prop}
    {ended : Result → Machine → Prop} (holds : halted machine)
    (later : machine.frame.message.isStatic = false → Leads (next ()) machine halted ended) :
    Leads (requireWritable >>= next) machine halted ended := by
  apply Leads.bind
  have leads : Leads (if machine.frame.message.isStatic then halt .illegalStateChange else pure ())
      machine halted fun _ after => Leads (next ()) after halted ended := by
    apply Leads.ite
    · exact fun _ => holds
    · intro writable
      exact later (Bool.eq_false_iff.mpr writable)
  exact leads

/-- What the slots and the refund counter become is another matter. -/
theorem Charges.turns {cost : Nat} {returns : Value → Prop} {action : Action Value}
    (charges : Charges cost returns action) (writable : machine.frame.message.isStatic = false) :
    Turns .sstore action machine := by
  have yields := charges machine
  cases ran : action machine with
  | ok value after =>
      obtain ⟨keeps, _, _⟩ := (Yields.of_ok ran).mp yields
      have turn : machine.frame.Turn .sstore after.frame :=
        .goesOn keeps.frame.status keeps.frame.pendingChild
      simpa only [Turns, Leads, ran] using Machine.Turns.of_writable keeps.frame.message
        keeps.frame.checkpoint keeps.world.continues (fun other => absurd rfl other)
        (fun other => absurd rfl other) writable turn
  | error fault after =>
      cases fault with
      | halt reason =>
          have keeps := (Yields.of_halt ran).mp yields
          simpa only [Turns, Leads, ran] using
            Reversible.of_writable keeps.frame keeps.world.continues writable
      | state error => simp only [Turns, Leads, ran]

/-- Instructions that write start with this check. -/
theorem turns_requireWritable {next : Unit → Action Result}
    (writes : machine.frame.message.isStatic = false →
      Turns instruction (requireWritable >>= next) machine) :
    Turns instruction (requireWritable >>= next) machine := by
  cases isStatic : machine.frame.message.isStatic with
  | false => exact writes isStatic
  | true =>
      apply leads_requireWritable (refl_of Peeks machine).reversible
      intro writable
      rw [isStatic] at writable
      cases writable

theorem turns_sstore (clearRefund : Int) (machine : Machine) :
    Turns .sstore (sstore clearRefund) machine :=
  turns_requireWritable fun writable => (charges_sstore clearRefund).turns writable

theorem observes_popWords (count : Nat) : Maintains Observes (popWords count) := by
  induction count with
  | zero => exact .pure _
  | succ count ih => exact .bind observes_pop fun _ => .bind ih fun _ => .pure _

theorem refund_addLog (frame : Frame) (log : Log) : (frame.addLog log).refund = frame.refund := by
  unfold Frame.addLog
  split <;> rfl

theorem turns_log (topics : Fin 5) (machine : Machine) :
    Turns instruction (log topics) machine := by
  apply leads_requireWritable (refl_of Observes machine).reversible
  intro writable
  apply observes_pop.reach (refl_of Observes machine) fun _ => Observes.reversible
  intro offset _ reached
  apply observes_pop.reach reached fun _ => Observes.reversible
  intro length _ reached
  apply (peeks_rangeOf _ _).observes.reach reached fun _ => Observes.reversible
  intro range _ reached
  apply (observes_popWords _).reach reached fun _ => Observes.reversible
  intro words _ reached
  apply (peeks_useGas _).observes.reach reached fun _ => Observes.reversible
  intro _ _ reached
  apply (peeks_chargeMemory _).observes.reach reached fun _ => Observes.reversible
  intro _ _ reached
  apply (peeks_readMemory _).observes.reach reached fun _ => Observes.reversible
  intro data reader reached
  have keeps := reached.frame.toKeeps.trans (keeps_addLog reader.frame
    ⟨reader.frame.message.recipient, words, data⟩)
  exact .of_writable keeps.message keeps.checkpoint reached.continues
    (fun _ => .of_eq reached.readings)
    (fun _ => (refund_addLog reader.frame _).trans reached.frame.refund) writable
    (.goesOn keeps.status keeps.pendingChild)

/-! ## Flow of control -/

theorem turns_jumpTo {start : Machine} (reached : start.Observes machine) (destination : Word) :
    Leads (jumpTo destination) machine start.Reversible
      fun _ after => start.Turns instruction after := by
  apply Leads.tryFrame reached.reversible
  intro frame moved
  obtain ⟨pc, _, made⟩ := bind_eq_ok moved
  cases made
  exact reached.turns_jump pc

theorem turns_jump (machine : Machine) : Turns instruction jump machine := by
  apply (peeks_useGas _).observes.reach (refl_of Observes machine) fun _ => Observes.reversible
  intro _ _ reached
  apply observes_pop.reach reached fun _ => Observes.reversible
  intro destination _ reached
  exact Leads.bind (turns_jumpTo reached destination)

theorem turns_jumpIf (machine : Machine) : Turns instruction jumpIf machine := by
  apply (peeks_useGas _).observes.reach (refl_of Observes machine) fun _ => Observes.reversible
  intro _ _ reached
  apply observes_pop.reach reached fun _ => Observes.reversible
  intro destination _ reached
  apply observes_pop.reach reached fun _ => Observes.reversible
  intro condition _ reached
  apply Leads.ite
  · exact fun _ => reached.turns
  · exact fun _ => Leads.bind (turns_jumpTo reached destination)

theorem turns_stop (machine : Machine) : Turns instruction stop machine :=
  (refl_of Observes machine).turns_succeed []

theorem turns_returnOutput (machine : Machine) : Turns instruction returnOutput machine := by
  apply observes_popOutput.reach (refl_of Observes machine) fun _ => Observes.reversible
  intro output _ reached
  exact reached.turns_succeed output

theorem turns_revertOutput (machine : Machine) : Turns instruction revertOutput machine := by
  apply observes_popOutput.reach (refl_of Observes machine) fun _ => Observes.reversible
  intro output _ reached
  exact reached.turns_revert output

theorem turns_selfDestruct (machine : Machine) : Turns instruction selfDestruct machine := by
  apply leads_requireWritable (refl_of Observes machine).reversible
  intro writable
  apply observes_pop.reach (refl_of Observes machine) fun _ => Observes.reversible
  intro word _ reached
  apply peeks_frame.observes.reach reached fun _ => Observes.reversible
  intro frame _ reached
  apply (peeks_balance _).observes.reach reached fun _ => Observes.reversible
  intro balance _ reached
  apply (peeks_warmAddress _).observes.reach reached fun _ => Observes.reversible
  intro isCold _ reached
  apply Leads.join fun _ => machine.Observes
  · intro _
    exact (peeks_question (fun account => account.all Account.isEmpty) _).observes.reaches reached
      fun _ => Observes.reversible
  · exact fun _ => reached
  intro createsAccount _ reached
  apply (peeks_useGas _).observes.reach reached fun _ => Observes.reversible
  intro _ sender reached
  apply Leads.bind
  apply Leads.onWorld
  intro _ debited debit
  apply Leads.bind
  apply Leads.onWorld
  intro _ credited credit
  have moved : Continues machine.world credited :=
    (reached.continues.trans ((Journaled.follows_modifyAccount _ _).continues debit)).trans
      ((Journaled.follows_modifyAccount _ _).continues credit)
  have slots : machine.world.readings.StorageAlike credited.readings :=
    ((Readings.StorageAlike.of_eq reached.readings).trans
      (Journaled.storageAlike_modifyAccount debit)).trans
      (Journaled.storageAlike_modifyAccount credit)
  obtain ⟨message, checkpoint, pendingChild, _, refund⟩ :=
    addSelfDestruct_fields sender.frame frame.message.recipient
  exact .of_writable (message.trans reached.frame.message)
    (checkpoint.trans reached.frame.checkpoint) moved (fun _ => slots)
    (fun _ => refund.trans reached.frame.refund) writable
    (.succeeds rfl (pendingChild.trans reached.frame.pendingChild))

/-! ## Calls -/

theorem turns_abandon {start : Machine} (reached : start.Observes machine) (operands : Nat) :
    Leads (abandon operands) machine start.Reversible
      fun _ after => start.Turns instruction after :=
  ((observes_abandon operands).reaches reached fun _ => Observes.reversible).mono
    fun _ _ => Observes.turns

theorem turns_call (kind : CallKind) (machine : Machine) :
    Turns (.call kind) (call kind) machine := by
  -- Up to the request for the child the frame only looks and pays.
  apply (peeks_peek 0).reach (refl_of Peeks machine) fun _ => Peeks.reversible
  intro requestedGas _ reached
  apply (peeks_peek 1).reach reached fun _ => Peeks.reversible
  intro target _ reached
  apply Leads.join fun value after =>
    machine.Peeks after ∧ (kind.hasValueOperand = false → value = 0)
  · intro hasValue
    apply ((peeks_peek 2).reaches reached fun _ => Peeks.reversible).mono
    intro value after reached
    refine ⟨reached, fun hasNone => ?_⟩
    rw [hasNone] at hasValue
    cases hasValue
  · exact fun _ => ⟨reached, fun _ => rfl⟩
  rintro value asking ⟨reached, valueless⟩
  apply Leads.frame
  apply Leads.ofExcept reached.reversible
  rintro ⟨inputRange, outputRange⟩ ranges
  apply Leads.frame
  apply Leads.ite fun _ => Leads.halt reached.reversible
  intro allowed
  rw [reached.frame.message] at allowed
  rw [reached.stack] at ranges
  apply (peeks_warmAddress _).reach reached fun _ => Peeks.reversible
  intro isCold _ reached
  apply Leads.join fun _ => machine.Peeks
  · intro _
    exact (peeks_question (fun account => account.all Account.isEmpty) _).reaches reached
      fun _ => Peeks.reversible
  · exact fun _ => reached
  intro createsAccount _ reached
  apply (peeks_useGas _).reach reached fun _ => Peeks.reversible
  intro _ _ reached
  apply (peeks_chargeMemory _).reach reached fun _ => Peeks.reversible
  intro _ payer reached
  apply Leads.frame
  apply (peeks_useGas _).reach reached fun _ => Peeks.reversible
  intro _ caller reached
  apply Leads.frame
  rw [reached.frame.message]
  apply Leads.join fun _ => machine.Peeks
  · intro _
    exact (peeks_holdsLess _ _).reaches reached fun _ => Peeks.reversible
  · exact fun _ => reached
  intro isUnderfunded _ reached
  apply Leads.ite
  · intro _
    apply (observes_modifyFrame (·.works_returnGas _)).reach reached.toObserves
      fun _ => Observes.reversible
    intro _ _ reached
    exact turns_abandon reached _
  · intro _
    apply (peeks_readMemory _).reach reached fun _ => Peeks.reversible
    intro input _ reached
    apply (peeks_code _).reach reached fun _ => Peeks.reversible
    intro code _ reached
    apply reached.turns_suspend
    · rw [Instruction.Answerable, reached.stack]
      exact ⟨_, ranges⟩
    · intro isStatic
      refine ⟨rfl, by simp only [isStatic, Bool.true_or], ?_⟩
      cases kind with
      | call =>
          left
          by_contra moves
          exact allowed ⟨rfl, isStatic, moves⟩
      | callCode => exact .inr rfl
      | delegateCall => exact .inl (valueless rfl)
      | staticCall => exact .inl (valueless rfl)

/-! ## Creations -/

theorem turns_create (schedule : GasSchedule) (kind : CreateKind) (machine : Machine) :
    Turns (.create kind) (create schedule kind) machine := by
  apply leads_requireWritable (refl_of Peeks machine).reversible
  intro writable
  apply (peeks_peek 0).reach (refl_of Peeks machine) fun _ => Peeks.reversible
  intro value _ reached
  apply (peeks_peek 1).reach reached fun _ => Peeks.reversible
  intro offset _ reached
  apply (peeks_peek 2).reach reached fun _ => Peeks.reversible
  intro length _ reached
  apply (peeks_rangeOf _ _).reach reached fun _ => Peeks.reversible
  intro range _ reached
  apply Leads.join fun _ => machine.Peeks
  · intro _
    exact (peeks_peek 3).reaches reached fun _ => Peeks.reversible
  · exact fun _ => reached
  intro salt _ reached
  apply Leads.ite fun _ => Leads.halt reached.reversible
  intro _
  apply (peeks_useGas _).reach reached fun _ => Peeks.reversible
  intro _ _ reached
  apply (peeks_chargeMemory _).reach reached fun _ => Peeks.reversible
  intro _ creator reached
  apply Leads.frame
  apply (peeks_question (fun account => (account.getD {}).nonce) _).reach reached
    fun _ => Peeks.reversible
  intro nonce _ reached
  apply (peeks_holdsLess _ _).reach reached fun _ => Peeks.reversible
  intro isUnderfunded _ reached
  have givenUp : Leads (abandon kind.operandCount) _ machine.Reversible
      fun _ after => machine.Turns (.create kind) after :=
    turns_abandon reached.toObserves kind.operandCount
  -- Three conditions lead to the same end: too deep, too little balance, no nonce left.
  apply Leads.ite fun _ => givenUp
  intro _
  apply Leads.ite fun _ => givenUp
  intro _
  apply Leads.ite fun _ => givenUp
  intro _
  apply (peeks_readMemory _).reach reached fun _ => Peeks.reversible
  intro initCode reader reached
  apply Leads.bind
  apply Leads.onWorld
  intro _ world counted
  -- The nonce is all that is written: from here on the creation only looks again.
  have written : Continues machine.world world :=
    reached.continues.trans ((Journaled.follows_modifyAccount _ _).continues counted)
  have slots := (Readings.StorageAlike.of_eq reached.readings).trans
    (Journaled.storageAlike_modifyAccount counted)
  have counting : machine.Reversible { reader with world } :=
    .of_writable reached.frame.toKeeps written writable
  have back (after : Machine) (peeks : Peeks { reader with world } after) :
      machine.Reversible after :=
    counting.trans peeks.reversible
  apply (peeks_warmAddress _).reach (refl_of Peeks { reader with world }) back
  intro _ _ later
  apply Leads.frame
  apply (peeks_useGas _).reach later back
  intro _ payer later
  obtain ⟨frame, continues, _⟩ := back payer later
  exact .of_writable frame.message frame.checkpoint continues
    (fun _ => slots.trans (.of_eq later.readings))
    (fun _ => later.frame.refund.trans reached.frame.refund) writable
    (.waits _ rfl rfl frame.pc (later.stack.trans reached.stack) trivial
      fun isStatic => absurd (writable.symm.trans isStatic) Bool.false_ne_true)

/-! ## Every instruction -/

theorem turns_execute (schedule : GasSchedule) (context : Context) (instruction : Instruction)
    (machine : Machine) : Turns instruction (instruction.execute schedule context) machine := by
  cases instruction with
  | jump => exact turns_jump machine
  | jumpIf => exact turns_jumpIf machine
  | stop => exact .map (turns_stop machine)
  | sstore => exact .map (turns_sstore schedule.storeClearRefund machine)
  | log topics => exact .map (turns_log topics machine)
  | create kind => exact .map (turns_create schedule kind machine)
  | call kind => exact .map (turns_call kind machine)
  | «return» => exact .map (turns_returnOutput machine)
  | revert => exact .map (turns_revertOutput machine)
  | invalid => exact Leads.halt (refl_of Observes machine).reversible
  | selfDestruct => exact .map (turns_selfDestruct machine)
  | _ =>
      apply (observes_execute schedule context _ _).turns
      trivial

end Action

/-! ## Steps -/

namespace Machine

theorem Turns.advance {instruction : Instruction} {before after : Machine}
    (turns : before.Turns instruction after) (count : Nat) :
    before.Turns instruction (after.advance count) := by
  obtain ⟨message, checkpoint, continues, readings, slots, refund, bare, turn⟩ := turns
  unfold Machine.advance
  split
  case isFalse => exact ⟨message, checkpoint, continues, readings, slots, refund, bare, turn⟩
  case isTrue executing =>
    refine ⟨message, checkpoint, continues, readings, slots, refund, ?_, ?_⟩
    · exact fun isStatic recorded => (bare isStatic recorded).congr rfl rfl rfl
    · rcases turn with ⟨status, pendingChild⟩ | ⟨status, _⟩ | ⟨status, _, _⟩ | ⟨_, status, _⟩
      · exact .goesOn status pendingChild
      all_goals
        rw [status] at executing
        cases executing

/-- A step that does not fail takes a turn that the stack has room for, or halts the frame. -/
theorem turns_step {schedule : GasSchedule} {context : Context} {machine after : Machine}
    (stepped : machine.step schedule context = .ok after) :
    (∃ halted reason, after = halted.halt reason ∧ machine.Reversible halted) ∨
      ∃ instruction, Instruction.ofOpcode? schedule machine.frame.currentOpcode = some instruction ∧
        instruction.stackFault? machine.frame.stack.height = none ∧
        machine.Turns instruction after ∧
        ∃ count moved, instruction.execute schedule context machine = .ok count moved ∧
          after = moved.advance count := by
  have unmoved : machine.Reversible machine := (refl_of Observes machine).reversible
  cases decoded : Instruction.ofOpcode? schedule machine.frame.currentOpcode with
  | none =>
      simp only [step, decoded] at stepped
      cases stepped
      exact .inl ⟨machine, _, rfl, unmoved⟩
  | some instruction =>
      cases fault : instruction.stackFault? machine.frame.stack.height with
      | some reason =>
          simp only [step, decoded, fault] at stepped
          cases stepped
          exact .inl ⟨machine, reason, rfl, unmoved⟩
      | none =>
          have turns := Action.turns_execute schedule context instruction machine
          unfold Action.Turns Action.Leads at turns
          cases ran : instruction.execute schedule context machine with
          | ok count moved =>
              simp only [step, decoded, fault, ran] at stepped turns
              cases stepped
              exact .inr ⟨instruction, rfl, fault, turns.advance count, count, moved, ran, rfl⟩
          | error stop halted =>
              cases stop with
              | halt reason =>
                  simp only [step, decoded, fault, ran] at stepped turns
                  cases stepped
                  exact .inl ⟨halted, reason, rfl, turns⟩
              | state error =>
                  simp only [step, decoded, fault, ran] at stepped
                  cases stepped

theorem continues_step {schedule : GasSchedule} {context : Context} {machine after : Machine}
    (stepped : machine.step schedule context = .ok after) : Continues machine.world after.world := by
  rcases turns_step stepped with ⟨halted, reason, rfl, reversible⟩ | ⟨_, _, _, turns, _⟩
  · exact reversible.continues
  · exact turns.continues

end Machine

end ExecutionLayer
