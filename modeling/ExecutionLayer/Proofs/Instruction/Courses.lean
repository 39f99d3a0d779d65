import ExecutionLayer.Instruction.Step
import ExecutionLayer.Proofs.Instruction.Ordinary

/-!
# Courses of instructions

Unless it halts, an instruction of a running frame lets the code go on for at least one
unit of gas, ends it, or suspends the frame with a child. Whatever it does, no value
appears in the world.
-/

set_option autoImplicit false

namespace ExecutionLayer

/-- The instructions that can suspend their frame. -/
def Instruction.AsksForChild : Instruction → Prop
  | .call _ | .create _ => True
  | _ => False

/-- How an instruction that pays at least an amount leaves a running frame. The gas of a
child comes out of what the frame held, and the sender that its message names can pay the
message's value. -/
inductive Machine.Course (least : Nat) (instruction : Instruction) (before after : Machine) :
    Prop where
  | goesOn (status : after.frame.status = .codeExecuting)
      (pendingChild : after.frame.pendingChild = before.frame.pendingChild)
      (paid : after.frame.gas.toNat + least ≤ before.frame.gas.toNat)
  | ends (status : after.frame.status = .codeSuccess ∨ after.frame.status = .revert)
      (pendingChild : after.frame.pendingChild = before.frame.pendingChild)
      (paid : after.frame.gas.toNat ≤ before.frame.gas.toNat)
  | waits (child : Message) (asks : instruction.AsksForChild)
      (status : after.frame.status = .codeSuspended)
      (pendingChild : after.frame.pendingChild = some child)
      (pc : after.frame.pc = before.frame.pc)
      (paid : after.frame.gas.toNat + child.gas.toNat + least ≤ before.frame.gas.toNat)
      (funded : Journaled.Funded after.world child.sender child.value)

/-- What an instruction that did not halt made of a machine. -/
structure Machine.Moves (least : Nat) (instruction : Instruction) (before after : Machine) :
    Prop where
  message : after.frame.message = before.frame.message
  checkpoint : after.frame.checkpoint = before.frame.checkpoint
  world : before.world.Conserves after.world
  course : Machine.Course least instruction before after

theorem Machine.Moves.mono {least more : Nat} {instruction : Instruction}
    {before after : Machine} (moves : Machine.Moves more instruction before after)
    (le : least ≤ more) : Machine.Moves least instruction before after := by
  refine ⟨moves.message, moves.checkpoint, moves.world, ?_⟩
  rcases moves.course with
    ⟨status, pendingChild, paid⟩ | ⟨status, pendingChild, paid⟩ |
      ⟨child, asks, status, pendingChild, pc, paid, funded⟩
  · exact .goesOn status pendingChild (by omega)
  · exact .ends status pendingChild paid
  · exact .waits child asks status pendingChild pc (by omega) funded

/-- A machine on the way through an instruction that paid at least the cost so far. -/
structure Machine.Reached (cost : Nat) (start machine : Machine) : Prop where
  keeps : start.Keeps machine
  paid : machine.frame.gas.toNat + cost ≤ start.frame.gas.toNat

theorem Machine.Reached.start (machine : Machine) : Machine.Reached 0 machine machine :=
  ⟨.refl machine, Nat.le_refl _⟩

namespace Action

variable {Value Result : Type}

/-- Goes on from a machine on the way by an action that keeps it. -/
theorem Charges.reach {cost paid : Nat} {returns : Value → Prop} {action : Action Value}
    {next : Value → Action Result} {start machine : Machine} {post : Result → Machine → Prop}
    (charges : Charges cost returns action) (reached : Machine.Reached paid start machine)
    (later : ∀ value after, action machine = .ok value after → returns value →
      Machine.Reached (paid + cost) start after → Yields (next value) after post) :
    Yields (action >>= next) machine post := by
  apply Yields.bind
  have ends := charges machine
  cases ran : action machine with
  | ok value after =>
      obtain ⟨kept, paidAfter, returned⟩ := (Yields.of_ok ran).mp ends
      have paidBefore := reached.paid
      exact (Yields.of_ok ran).mpr ⟨kept, later value after ran returned
        ⟨reached.keeps.trans kept, by omega⟩⟩
  | error fault after =>
      cases fault with
      | halt reason => exact (Yields.of_halt ran).mpr ((Yields.of_halt ran).mp ends)
      | state error => exact (Yields.of_state ran).mpr ((Yields.of_state ran).mp ends)

theorem Charges.moves {action : Action Value} {returns : Value → Prop} {machine : Machine}
    (charges : Charges 1 returns action) (instruction : Instruction)
    (executing : machine.frame.status = .codeExecuting) :
    Yields action machine fun _ after => Machine.Moves 1 instruction machine after := by
  apply (charges machine).mono
  rintro value after ⟨kept, paid, _⟩
  exact ⟨kept.frame.message, kept.frame.checkpoint, kept.world,
    .goesOn (kept.frame.status.trans executing) kept.frame.pendingChild paid⟩

namespace Yields

variable {start machine : Machine} {paid : Nat} {instruction : Instruction}

theorem end_code {change : Frame → Frame}
    (reached : Machine.Reached paid start machine)
    (message : (change machine.frame).message = machine.frame.message)
    (checkpoint : (change machine.frame).checkpoint = machine.frame.checkpoint)
    (pendingChild : (change machine.frame).pendingChild = machine.frame.pendingChild)
    (gas : (change machine.frame).gas = machine.frame.gas)
    (status : (change machine.frame).status = .codeSuccess ∨
      (change machine.frame).status = .revert) :
    Yields (Action.modifyFrame change) machine fun _ after =>
      Machine.Moves 1 instruction start after := by
  apply Yields.modifyFrame
  have kept := reached.keeps.frame
  refine ⟨message.trans kept.message, checkpoint.trans kept.checkpoint, reached.keeps.world, ?_⟩
  refine .ends status (pendingChild.trans kept.pendingChild) ?_
  have bound := reached.paid
  dsimp only
  rw [gas]
  omega

theorem suspend {least : Nat} {child : Message} (asks : instruction.AsksForChild)
    (reached : Machine.Reached paid start machine) (payable : child.gas.toNat + least ≤ paid)
    (funded : Journaled.Funded machine.world child.sender child.value) :
    Yields (Action.modifyFrame (·.suspend child)) machine fun _ after =>
      Machine.Moves least instruction start after := by
  apply Yields.modifyFrame
  have kept := reached.keeps.frame
  refine ⟨kept.message, kept.checkpoint, reached.keeps.world, ?_⟩
  refine .waits child asks rfl rfl kept.pc ?_ funded
  have bound := reached.paid
  dsimp only [Frame.suspend]
  omega

end Yields

/-- What an account answers. The answer changes no reading. -/
theorem reaches_question (question : Option Account → Value) (address : Address)
    {start machine : Machine} {paid : Nat} (reached : Machine.Reached paid start machine) :
    Yields (onWorld (do return question (← Journaled.account address))) machine
      fun value after => machine.Keeps after ∧ Machine.Reached paid start after ∧
        ∃ found, machine.world.readings.account address = .ok found ∧ value = question found ∧
          after.world.readings = machine.world.readings := by
  have yields := charges_question question address machine
  cases read : machine.world.readings.account address with
  | error error =>
      obtain ⟨world, failed⟩ := (Journaled.follows_account address).ask_error read
      have stopped : onWorld (do return question (← Journaled.account address)) machine =
          .error (.state error) { machine with world } := by
        simp only [onWorld, Bind.bind, EStateM.bind, failed]
      exact (Yields.of_state stopped).mpr ((Yields.of_state stopped).mp yields)
  | ok found =>
      obtain ⟨world, answered, same, _⟩ := (Journaled.follows_account address).ask_ok read
      have done : onWorld (do return question (← Journaled.account address)) machine =
          .ok (question found) { machine with world } := by
        simp only [onWorld, Bind.bind, EStateM.bind, answered]
        rfl
      obtain ⟨kept, _, _⟩ := (Yields.of_ok done).mp yields
      exact (Yields.of_ok done).mpr
        ⟨kept, ⟨reached.keeps.trans kept, reached.paid⟩, found, rfl, rfl, same⟩

theorem reach_question (question : Option Account → Value) {address : Address}
    {next : Value → Action Result} {start machine : Machine} {paid : Nat}
    {post : Result → Machine → Prop} (reached : Machine.Reached paid start machine)
    (later : ∀ found after, machine.world.readings.account address = .ok found →
      after.world.readings = machine.world.readings → Machine.Reached paid start after →
        Yields (next (question found)) after post) :
    Yields (onWorld (do return question (← Journaled.account address)) >>= next) machine post := by
  apply Yields.bind
  apply (reaches_question question address reached).mono
  rintro value after ⟨kept, reachedAfter, found, read, rfl, same⟩
  exact ⟨kept, later found after read same reachedAfter⟩

theorem reach_onWorld {operation : Journaled Value} {next : Value → Action Result}
    {start machine : Machine} {paid : Nat} {post : Result → Machine → Prop}
    (safe : Journaled.SafeAt operation machine.world)
    (reached : Machine.Reached paid start machine)
    (later : ∀ value world, operation machine.world = .ok value world →
      Machine.Reached paid start { machine with world } →
        Yields (next value) { machine with world } post) :
    Yields (onWorld operation >>= next) machine post := by
  apply Yields.bind
  apply Yields.onWorld safe
  intro value world ran conserves
  have kept : machine.Keeps { machine with world } := ⟨.refl _, conserves⟩
  exact ⟨kept, later value world ran ⟨reached.keeps.trans kept, reached.paid⟩⟩

theorem onWorld_bind (first second : Journaled Unit) (next : Action Result) :
    (do onWorld first; onWorld second; next) = (do onWorld (do first; second); next) := by
  funext machine
  simp only [Bind.bind, EStateM.bind, onWorld]
  cases first machine.world with
  | error error world => rfl
  | ok value world => rfl

/-- An action on the frame alone. -/
def KeepsWorld (action : Action Value) : Prop :=
  ∀ machine value after, action machine = .ok value after → after.world = machine.world

theorem keepsWorld_tryFrame (change : Frame → Except Halt Frame) :
    KeepsWorld (tryFrame change) := by
  intro machine value after ran
  change (ofExcept (change machine.frame) >>= _ : Action Unit) machine = _ at ran
  cases changed : change machine.frame with
  | error reason =>
      rw [changed] at ran
      cases ran
  | ok frame =>
      rw [changed] at ran
      cases ran
      rfl

theorem keepsWorld_useGas (amount : UInt64) : KeepsWorld (useGas amount) :=
  keepsWorld_tryFrame _

theorem keepsWorld_warmAddress (address : Address) : KeepsWorld (warmAddress address) := by
  intro machine value after ran
  cases ran
  rfl

theorem keepsWorld_frame : KeepsWorld frame := by
  intro machine value after ran
  cases ran
  rfl

theorem keepsWorld_readMemory (range : MemoryRange) : KeepsWorld (readMemory range) := by
  intro machine value after ran
  cases ran
  rfl

/-! ## Flow of control -/

theorem yields_jumpTo {start machine : Machine} {paid : Nat} {instruction : Instruction}
    (destination : Word) (reached : Machine.Reached paid start machine) (positive : 1 ≤ paid)
    (executing : start.frame.status = .codeExecuting) :
    Yields (jumpTo destination) machine fun _ after => Machine.Moves 1 instruction start after := by
  apply Yields.tryFrame
  intro frame moved
  have kept := reached.keeps.frame
  have bound := reached.paid
  cases target : jumpTarget machine.frame destination with
  | error reason =>
      rw [target] at moved
      cases moved
  | ok pc =>
      rw [target] at moved
      cases moved
      refine ⟨kept.message, kept.checkpoint, reached.keeps.world,
        .goesOn (kept.status.trans executing) kept.pendingChild ?_⟩
      dsimp only
      omega

theorem yields_jump {machine : Machine} (executing : machine.frame.status = .codeExecuting) :
    Yields jump machine fun _ after => Machine.Moves 1 .jump machine after := by
  apply (charges_useGas (show 1 ≤ Gas.mid.toNat by decide)).reach (.start machine)
  intro _ _ _ _ reached
  apply charges_pop.reach reached
  intro destination _ _ _ reached
  apply Yields.map
  exact yields_jumpTo destination reached (Nat.le_refl _) executing

theorem yields_jumpIf {machine : Machine} (executing : machine.frame.status = .codeExecuting) :
    Yields jumpIf machine fun _ after => Machine.Moves 1 .jumpIf machine after := by
  apply (charges_useGas (show 1 ≤ Gas.high.toNat by decide)).reach (.start machine)
  intro _ _ _ _ reached
  apply charges_pop.reach reached
  intro destination _ _ _ reached
  apply charges_pop.reach reached
  intro condition after _ _ reached
  apply Yields.ite
  · intro _
    have kept := reached.keeps.frame
    exact ⟨kept.message, kept.checkpoint, reached.keeps.world,
      .goesOn (kept.status.trans executing) kept.pendingChild reached.paid⟩
  · intro _
    apply Yields.map
    exact yields_jumpTo destination reached (Nat.le_refl _) executing

theorem yields_stop (machine : Machine) :
    Yields stop machine fun _ after => Machine.Moves 1 .stop machine after :=
  .end_code (.start machine) rfl rfl rfl rfl (.inl rfl)

theorem charges_popOutput : Charges 0 Any popOutput :=
  .bind_free charges_pop fun _ _ => .bind_free charges_pop fun _ _ =>
    .bind_free (charges_rangeOf _ _) fun range _ =>
      .bind_free (charges_chargeMemory range) fun _ _ => charges_readMemory range

theorem yields_returnOutput (machine : Machine) :
    Yields returnOutput machine fun _ after => Machine.Moves 1 .return machine after := by
  apply charges_popOutput.reach (.start machine)
  intro output _ _ _ reached
  exact .end_code reached rfl rfl rfl rfl (.inl rfl)

theorem yields_revertOutput (machine : Machine) :
    Yields revertOutput machine fun _ after => Machine.Moves 1 .revert machine after := by
  apply charges_popOutput.reach (.start machine)
  intro output _ _ _ reached
  exact .end_code reached rfl rfl rfl rfl (.inr rfl)

theorem addSelfDestruct_fields (frame : Frame) (address : Address) :
    (frame.addSelfDestruct address).message = frame.message ∧
      (frame.addSelfDestruct address).checkpoint = frame.checkpoint ∧
      (frame.addSelfDestruct address).pendingChild = frame.pendingChild ∧
      (frame.addSelfDestruct address).gas = frame.gas ∧
      (frame.addSelfDestruct address).refund = frame.refund := by
  unfold Frame.addSelfDestruct
  split <;> exact ⟨rfl, rfl, rfl, rfl, rfl⟩

theorem selfDestructCost_pos (isCold createsAccount : Bool) :
    1 ≤ (Gas.selfDestruct + (if isCold then Gas.coldAccount else 0) +
      (if createsAccount then Gas.selfDestructNewAccount else 0)).toNat := by
  cases isCold <;> cases createsAccount <;> decide

theorem yields_sweep {start machine : Machine} {cost : UInt64} {address beneficiary : Address}
    {found : Option Account} (reached : Machine.Reached 0 start machine)
    (positive : 1 ≤ cost.toNat)
    (read : machine.world.readings.account address = .ok found) :
    Yields (do
      useGas cost
      onWorld (Journaled.subBalance address (found.getD {}).balance)
      onWorld (Journaled.addBalance beneficiary (found.getD {}).balance)
      modifyFrame fun frame => (frame.addSelfDestruct address).succeed []) machine
      fun _ after => Machine.Moves 1 .selfDestruct start after := by
  apply (charges_useGas positive).reach reached
  intro _ payer paid _ reached
  have readPayer : payer.world.readings.account address = .ok found := by
    rw [keepsWorld_useGas _ _ _ _ paid]
    exact read
  rw [onWorld_bind]
  apply reach_onWorld (Journaled.safeAt_move readPayer (BitVec.le_refl _)) reached
  intro _ world _ reached
  obtain ⟨message, checkpoint, pendingChild, gas, _⟩ := addSelfDestruct_fields payer.frame address
  exact .end_code reached message checkpoint pendingChild gas (.inl rfl)

theorem yields_selfDestruct (machine : Machine) :
    Yields selfDestruct machine fun _ after => Machine.Moves 1 .selfDestruct machine after := by
  apply charges_requireWritable.reach (.start machine)
  intro _ _ _ _ reached
  apply charges_pop.reach reached
  intro word _ _ _ reached
  apply charges_frame.reach reached
  intro frame asking _ _ reached
  apply reach_question (fun account => (account.getD {}).balance) reached
  intro found world read same reached
  apply (charges_warmAddress _).reach reached
  intro isCold warmed warmRan _ reached
  -- What is sent away is the balance that was read: in between, the world only answers.
  have readWarmed : warmed.world.readings.account frame.message.recipient = .ok found := by
    rw [keepsWorld_warmAddress _ _ _ _ warmRan, same]
    exact read
  apply Yields.ite
  · intro _
    apply reach_question (fun account => account.all Account.isEmpty) reached
    intro beneficiary world _ sameAfter reached
    apply yields_sweep reached (selfDestructCost_pos _ _)
    rw [sameAfter]
    exact readWarmed
  · intro _
    exact yields_sweep reached (selfDestructCost_pos _ _) readWarmed

end Action

end ExecutionLayer
