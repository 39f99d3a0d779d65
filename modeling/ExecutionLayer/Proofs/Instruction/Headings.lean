import ExecutionLayer.Proofs.Instruction.Turns

/-!
# Where instructions head

The parts of an instruction leave the program counter where it is. So code that goes on does so
behind the instruction or at a jump destination, and a frame that waits for a child is still at
its request, one level above the child.
-/

set_option autoImplicit false

namespace ExecutionLayer

/-- A frame that asked for a child of a kind waits for one that is a level deeper, or it gave the
child up and is where it was. -/
inductive Frame.Requests (kind : Message.Kind) (before after : Frame) : Prop where
  | givesUp (keeps : before.Keeps after)
  | waits (child : Message) (status : after.status = .codeSuspended)
      (pendingChild : after.pendingChild = some child) (asked : child.kind = kind)
      (pc : after.pc = before.pc)
      (depth : child.depth = before.message.depth + 1) (limited : child.depth ≤ Message.maxDepth)

/-- Where an instruction that does not halt takes a running frame. -/
inductive Frame.Heads (instruction : Instruction) (before after : Frame) : Prop where
  | falls (status : after.status = .codeExecuting) (pc : after.pc = before.pc + instruction.size)
  | jumps (status : after.status = .codeExecuting)
      (destination : before.message.code.isJumpDestination after.pc = true)
  | waits (child : Message) (status : after.status = .codeSuspended)
      (pendingChild : after.pendingChild = some child) (pc : after.pc = before.pc)
      (depth : child.depth = before.message.depth + 1) (limited : child.depth ≤ Message.maxDepth)
  | ends (status : after.status = .codeSuccess ∨ after.status = .revert)

namespace Machine

/-- The frame is where it was, whatever became of the world. -/
def InPlace (before after : Machine) : Prop :=
  before.frame.Keeps after.frame

instance : IsPreorder Machine InPlace where
  refl machine := .refl machine.frame
  trans _ _ _ first second := Frame.Keeps.trans first second

variable {instruction : Instruction} {start machine : Machine}

theorem InPlace.falls (inPlace : start.InPlace machine)
    (executing : start.frame.status = .codeExecuting) :
    start.frame.Heads instruction (machine.advance instruction.size).frame := by
  have executing : machine.frame.status = .codeExecuting := inPlace.status.trans executing
  rw [advance, if_pos executing]
  exact .falls executing (congrArg (· + instruction.size) inPlace.pc)

theorem InPlace.jumps {pc : Nat} (inPlace : start.InPlace machine)
    (executing : start.frame.status = .codeExecuting)
    (destination : machine.frame.message.code.isJumpDestination pc = true) :
    start.frame.Heads instruction
      (Machine.advance { machine with frame := { machine.frame with pc } } 0).frame := by
  have executing : machine.frame.status = .codeExecuting := inPlace.status.trans executing
  rw [advance, if_pos executing]
  refine .jumps executing ?_
  rw [← inPlace.message]
  exact destination

theorem heads_of_ended (ended : machine.frame.status = .codeSuccess ∨ machine.frame.status = .revert)
    (count : Nat) : start.frame.Heads instruction (machine.advance count).frame := by
  have stopped : machine.frame.status ≠ .codeExecuting := by
    rcases ended with ended | ended <;> simp [ended]
  simp only [advance, stopped, ↓reduceIte]
  exact .ends ended

end Machine

theorem Frame.Requests.heads {instruction : Instruction} {kind : Message.Kind}
    {start machine : Machine} (requests : start.frame.Requests kind machine.frame)
    (executing : start.frame.status = .codeExecuting) :
    start.frame.Heads instruction (machine.advance instruction.size).frame := by
  cases requests with
  | givesUp keeps =>
      have inPlace : start.InPlace machine := keeps
      exact inPlace.falls executing
  | waits child status pendingChild _ pc depth limited =>
      simp only [Machine.advance, status, reduceCtorEq, ↓reduceIte]
      exact .waits child status pendingChild pc depth limited

open Machine

namespace Action

variable {Value Result : Type} {action : Action Value} {machine : Machine}

/-- Goes on whatever the action does, where nothing is said of a halt. -/
theorem Leads.after {next : Value → Action Result} {ended : Result → Machine → Prop}
    (later : ∀ value after, Leads (next value) after (fun _ => True) ended) :
    Leads (action >>= next) machine (fun _ => True) ended := by
  apply Leads.bind
  unfold Leads
  split
  · exact later _ _
  · trivial
  · trivial

theorem Maintains.onward {next : Value → Action Result} {start : Machine}
    {ended : Result → Machine → Prop} (inPlace : Maintains InPlace action)
    (reached : start.InPlace machine)
    (later : ∀ value after, start.InPlace after →
      Leads (next value) after (fun _ => True) ended) :
    Leads (action >>= next) machine (fun _ => True) ended :=
  inPlace.reach reached (fun _ _ => trivial) later

theorem Maintains.ends_inPlace {start : Machine} (inPlace : Maintains InPlace action)
    (reached : start.InPlace machine) :
    Leads action machine (fun _ => True) fun _ => start.InPlace :=
  inPlace.reaches reached fun _ _ => trivial

theorem inPlace_of_yields {post : Machine → Value → Machine → Prop}
    (yields : ∀ machine, Yields action machine fun value after =>
      machine.Keeps after ∧ post machine value after) :
    Maintains InPlace action := by
  intro machine
  have yields := yields machine
  unfold Leads
  cases ran : action machine with
  | ok value after => exact ((Yields.of_ok ran).mp yields).1.frame
  | error fault after =>
      cases fault with
      | halt reason => exact ((Yields.of_halt ran).mp yields).frame
      | state error => trivial

theorem Charges.inPlace {cost : Nat} {returns : Value → Prop}
    (charges : Charges cost returns action) : Maintains InPlace action :=
  inPlace_of_yields charges

theorem inPlace_onWorld (operation : Journaled Value) : Maintains InPlace (onWorld operation) :=
  fun machine => .onWorld fun _ _ _ => .refl machine.frame

theorem inPlace_returnGas (amount : UInt64) :
    Maintains InPlace (modifyFrame (·.returnGas amount)) :=
  fun _ => ⟨rfl, rfl, rfl, rfl, rfl⟩

theorem inPlace_holdsLess (address : Address) (amount : Word) :
    Maintains InPlace (holdsLess address amount) :=
  .bind (inPlace_onWorld _) fun _ => .pure _

/-! ## Requests for children -/

theorem requests_abandon {kind : Message.Kind} {start : Machine}
    (reached : start.InPlace machine) (operands : Nat) :
    Leads (abandon operands) machine (fun _ => True) fun _ after =>
      start.frame.Requests kind after.frame :=
  ((charges_abandon operands).inPlace.ends_inPlace reached).mono fun _ _ => .givesUp

theorem requests_requestChild {start : Machine} (reached : start.InPlace machine) (kind : CallKind)
    (reservation : Reservation) :
    Leads (requestChild kind reservation) machine (fun _ => True) fun _ after =>
      start.frame.Requests .messageCall after.frame := by
  apply Leads.frame
  rw [reached.message]
  apply Leads.join fun _ => start.InPlace
  · exact fun _ => (inPlace_holdsLess _ _).ends_inPlace reached
  · exact fun _ => reached
  intro isUnderfunded _ reached
  apply Leads.ite
  · intro _
    apply (inPlace_returnGas _).onward reached
    intro _ _ reached
    exact requests_abandon reached kind.operandCount
  · intro possible
    apply (charges_readMemory _).inPlace.onward reached
    intro input _ reached
    apply (inPlace_onWorld _).onward reached
    intro code _ reached
    exact .waits _ rfl rfl rfl reached.pc rfl (by simp only; omega)

theorem requests_call (kind : CallKind) (machine : Machine) :
    Leads (call kind) machine (fun _ => True) fun _ after =>
      machine.frame.Requests .messageCall after.frame := by
  rw [call_eq]
  apply (inPlace_of_yields (yields_reserve kind)).onward (refl_of InPlace machine)
  intro reservation _ reached
  exact requests_requestChild reached kind reservation

theorem requests_create (schedule : GasSchedule) (kind : CreateKind) (machine : Machine) :
    Leads (create schedule kind) machine (fun _ => True) fun _ after =>
      machine.frame.Requests .contractCreation after.frame := by
  apply charges_requireWritable.inPlace.onward (refl_of InPlace machine)
  intro _ _ reached
  apply (charges_peek 0).inPlace.onward reached
  intro value _ reached
  apply (charges_peek 1).inPlace.onward reached
  intro offset _ reached
  apply (charges_peek 2).inPlace.onward reached
  intro length _ reached
  apply (charges_rangeOf _ _).inPlace.onward reached
  intro range _ reached
  apply Leads.join fun _ => machine.InPlace
  · exact fun _ => (charges_peek 3).inPlace.ends_inPlace reached
  · exact fun _ => reached
  intro salt _ reached
  apply Leads.ite fun _ => Leads.halt trivial
  intro _
  apply (charges_useGas (Nat.zero_le _)).inPlace.onward reached
  intro _ _ reached
  apply (charges_chargeMemory _).inPlace.onward reached
  intro _ creator reached
  apply Leads.frame
  rw [reached.message]
  apply (inPlace_onWorld _).onward reached
  intro nonce _ reached
  have givenUp {after : Machine} (reached : machine.InPlace after) :
      Leads (abandon kind.operandCount) after (fun _ => True) fun _ after =>
        machine.frame.Requests .contractCreation after.frame :=
    requests_abandon reached kind.operandCount
  apply (inPlace_holdsLess _ _).onward reached
  intro isUnderfunded _ reached
  apply Leads.ite fun _ => givenUp reached
  intro shallow
  apply Leads.ite fun _ => givenUp reached
  intro _
  apply Leads.ite fun _ => givenUp reached
  intro _
  apply (charges_readMemory _).inPlace.onward reached
  intro initCode _ reached
  apply (inPlace_onWorld _).onward reached
  intro _ _ reached
  apply (charges_warmAddress _).inPlace.onward reached
  intro _ payer reached
  apply Leads.frame
  apply (charges_useGas (Nat.zero_le _)).inPlace.onward reached
  intro _ _ reached
  exact .waits _ rfl rfl rfl reached.pc rfl (by simp only; omega)

/-! ## Jumps and ends -/

variable {instruction : Instruction}

theorem heads_jumpTo {start : Machine} (reached : start.InPlace machine)
    (executing : start.frame.status = .codeExecuting) (destination : Word) :
    Leads (do jumpTo destination; return 0) machine (fun _ => True) fun count after =>
      start.frame.Heads instruction (after.advance count).frame := by
  apply Leads.bind
  apply Leads.tryFrame trivial
  intro frame moved
  obtain ⟨pc, target, made⟩ := bind_eq_ok moved
  cases made
  unfold jumpTarget at target
  split at target
  · rename_i allowed
    cases target
    exact reached.jumps executing allowed
  · cases target

theorem heads_jump (executing : machine.frame.status = .codeExecuting) :
    Leads jump machine (fun _ => True) fun count after =>
      machine.frame.Heads instruction (after.advance count).frame := by
  apply (charges_useGas (Nat.zero_le _)).inPlace.onward (refl_of InPlace machine)
  intro _ _ reached
  apply charges_pop.inPlace.onward reached
  intro destination _ reached
  exact heads_jumpTo reached executing destination

theorem heads_jumpIf (executing : machine.frame.status = .codeExecuting) :
    Leads jumpIf machine (fun _ => True) fun count after =>
      machine.frame.Heads .jumpIf (after.advance count).frame := by
  apply (charges_useGas (Nat.zero_le _)).inPlace.onward (refl_of InPlace machine)
  intro _ _ reached
  apply charges_pop.inPlace.onward reached
  intro destination _ reached
  apply charges_pop.inPlace.onward reached
  intro condition _ reached
  apply Leads.ite
  · exact fun _ => reached.falls executing
  · exact fun _ => heads_jumpTo reached executing destination

/-- The status in which an instruction leaves the frame, where it always ends the code. -/
def Ends (action : Action Unit) : Prop :=
  ∀ machine, Leads action machine (fun _ => True) fun _ after =>
    after.frame.status = .codeSuccess ∨ after.frame.status = .revert

theorem ends_selfDestruct : Ends selfDestruct := by
  intro machine
  apply Leads.after
  intro _ _
  apply Leads.after
  intro word _
  apply Leads.after
  intro frame _
  apply Leads.after
  intro balance _
  apply Leads.after
  intro isCold _
  apply Leads.join fun _ _ => True
  · intro _
    apply Leads.onWorld
    exact fun _ _ _ => trivial
  · exact fun _ => trivial
  intro createsAccount _ _
  apply Leads.after
  intro _ _
  apply Leads.after
  intro _ _
  apply Leads.after
  intro _ _
  exact .inl rfl

/-! ## Every instruction -/

theorem heads_execute (schedule : GasSchedule) (context : Context) (instruction : Instruction)
    (executing : machine.frame.status = .codeExecuting) :
    Leads (instruction.execute schedule context) machine (fun _ => True) fun count after =>
      machine.frame.Heads instruction (after.advance count).frame := by
  have ordinary {action : Action Unit} (charges : Charges 1 Any action) :
      Leads (do action; return instruction.size) machine (fun _ => True) fun count after =>
        machine.frame.Heads instruction (after.advance count).frame :=
    charges.inPlace.onward (refl_of InPlace machine) fun _ _ reached => reached.falls executing
  have requests {action : Action Unit} {kind : Message.Kind}
      (asks : Leads action machine (fun _ => True) fun _ after =>
        machine.frame.Requests kind after.frame) :
      Leads (do action; return instruction.size) machine (fun _ => True) fun count after =>
        machine.frame.Heads instruction (after.advance count).frame :=
    Leads.bind (asks.mono fun _ _ requests => requests.heads executing)
  have ended {action : Action Unit} (ends : Ends action) :
      Leads (do action; return instruction.size) machine (fun _ => True) fun count after =>
        machine.frame.Heads instruction (after.advance count).frame :=
    Leads.bind ((ends machine).mono fun _ _ status => heads_of_ended status instruction.size)
  cases instruction with
  | jump => exact heads_jump executing
  | jumpIf => exact heads_jumpIf executing
  | stop => exact ended fun _ => .inl rfl
  | unary op => exact ordinary (charges_unary op)
  | binary op => exact ordinary (charges_binary op)
  | ternary op => exact ordinary (charges_ternary op)
  | exp => exact ordinary charges_exp
  | keccak => exact ordinary charges_keccak
  | query what => exact ordinary (charges_query context what)
  | accountQuery what => exact ordinary (charges_accountQuery what)
  | callDataLoad => exact ordinary charges_callDataLoad
  | copy source => exact ordinary (charges_copy source)
  | extCodeCopy => exact ordinary charges_extCodeCopy
  | blockHash => exact ordinary (charges_blockHash context)
  | pop => exact ordinary charges_discardTop
  | mload => exact ordinary charges_mload
  | mstore => exact ordinary charges_mstore
  | mstore8 => exact ordinary charges_mstore8
  | sload => exact ordinary charges_sload
  | sstore => exact ordinary (charges_sstore _)
  | jumpDest => exact ordinary (charges_useGas (by decide))
  | push size => exact ordinary (charges_pushImmediate size)
  | dup depth => exact ordinary (charges_dup depth)
  | swap depth => exact ordinary (charges_swap depth)
  | log topics => exact ordinary (charges_log topics)
  | create kind => exact requests (requests_create schedule kind machine)
  | call kind => exact requests (requests_call kind machine)
  | «return» => exact ended fun _ => Leads.after fun _ _ => .inl rfl
  | revert => exact ended fun _ => Leads.after fun _ _ => .inr rfl
  | invalid => exact Leads.halt trivial
  | selfDestruct => exact ended ends_selfDestruct

end Action

/-- A step keeps the message. It halts the frame, or takes it where the instruction at the
program counter heads. -/
theorem Machine.heads_step {schedule : GasSchedule} {context : Context} {machine after : Machine}
    (executing : machine.frame.status = .codeExecuting)
    (stepped : machine.step schedule context = .ok after) :
    after.frame.message = machine.frame.message ∧ (after.frame.status = .exceptionalHalt ∨
      ∃ instruction, Instruction.ofOpcode? schedule machine.frame.currentOpcode = some instruction ∧
        machine.frame.Heads instruction after.frame) := by
  rcases turns_step stepped with
    ⟨halted, reason, rfl, reversible⟩ |
      ⟨instruction, decoded, _, turns, count, moved, executed, rfl⟩
  · exact ⟨reversible.frame.message, .inl rfl⟩
  · have heads := Action.heads_execute schedule context instruction executing
    simp only [Action.Leads, executed] at heads
    exact ⟨turns.message, .inr ⟨instruction, decoded, heads⟩⟩

end ExecutionLayer
