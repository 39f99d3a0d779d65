import ExecutionLayer.Proofs.Instruction.Billing
import ExecutionLayer.Proofs.Instruction.Step
import ExecutionLayer.Proofs.Machine.Windows

/-!
# Gas and paid memory together

What an instruction takes for memory it takes from the gas of the frame. So the gas, what the
memory costs and the gas that is set aside for a child never grow in sum. The surcharge of a call
is a credit from which the stipend of its child is taken.
-/

set_option autoImplicit false

namespace ExecutionLayer

namespace Frame

/-- The gas that a waiting frame set aside for its child. -/
def lent (frame : Frame) : Nat :=
  if frame.status = .codeSuspended then frame.pendingChild.elim 0 (·.gas.toNat) else 0

/-- The gas of the frame and of the child that it asked for. -/
def funds (frame : Frame) : Nat :=
  frame.gas.toNat + frame.lent

/-- The funds of the frame and what its memory costs. -/
def worth (frame : Frame) : Nat :=
  frame.funds + Memory.exactCost frame.memory.wordSize

variable {before after : Frame}

theorem funds_of_awake {frame : Frame} (awake : frame.status ≠ .codeSuspended) :
    frame.funds = frame.gas.toNat := by
  rw [funds, lent, if_neg awake, Nat.add_zero]

theorem funds_of_waiting {frame : Frame} (waits : frame.status = .codeSuspended) {child : Message}
    (asked : frame.pendingChild = some child) :
    frame.funds = frame.gas.toNat + child.gas.toNat := by
  rw [funds, lent, if_pos waits, asked]
  rfl

theorem funds_add_le {paid : Nat} (status : after.status = before.status)
    (pendingChild : after.pendingChild = before.pendingChild)
    (gas : after.gas.toNat + paid ≤ before.gas.toNat) : after.funds + paid ≤ before.funds := by
  unfold funds lent
  rw [status, pendingChild]
  omega

theorem gas_le_funds (frame : Frame) : frame.gas.toNat ≤ frame.funds :=
  Nat.le_add_right _ _

theorem funds_returnGas_le (frame : Frame) (amount : UInt64) :
    (frame.returnGas amount).funds ≤ frame.funds + amount.toNat := by
  have returned := frame.returnGas_le amount
  have same : (frame.returnGas amount).lent = frame.lent := rfl
  unfold funds
  omega

theorem funds_suspend (frame : Frame) (child : Message) :
    (frame.suspend child).funds = frame.gas.toNat + child.gas.toNat := rfl

end Frame

/-- The funds of the frame and what is on its bill. -/
def BilledMachine.holdings (state : BilledMachine) : Nat :=
  state.machine.frame.funds + state.bill.gas

theorem Machine.funds_advance (machine : Machine) (count : Nat) :
    (machine.advance count).frame.funds = machine.frame.funds := by
  unfold advance
  split <;> rfl

theorem Machine.Moves.funds_le {least : Nat} {instruction : Instruction} {before after : Machine}
    (moves : Machine.Moves least instruction before after) :
    after.frame.funds ≤ before.frame.gas.toNat := by
  rcases moves.course with
    ⟨status, _, paid⟩ | ⟨status, _, paid⟩ | ⟨child, _, status, asked, _, paid, _⟩
  · rw [Frame.funds_of_awake (by rw [status]; decide)]
    omega
  · rw [Frame.funds_of_awake (by rcases status with status | status <;> rw [status] <;> decide)]
    exact paid
  · rw [Frame.funds_of_waiting status asked]
    omega

theorem Action.Yields.leads {Value : Type} {action : Action Value} {machine : Machine}
    {post : Value → Machine → Prop} (yields : Yields action machine post) :
    Leads action machine (fun _ => True) post := by
  unfold Yields at yields
  unfold Leads
  cases ran : action machine with
  | ok value after =>
      rw [ran] at yields
      exact yields
  | error fault after => cases fault <;> trivial

theorem Action.Charges.leads {Value : Type} {cost : Nat} {returns : Value → Prop}
    {action : Action Value} (charges : Charges cost returns action) (machine : Machine) :
    Leads action machine (fun _ => True)
      fun _ after => after.frame.funds + cost ≤ machine.frame.funds := by
  refine (charges machine).leads.mono fun value after ⟨kept, paid, _⟩ => ?_
  exact Frame.funds_add_le kept.frame.status kept.frame.pendingChild paid

namespace Billed

open ExecutionLayer.Action (Leads Charges)

variable {Value Result : Type}

/-- With a credit beside what it holds, the code makes do: what it holds at its end and what it
leaves of the credit come to no more. Where it halts, the bill at least is covered. -/
def SpendsFrom (state : BilledMachine) (credit : Nat) (billed : Billed Value)
    (left : Value → Nat) : Prop :=
  match billed state with
  | .ok value after => after.holdings + left value ≤ state.holdings + credit
  | .error (.halt _) after => after.bill.gas ≤ state.holdings + credit
  | .error (.state _) _ => True

def Spends (credit : Nat) (billed : Billed Value) (left : Value → Nat) : Prop :=
  ∀ state, SpendsFrom state credit billed left

/-- What the code pays adds to the credit, and nothing is billed. -/
theorem SpendsFrom.lift {state : BilledMachine} {credit paid : Nat} {action : Action Value}
    (leads : Leads action state.machine (fun _ => True)
      fun _ after => after.frame.funds + paid ≤ state.machine.frame.funds + credit) :
    SpendsFrom state credit (Billed.lift action) fun _ => paid := by
  unfold Leads at leads
  unfold SpendsFrom Billed.lift
  cases ran : action state.machine with
  | ok value after =>
      rw [ran] at leads
      dsimp only [BilledMachine.holdings] at leads ⊢
      omega
  | error fault after =>
      cases fault with
      | halt reason =>
          dsimp only [BilledMachine.holdings]
          omega
      | state error => trivial

namespace Spends

variable {credit : Nat} {billed : Billed Value} {action : Action Value} {left : Result → Nat}
  {next : Value → Billed Result}

theorem bind {middle : Value → Nat} (first : Spends credit billed middle)
    (second : ∀ value, Spends (middle value) (next value) left) :
    Spends credit (billed >>= next) left := by
  intro state
  have spent := first state
  unfold SpendsFrom at spent ⊢
  cases ran : billed state with
  | error fault after =>
      rw [ran] at spent
      simp only [Bind.bind, EStateM.bind, ran]
      cases fault <;> exact spent
  | ok value between =>
      rw [ran] at spent
      have later := second value between
      unfold SpendsFrom at later
      simp only [Bind.bind, EStateM.bind, ran]
      dsimp only at spent
      cases ranLater : next value between with
      | ok result after =>
          rw [ranLater] at later
          dsimp only at later ⊢
          omega
      | error fault after =>
          rw [ranLater] at later
          cases fault with
          | halt reason =>
              dsimp only at later ⊢
              omega
          | state error => trivial

theorem ite {condition : Prop} [Decidable condition] {other : Billed Value} {left : Value → Nat}
    (whenTrue : Spends credit billed left) (whenFalse : Spends credit other left) :
    Spends credit (if condition then billed else other) left := by
  split
  · exact whenTrue
  · exact whenFalse

theorem pure {value : Value} {left : Value → Nat} (enough : left value ≤ credit) :
    Spends credit (Pure.pure value) left :=
  fun _ => Nat.add_le_add_left enough _

theorem halt {reason : Halt} : Spends credit (Billed.lift (Action.halt reason) >>= next) left :=
  fun state => Nat.le_trans (Nat.le_add_left _ state.machine.frame.funds) (Nat.le_add_right _ _)

theorem lift {paid : Nat} (leads : ∀ machine, Leads action machine (fun _ => True)
      fun _ after => after.frame.funds + paid ≤ machine.frame.funds + credit) :
    Spends credit (Billed.lift action) fun _ => paid :=
  fun state => .lift (leads state.machine)

/-- Goes on after code that may pay. -/
theorem pay {cost : Nat} {returns : Value → Prop} (charges : Charges cost returns action)
    (later : ∀ value, Spends (credit + cost) (next value) left) :
    Spends credit (Billed.lift action >>= next) left := by
  refine .bind (.lift fun machine => (charges.leads machine).mono fun value after spent => ?_) later
  omega

theorem free {returns : Value → Prop} (charges : Charges 0 returns action)
    (later : ∀ value, Spends credit (next value) left) :
    Spends credit (Billed.lift action >>= next) left :=
  .pay charges later

theorem ask {operation : Journaled Value} (later : ∀ value, Spends credit (next value) left) :
    Spends credit (Billed.lift (Action.onWorld operation) >>= next) left :=
  .bind (.lift fun _ => .onWorld fun _ _ _ => Nat.le_refl _) later

/-- What a charge takes from the gas it puts on the bill. -/
theorem charge {range : MemoryRange} {next : Unit → Billed Result}
    (later : Spends credit (next ()) left) :
    Spends credit (Billed.chargeMemory range >>= next) left := by
  have charged : Spends credit (Billed.chargeMemory range) fun _ => credit := by
    intro state
    rw [SpendsFrom, chargeMemory_eq]
    cases paying : state.machine.frame.chargeMemory range with
    | error reason => exact Nat.le_trans (Nat.le_add_left ..) (Nat.le_add_right ..)
    | ok payer =>
        obtain ⟨paid, taken, made⟩ := bind_eq_ok paying
        cases made
        obtain ⟨kept, exactly⟩ := Frame.useGas_eq_ok taken
        have spent := Frame.funds_add_le kept.status kept.pendingChild (Nat.le_of_eq exactly)
        have same : Frame.funds { paid with
            memory := paid.memory.expand range } = paid.funds := rfl
        dsimp only [BilledMachine.holdings, MemoryBill.charge]
        omega
  exact .bind charged fun _ => later

theorem last {returns : Value → Prop} (charges : Charges 0 returns action) :
    Spends credit (Billed.lift action) fun _ => 0 :=
  .lift fun machine => (charges.leads machine).mono fun _ _ spent => Nat.le_add_right_of_le spent

theorem change {change : Frame → Frame}
    (funds : ∀ frame : Frame, (change frame).funds ≤ frame.funds + credit) :
    Spends credit (Billed.lift (Action.modifyFrame change)) fun _ => 0 :=
  .lift fun machine => funds machine.frame

theorem join {condition : Prop} [Decidable condition] {other : Action Value}
    {returns : Value → Prop} (whenTrue : Charges 0 returns action)
    (whenFalse : Charges 0 returns other) (later : ∀ value, Spends credit (next value) left) :
    Spends credit (if condition then Billed.lift action >>= next
      else Billed.lift other >>= next) left :=
  .ite (.free whenTrue later) (.free whenFalse later)

end Spends

/-! ## Instructions -/

section

open ExecutionLayer.Action Spends

theorem spends_keccak : Spends 0 Billed.keccak fun _ => 0 :=
  .free charges_pop fun _ => .free charges_pop fun _ => .free (charges_rangeOf _ _) fun _ =>
    .free (charges_useGas (Nat.zero_le _)) fun _ => .charge <|
      .free (charges_readMemory _) fun _ => .last (charges_push _)

theorem spends_mload : Spends 0 Billed.mload fun _ => 0 :=
  .free charges_pop fun _ => .free (charges_ofExcept _) fun _ =>
    .free (charges_useGas (Nat.zero_le _)) fun _ => .charge <| .free charges_frame fun _ =>
      .last (charges_push _)

theorem spends_mstore : Spends 0 Billed.mstore fun _ => 0 :=
  .free charges_pop fun _ => .free charges_pop fun _ => .free (charges_ofExcept _) fun _ =>
    .free (charges_useGas (Nat.zero_le _)) fun _ => .charge <| .last (charges_writeMemory _ _)

theorem spends_mstore8 : Spends 0 Billed.mstore8 fun _ => 0 :=
  .free charges_pop fun _ => .free charges_pop fun _ => .free (charges_ofExcept _) fun _ =>
    .free (charges_useGas (Nat.zero_le _)) fun _ => .charge <| .last (charges_writeMemory _ _)

theorem spends_chargeCopy (baseCost : UInt64) : Spends 0 (Billed.chargeCopy baseCost) fun _ => 0 :=
  .free charges_pop fun _ => .free charges_pop fun _ => .free charges_pop fun _ =>
    .free (charges_rangeOf _ _) fun _ => .free (charges_useGas (Nat.zero_le _)) fun _ =>
      .charge <| .pure (Nat.le_refl 0)

theorem spends_copy (source : CopySource) : Spends 0 (Billed.copy source) fun _ => 0 := by
  have copied : Spends 0
      (Billed.chargeCopy Gas.veryLow >>= fun taken => Billed.lift (modifyFrame fun frame =>
        { frame with memory :=
            frame.memory.writePadded taken.1 (sourceBytes frame source) taken.2 }))
      fun _ => 0 :=
    .bind (spends_chargeCopy _) fun _ => .change fun _ => Nat.le_refl _
  exact .ite (.free charges_requireReturnData fun _ => copied) copied

theorem spends_extCodeCopy : Spends 0 Billed.extCodeCopy fun _ => 0 :=
  .free charges_pop fun _ => .free (charges_warmAddress _) fun _ =>
    .bind (spends_chargeCopy _) fun _ => .ask fun _ => .change fun _ => Nat.le_refl _

theorem spends_log (topics : Fin 5) : Spends 0 (Billed.log topics) fun _ => 0 :=
  .free charges_requireWritable fun _ => .free charges_pop fun _ => .free charges_pop fun _ =>
    .free (charges_rangeOf _ _) fun _ => .free (charges_popWords _) fun _ =>
      .free (charges_useGas (Nat.zero_le _)) fun _ => .charge <|
        .free (charges_readMemory _) fun _ =>
          .last (charges_modifyFrame (keeps_addLog · _) (gas_addLog · _))

theorem spends_popOutput : Spends 0 Billed.popOutput fun _ => 0 :=
  .free charges_pop fun _ => .free charges_pop fun _ => .free (charges_rangeOf _ _) fun _ =>
    .charge <| .last (charges_readMemory _)

theorem spends_returnOutput : Spends 0 Billed.returnOutput fun _ => 0 :=
  .bind spends_popOutput fun _ => .change Frame.gas_le_funds

theorem spends_revertOutput : Spends 0 Billed.revertOutput fun _ => 0 :=
  .bind spends_popOutput fun _ => .change Frame.gas_le_funds

/-- What a call pays covers what it forwards and the stipend. -/
theorem spends_reserve (kind : CallKind) : Spends 0 (Billed.reserve kind)
    fun reservation => (stipend reservation.value).toNat + reservation.forwarded.toNat := by
  refine .free (charges_peek 0) fun requestedGas => .free (charges_peek 1) fun target => ?_
  refine .join (charges_peek 2) (.pure trivial) fun value => .free charges_frame fun _ => ?_
  refine .free (charges_ofExcept _) fun ranges => .free charges_frame fun caller => .ite .halt ?_
  refine .free (charges_warmAddress _) fun isCold => ?_
  have covers (createsAccount : Bool) : (stipend value).toNat ≤
      (Gas.callCost isCold (decide (value ≠ 0)) createsAccount).toNat :=
    Nat.le_of_add_right_le (callCost_covers isCold createsAccount value)
  refine .ite (.ask fun createsAccount => ?_) ?_
  all_goals
    refine .pay (charges_useGas (covers _)) fun _ => .charge <| .free charges_frame fun payer => ?_
    exact .pay (charges_useGas (Nat.le_refl _)) fun _ => .pure (by dsimp only; omega)

theorem leads_requestChild_funds (kind : CallKind) (reservation : Reservation) (machine : Machine) :
    Leads (requestChild kind reservation) machine (fun _ => True) fun _ after =>
      after.frame.funds ≤ machine.frame.funds + reservation.gas.toNat := by
  apply Leads.frame
  apply Leads.join fun _ after => after.frame.funds ≤ machine.frame.funds
  · exact fun _ => (charges_holdsLess _ _).leads machine
  · exact fun _ => Nat.le_refl _
  intro isUnderfunded asking held
  apply Leads.ite
  · intro _
    apply Leads.bind
    have returned := asking.frame.funds_returnGas_le reservation.gas
    apply ((charges_abandon _).leads { asking with frame := asking.frame.returnGas _ }).mono
    intro _ after spent
    dsimp only at spent
    omega
  · intro _
    apply Leads.bind
    apply ((charges_readMemory _).leads asking).mono
    intro input reading spent
    apply Leads.bind
    apply Leads.onWorld
    intro code world _
    have left := reading.frame.gas_le_funds
    change reading.frame.gas.toNat + reservation.gas.toNat ≤ _
    omega

theorem spends_call (kind : CallKind) : Spends 0 (Billed.call kind) fun _ => 0 := by
  refine .bind (spends_reserve kind) fun reservation => .lift fun machine => ?_
  apply (leads_requestChild_funds kind reservation machine).mono
  intro _ after reached
  have covered : reservation.gas.toNat ≤ _ := toNat_add_le _ _
  omega

theorem spends_create (schedule : GasSchedule) (kind : CreateKind) :
    Spends 0 (Billed.create schedule kind) fun _ => 0 := by
  have givenUp : Spends 0 (Billed.lift (abandon kind.operandCount)) fun _ => 0 :=
    .last (charges_abandon _)
  refine .free charges_requireWritable fun _ => .free (charges_peek 0) fun value => ?_
  refine .free (charges_peek 1) fun offset => .free (charges_peek 2) fun length => ?_
  refine .free (charges_rangeOf _ _) fun range => .join (charges_peek 3) (.pure trivial) fun salt => ?_
  refine .ite .halt <| .free (charges_useGas (Nat.zero_le _)) fun _ => .charge ?_
  refine .free charges_frame fun creator => .ask fun nonce => ?_
  refine .free (charges_holdsLess _ _) fun isUnderfunded => ?_
  refine .ite givenUp <| .ite givenUp <| .ite givenUp ?_
  refine .free (charges_readMemory range) fun initCode => .ask fun _ => ?_
  refine .free (charges_warmAddress _) fun _ => .free charges_frame fun payer => ?_
  refine .pay (charges_useGas (Nat.le_refl _)) fun _ => .change fun frame => ?_
  rw [Frame.funds_suspend]
  have := frame.gas_le_funds
  dsimp only
  omega

theorem spends_touching {schedule : GasSchedule} {instruction : Instruction} {billed : Billed Unit}
    (touches : touching? schedule instruction = some billed) : Spends 0 billed fun _ => 0 := by
  cases instruction with
  | keccak => exact Option.some.inj touches ▸ spends_keccak
  | copy source => exact Option.some.inj touches ▸ spends_copy source
  | extCodeCopy => exact Option.some.inj touches ▸ spends_extCodeCopy
  | mload => exact Option.some.inj touches ▸ spends_mload
  | mstore => exact Option.some.inj touches ▸ spends_mstore
  | mstore8 => exact Option.some.inj touches ▸ spends_mstore8
  | log topics => exact Option.some.inj touches ▸ spends_log topics
  | create kind => exact Option.some.inj touches ▸ spends_create schedule kind
  | call kind => exact Option.some.inj touches ▸ spends_call kind
  | «return» => exact Option.some.inj touches ▸ spends_returnOutput
  | revert => exact Option.some.inj touches ▸ spends_revertOutput
  | _ => cases touches

theorem spends_execute (schedule : GasSchedule) (context : Context) (instruction : Instruction)
    {state : BilledMachine} (executing : state.machine.frame.status = .codeExecuting) :
    SpendsFrom state 0 (Billed.execute schedule context instruction) fun _ => 0 := by
  unfold Billed.execute
  cases touches : touching? schedule instruction with
  | some billed =>
      have spends : Spends 0 (do billed; return instruction.size) fun _ => 0 :=
        .bind (spends_touching touches) fun _ => .pure (Nat.le_refl 0)
      exact spends state
  | none =>
      have yields := Action.yields_execute schedule.charges_zero context instruction executing
      refine .lift (yields.leads.mono fun _ _ moves => ?_)
      exact Nat.le_trans moves.funds_le state.machine.frame.gas_le_funds

end

/-! ## Steps -/

theorem holdings_step {schedule : GasSchedule} {context : Context} {state after : BilledMachine}
    (executing : state.machine.frame.status = .codeExecuting)
    (stepped : Billed.step schedule context state = .ok after) :
    after.holdings ≤ state.holdings := by
  have halted (reason : Halt) (state : BilledMachine) :
      BilledMachine.holdings { state with machine := state.machine.halt reason } = state.bill.gas :=
    Nat.zero_add _
  unfold Billed.step at stepped
  dsimp only at stepped
  cases decoded : Instruction.ofOpcode? schedule state.machine.frame.currentOpcode with
  | none =>
      rw [decoded] at stepped
      cases stepped
      rw [halted]
      exact Nat.le_add_left ..
  | some instruction =>
      rw [decoded] at stepped
      dsimp only at stepped
      cases fault : instruction.stackFault? state.machine.frame.stack.height with
      | some reason =>
          rw [fault] at stepped
          cases stepped
          rw [halted]
          exact Nat.le_add_left ..
      | none =>
          rw [fault] at stepped
          have spends := spends_execute schedule context instruction executing
          unfold SpendsFrom at spends
          dsimp only at stepped
          cases ran : Billed.execute schedule context instruction state with
          | ok count moved =>
              rw [ran] at stepped spends
              cases stepped
              dsimp only [BilledMachine.holdings] at spends ⊢
              rwa [Machine.funds_advance]
          | error stop moved =>
              rw [ran] at stepped spends
              cases stop with
              | halt reason =>
                  cases stepped
                  rw [halted]
                  exact spends
              | state error => cases stepped

end Billed

/-- A step gains nothing: the gas, the gas set aside for a child and the price of the memory do not
grow in sum. -/
theorem Machine.worth_step {schedule : GasSchedule} {context : Context} {machine after : Machine}
    (executing : machine.frame.status = .codeExecuting)
    (bounded : machine.frame.memory.wordSize ≤ Memory.maxWords)
    (stepped : machine.step schedule context = .ok after) :
    after.frame.worth ≤ machine.frame.worth := by
  let bill : MemoryBill :=
    ⟨(Gas.memoryCost machine.frame.memory.wordSize).toNat, machine.frame.memory.size⟩
  have settles : bill.Settles machine.frame.memory := ⟨rfl, rfl, bounded⟩
  obtain ⟨next, billed⟩ := Billed.exists_step ⟨machine, bill⟩ settles stepped
  obtain ⟨_, onward⟩ := Billed.onward_step settles billed
  have spent := Billed.holdings_step executing billed
  have paid : next.gas = Memory.exactCost after.frame.memory.wordSize :=
    onward.settles.gas.trans (Memory.toNat_memoryCost_eq onward.settles.bounded)
  have before : bill.gas = Memory.exactCost machine.frame.memory.wordSize :=
    Memory.toNat_memoryCost_eq bounded
  unfold Frame.worth
  rw [← paid, ← before]
  exact spent

end ExecutionLayer
