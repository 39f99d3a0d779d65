import ExecutionLayer.Proofs.Instruction.Turns
import Mathlib.Logic.Relation

/-!
# Acts

A step is a row of acts: code looks around, moves on, ends, halts or suspends its frame, records
something, or writes to the world. So what every act keeps, a step keeps.
-/

set_option autoImplicit false

namespace ExecutionLayer

namespace Machine

/-- One act of code. Only for the account that it runs for does it write slots, count up the nonce
or ask for destruction. -/
inductive Act (before : Machine) : Machine → Prop where
  | looks {after : Machine} (observes : before.Observes after) : Act before after
  | moves (pc : Nat) : Act before { before with frame := { before.frame with pc } }
  | succeeds (output : Bytes) : Act before { before with frame := before.frame.succeed output }
  | reverts (output : Bytes) : Act before { before with frame := before.frame.revert output }
  | halts (reason : Halt) : Act before (before.halt reason)
  | suspends (child : Message) : Act before { before with frame := before.frame.suspend child }
  | refunds (amount : Int) : Act before { before with frame := before.frame.addRefund amount }
  | logs (log : Log) : Act before { before with frame := before.frame.addLog log }
  | destroys :
      Act before
        { before with frame := before.frame.addSelfDestruct before.frame.message.recipient }
  | counts {world : JournaledWorld}
      (ran : Journaled.incrementNonce before.frame.message.recipient before.world =
        .ok () world) : Act before { before with world }
  | debits {world : JournaledWorld} (address : Address) (amount : Word)
      (ran : Journaled.subBalance address amount before.world = .ok () world) :
      Act before { before with world }
  | credits {world : JournaledWorld} (address : Address) (amount : Word)
      (ran : Journaled.addBalance address amount before.world = .ok () world) :
      Act before { before with world }
  | stores {world : JournaledWorld} (slot value : Word)
      (ran : Journaled.setStorage before.frame.message.recipient slot value before.world =
        .ok () world) : Act before { before with world }

def Acts : Machine → Machine → Prop :=
  Relation.ReflTransGen Act

instance : IsPreorder Machine Acts where
  refl _ := .refl
  trans _ _ _ := .trans

theorem Act.message {before after : Machine} (act : before.Act after) :
    after.frame.message = before.frame.message := by
  cases act with
  | looks observes => exact observes.frame.message
  | refunds amount => exact (Action.keeps_addRefund before.frame amount).message
  | logs log => exact (Action.keeps_addLog before.frame log).message
  | destroys => exact (Action.addSelfDestruct_fields before.frame _).1
  | _ => rfl

/-- What every act keeps, a row of them keeps. -/
theorem Acts.lift {relation : Machine → Machine → Prop} [IsPreorder Machine relation]
    {before after : Machine} (acts : before.Acts after)
    (keeps : ∀ {before after}, before.Act after → relation before after) :
    relation before after := by
  induction acts with
  | refl => exact refl_of relation before
  | tail _ act ih => exact trans_of relation ih (keeps act)

theorem Acts.message {before after : Machine} (acts : before.Acts after) :
    after.frame.message = before.frame.message := by
  induction acts with
  | refl => rfl
  | tail _ act ih => exact act.message.trans ih

end Machine

open Machine

namespace Action

variable {Value : Type} {start machine : Machine}

theorem Maintains.acts {action : Action Value} (observes : Maintains Observes action) :
    Maintains Acts action :=
  observes.mono fun _ _ observes => .single (.looks observes)

/-- The frame that is read is the one that the relation starts from. -/
theorem Maintains.frame {relation : Machine → Machine → Prop} {next : Frame → Action Value}
    (later : ∀ machine, Leads (next machine.frame) machine (relation machine)
      fun _ => relation machine) : Maintains relation (Action.frame >>= next) :=
  later

theorem acts_modifyFrame {change : Frame → Frame}
    (act : ∀ machine : Machine, machine.Act { machine with frame := change machine.frame }) :
    Maintains Acts (modifyFrame change) :=
  fun machine => .single (act machine)

theorem acts_onWorld {operation : Journaled Value}
    (act : ∀ (machine : Machine) (value : Value) (world : JournaledWorld),
      operation machine.world = .ok value world → machine.Act { machine with world }) :
    Maintains Acts (onWorld operation) :=
  fun machine => .onWorld fun value world ran => .single (act machine value world ran)

theorem acts_requireWritable : Maintains Acts requireWritable :=
  .bind peeks_frame.observes.acts fun _ => .ite (.halt _) (.pure ())

/-! ## Ends and jumps -/

theorem acts_jumpTo (destination : Word) : Maintains Acts (jumpTo destination) := by
  intro machine
  apply Leads.tryFrame (refl_of Acts machine)
  intro frame moved
  obtain ⟨pc, _, made⟩ := bind_eq_ok moved
  cases made
  exact .single (.moves pc)

theorem acts_jump : Maintains Acts jump :=
  .bind (peeks_useGas _).observes.acts fun _ => .bind observes_pop.acts
    fun _ => .bind (acts_jumpTo _) fun _ => .pure _

theorem acts_jumpIf : Maintains Acts jumpIf :=
  .bind (peeks_useGas _).observes.acts fun _ => .bind observes_pop.acts
    fun _ => .bind observes_pop.acts fun _ =>
      .ite (.pure _) (.bind (acts_jumpTo _) fun _ => .pure _)

theorem acts_selfDestruct : Maintains Acts selfDestruct := by
  refine .bind acts_requireWritable fun _ => .bind observes_pop.acts
    fun word => .frame fun machine => ?_
  apply (peeks_balance _).observes.acts.reach (refl_of Acts machine) fun _ => id
  intro balance _ reached
  apply (peeks_warmAddress _).observes.acts.reach reached fun _ => id
  intro isCold _ reached
  apply Leads.join fun _ => machine.Acts
  · intro _
    exact (peeks_question (fun account => account.all Account.isEmpty) _).observes.acts.reaches
      reached fun _ => id
  · exact fun _ => reached
  intro createsAccount _ reached
  apply (peeks_useGas _).observes.acts.reach reached fun _ => id
  intro _ _ reached
  apply (acts_onWorld fun _ _ _ => .debits _ _).reach reached fun _ => id
  intro _ _ reached
  apply (acts_onWorld fun _ _ _ => .credits _ _).reach reached fun _ => id
  intro _ credited reached
  have destroys : credited.Acts { credited with
      frame := (credited.frame.addSelfDestruct credited.frame.message.recipient).succeed [] } :=
    .tail (.single .destroys) (.succeeds [])
  rw [reached.message] at destroys
  exact trans_of Acts reached destroys

/-! ## Slots and logs -/

theorem acts_sstore (clearRefund : Int) : Maintains Acts (sstore clearRefund) := by
  refine .bind acts_requireWritable fun _ => .bind peeks_frame.observes.acts
    fun _ => .ite (.halt _) ?_
  refine .bind observes_pop.acts fun slot => .bind observes_pop.acts fun value =>
    .frame fun machine => ?_
  apply (peeks_warmSlot _ slot).observes.acts.reach (refl_of Acts machine) fun _ => id
  intro _ _ reached
  apply (peeks_onWorld (Journaled.follows_storage _ slot).asks).observes.acts.reach reached
    fun _ => id
  intro _ _ reached
  apply (peeks_onWorld (Journaled.follows_originalStorage _ slot).asks).observes.acts.reach
    reached fun _ => id
  intro _ _ reached
  apply (peeks_useGas _).observes.acts.reach reached fun _ => id
  intro _ _ reached
  apply (acts_modifyFrame fun _ => .refunds _).reach reached fun _ => id
  intro _ _ reached
  -- The one slot that is written is one of the frame's own account.
  apply Leads.onWorld
  intro _ world written
  rw [← reached.message] at written
  exact .tail reached (.stores slot value written)

theorem acts_log (topics : Fin 5) : Maintains Acts (log topics) := by
  refine .bind acts_requireWritable fun _ => .bind observes_pop.acts fun _ =>
    .bind observes_pop.acts fun _ => .bind (peeks_rangeOf _ _).observes.acts fun range =>
      .bind (observes_popWords _).acts fun _ => .bind (peeks_useGas _).observes.acts fun _ =>
        .bind (peeks_chargeMemory range).observes.acts fun _ =>
          .bind (peeks_readMemory range).observes.acts fun _ => ?_
  exact acts_modifyFrame fun _ => .logs _

/-! ## Children -/

theorem acts_suspend (child : Message) : Maintains Acts (modifyFrame (·.suspend child)) :=
  acts_modifyFrame fun _ => .suspends child

theorem acts_call (kind : CallKind) : Maintains Acts (call kind) := by
  refine .bind (peeks_peek 0).observes.acts fun _ => .bind (peeks_peek 1).observes.acts fun _ =>
    .join (peeks_peek 2).observes.acts (.pure _) fun value =>
      .bind peeks_frame.observes.acts fun _ => .bind (peeks_ofExcept _).observes.acts fun _ =>
        .bind peeks_frame.observes.acts fun _ => .ite (.halt _) ?_
  refine .bind (peeks_warmAddress _).observes.acts fun _ =>
    .join (peeks_question (fun account => account.all Account.isEmpty) _).observes.acts (.pure _)
      fun _ => .bind (peeks_useGas _).observes.acts fun _ =>
        .bind (peeks_chargeMemory _).observes.acts fun _ =>
          .bind peeks_frame.observes.acts fun _ => .bind (peeks_useGas _).observes.acts fun _ =>
            .bind peeks_frame.observes.acts fun _ => ?_
  refine .join (peeks_holdsLess _ _).observes.acts (.pure _) fun _ => .ite ?_ ?_
  · exact .bind (observes_modifyFrame (·.works_returnGas _)).acts
      fun _ => (observes_abandon _).acts
  · exact .bind (peeks_readMemory _).observes.acts fun _ =>
      .bind (peeks_code _).observes.acts fun _ => acts_suspend _

theorem acts_create (schedule : GasSchedule) (kind : CreateKind) :
    Maintains Acts (create schedule kind) := by
  refine .bind acts_requireWritable fun _ => .bind (peeks_peek 0).observes.acts fun _ =>
    .bind (peeks_peek 1).observes.acts fun _ => .bind (peeks_peek 2).observes.acts fun _ =>
      .bind (peeks_rangeOf _ _).observes.acts fun range => ?_
  refine .join (peeks_peek 3).observes.acts (.pure _) fun _ => .ite (.halt _) <|
    .bind (peeks_useGas _).observes.acts fun _ =>
      .bind (peeks_chargeMemory range).observes.acts fun _ => .frame fun machine => ?_
  apply (peeks_question (fun account => (account.getD {}).nonce) _).observes.acts.reach
    (refl_of Acts machine) fun _ => id
  intro nonce _ reached
  apply (peeks_holdsLess _ _).observes.acts.reach reached fun _ => id
  intro isUnderfunded _ reached
  have givenUp {asking : Machine} (reached : machine.Acts asking) :
      Leads (abandon kind.operandCount) asking machine.Acts fun _ => machine.Acts :=
    (observes_abandon _).acts.reaches reached fun _ => id
  apply Leads.ite fun _ => givenUp reached
  intro _
  apply Leads.ite fun _ => givenUp reached
  intro _
  apply Leads.ite fun _ => givenUp reached
  intro _
  apply (peeks_readMemory _).observes.acts.reach reached fun _ => id
  intro initCode _ reached
  -- The one write is to the frame's own account, whose nonce is counted up.
  apply Leads.bind
  apply Leads.onWorld
  intro _ world counted
  rw [← reached.message] at counted
  have counting : machine.Acts _ := .tail reached (.counts counted)
  apply (peeks_warmAddress _).observes.acts.reach counting fun _ => id
  intro _ _ reached
  apply peeks_frame.observes.acts.reach reached fun _ => id
  intro _ _ reached
  apply (peeks_useGas _).observes.acts.reach reached fun _ => id
  intro _ _ reached
  exact (acts_suspend _).reaches reached fun _ => id

theorem acts_execute (schedule : GasSchedule) (context : Context) (instruction : Instruction) :
    Maintains Acts (instruction.execute schedule context) := by
  have ordinary {action : Action Unit} (acts : Maintains Acts action) :
      Maintains Acts (do action; return instruction.size) :=
    .bind acts fun _ => .pure _
  cases instruction with
  | jump => exact acts_jump
  | jumpIf => exact acts_jumpIf
  | stop => exact ordinary (acts_modifyFrame fun _ => .succeeds [])
  | sstore => exact ordinary (acts_sstore schedule.storeClearRefund)
  | log topics => exact ordinary (acts_log topics)
  | create kind => exact ordinary (acts_create schedule kind)
  | call kind => exact ordinary (acts_call kind)
  | «return» =>
      exact ordinary (.bind observes_popOutput.acts fun _ => acts_modifyFrame fun _ => .succeeds _)
  | revert =>
      exact ordinary (.bind observes_popOutput.acts fun _ => acts_modifyFrame fun _ => .reverts _)
  | invalid => exact ordinary (.halt _)
  | selfDestruct => exact ordinary acts_selfDestruct
  | _ =>
      apply (observes_execute schedule context _ _).acts
      trivial

end Action

/-! ## Steps -/

namespace Machine

variable {schedule : GasSchedule} {context : Context} {machine after : Machine}

theorem Acts.advance (acts : machine.Acts after) (count : Nat) :
    machine.Acts (after.advance count) := by
  unfold Machine.advance
  split
  · exact .tail acts (.moves _)
  · exact acts

theorem acts_step (stepped : machine.step schedule context = .ok after) : machine.Acts after := by
  unfold step at stepped
  dsimp only at stepped
  split at stepped
  · cases stepped
    exact .single (.halts _)
  · rename_i instruction decoded
    split at stepped
    · cases stepped
      exact .single (.halts _)
    · have acts := Action.acts_execute schedule context instruction machine
      unfold Action.Leads at acts
      split at stepped
      · rename_i count moved ran
        cases stepped
        rw [ran] at acts
        exact acts.advance count
      · rename_i reason halted ran
        cases stepped
        rw [ran] at acts
        exact .tail acts (.halts reason)
      · cases stepped

end Machine

end ExecutionLayer
