import ExecutionLayer.Proofs.Instruction.Acts
import ExecutionLayer.Proofs.Instruction.Headings
import ExecutionLayer.Proofs.World.Standing

/-!
# Foreign accounts

Code counts up the nonce of no account but the one it runs for, destroys no other, and leaves the
code of every account as it is. It asks to run only for its own account, what another account has
as code, or a creation.
-/

set_option autoImplicit false

namespace ExecutionLayer

open Readings (Alters Counts)

/-! ## What a machine leaves alone -/

namespace Machine

/-- Codes are as they were. At most the account that the frame runs for was counted up, and at
most this one is destroyed besides those before. -/
structure KeepsForeign (before after : Machine) : Prop where
  message : after.frame.message = before.frame.message
  counts : Counts {before.frame.message.recipient} before.world.readings after.world.readings
  selfDestructs : ∀ address ∈ after.frame.selfDestructs,
    address ∈ before.frame.selfDestructs ∨ address = before.frame.message.recipient

instance : IsPreorder Machine KeepsForeign where
  refl _ := ⟨rfl, .of_eq rfl, fun _ => .inl⟩
  trans before middle after first second := by
    refine ⟨second.message.trans first.message, first.counts.trans ?_, fun address member => ?_⟩
    · exact first.message ▸ second.counts
    · rcases second.selfDestructs address member with earlier | own
      · exact first.selfDestructs address earlier
      · exact .inr (own.trans (congrArg Message.recipient first.message))

theorem keepsForeign_onWorld {machine : Machine} {world : JournaledWorld}
    (alters : Alters ∅ machine.world.readings world.readings) :
    machine.KeepsForeign { machine with world } :=
  ⟨rfl, .of_alters alters, fun _ => .inl⟩

theorem Act.keepsForeign {before after : Machine} (act : before.Act after) :
    before.KeepsForeign after := by
  have message := act.message
  cases act with
  | looks observes =>
      exact ⟨message, .of_eq observes.readings,
        fun _ member => .inl (observes.frame.selfDestructs ▸ member)⟩
  | moves pc => exact ⟨rfl, .of_eq rfl, fun _ => .inl⟩
  | succeeds output => exact ⟨rfl, .of_eq rfl, fun _ => .inl⟩
  | suspends child => exact ⟨rfl, .of_eq rfl, fun _ => .inl⟩
  | reverts output =>
      exact ⟨rfl, .of_eq rfl, fun _ member => absurd member Std.ExtTreeSet.not_mem_empty⟩
  | halts reason =>
      exact ⟨rfl, .of_eq rfl, fun _ member => absurd member Std.ExtTreeSet.not_mem_empty⟩
  | refunds amount =>
      refine ⟨message, .of_eq rfl, fun _ member => .inl ?_⟩
      unfold Frame.addRefund at member
      split at member <;> exact member
  | logs log =>
      refine ⟨message, .of_eq rfl, fun _ member => .inl ?_⟩
      unfold Frame.addLog at member
      split at member <;> exact member
  | destroys =>
      refine ⟨message, .of_eq rfl, fun _ member => ?_⟩
      unfold Frame.addSelfDestruct at member
      split at member
      · rcases Std.ExtTreeSet.mem_insert.mp member with same | earlier
        · exact .inr (Std.compare_eq_iff_eq.mp same).symm
        · exact .inl earlier
      · exact .inl member
  | counts ran => exact ⟨rfl, Journaled.counts_incrementNonce ran, fun _ => .inl⟩
  | debits address amount ran => exact keepsForeign_onWorld (Journaled.alters_subBalance ran)
  | credits address amount ran => exact keepsForeign_onWorld (Journaled.alters_addBalance ran)
  | stores slot value ran => exact keepsForeign_onWorld (Journaled.alters_setStorage ran)

end Machine

open Machine

namespace Action

/-! ## What children run -/

/-- The child was asked for before, creates a contract, or runs for the same account. Otherwise
it runs what the account that it is for has as code. -/
def AsksFairly (start after : Machine) : Prop :=
  ∀ child, after.frame.pendingChild = some child → start.frame.pendingChild = some child ∨
    child.kind = .contractCreation ∨ child.recipient = start.frame.message.recipient ∨
      ∃ nonce, after.world.readings.standing child.recipient = .ok (nonce, child.code)

variable {start machine : Machine}

theorem asksFairly_of_unchanged (same : machine.frame.pendingChild = start.frame.pendingChild) :
    AsksFairly start machine :=
  fun _ asked => .inl (same ▸ asked)

theorem asksFairly_of_creation
    (requests : start.frame.Requests .contractCreation machine.frame) :
    AsksFairly start machine := by
  cases requests with
  | givesUp keeps => exact asksFairly_of_unchanged keeps.pendingChild
  | waits child _ pendingChild asked _ _ _ =>
      intro other asksOther
      cases pendingChild.symm.trans asksOther
      exact .inr (.inl asked)

theorem asksFairly_requestChild (reached : start.InPlace machine) (kind : CallKind)
    (reservation : Reservation) :
    Leads (requestChild kind reservation) machine (fun _ => True) fun _ =>
      AsksFairly start := by
  apply Leads.frame
  rw [reached.message]
  apply Leads.join fun _ => start.InPlace
  · exact fun _ => (inPlace_holdsLess _ _).ends_inPlace reached
  · exact fun _ => reached
  intro isUnderfunded _ reached
  apply Leads.ite
  · intro _
    apply (inPlace_returnGas _).onward reached
    intro _ _ reached
    exact ((charges_abandon kind.operandCount).inPlace.ends_inPlace reached).mono
      fun _ _ inPlace => asksFairly_of_unchanged inPlace.pendingChild
  · intro _
    apply (charges_readMemory _).inPlace.onward reached
    intro input _ reached
    apply Leads.bind
    apply Leads.onWorld
    intro code world read
    obtain ⟨found, held, rfl, same⟩ :=
      Journaled.question_ok (fun account => (account.getD {}).code) read
    have stands := Readings.standing_of_read held
    rw [← same] at stands
    intro child asked
    injection asked with asked
    subst asked
    -- The other kinds of call run what they read for the account of the frame itself.
    by_cases toTarget : kind = .call ∨ kind = .staticCall
    · exact .inr (.inr (.inr ⟨_, by simpa only [if_pos toTarget] using stands⟩))
    · exact .inr (.inr (.inl (if_neg toTarget)))

theorem asksFairly_execute (schedule : GasSchedule) (context : Context)
    {instruction : Instruction} (asks : instruction.AsksForChild) (machine : Machine) :
    Leads (instruction.execute schedule context) machine (fun _ => True) fun _ =>
      AsksFairly machine := by
  cases instruction with
  | call kind =>
      apply Leads.bind
      rw [call_eq]
      apply (inPlace_of_yields (yields_reserve kind)).onward (refl_of InPlace machine)
      intro reservation _ reached
      exact asksFairly_requestChild reached kind reservation
  | create kind =>
      exact Leads.bind ((requests_create schedule kind machine).mono
        fun _ _ => asksFairly_of_creation)
  | _ => exact asks.elim

end Action

/-! ## Steps -/

namespace Machine

variable {schedule : GasSchedule} {context : Context} {machine after : Machine}

theorem keepsForeign_step (stepped : machine.step schedule context = .ok after) :
    machine.KeepsForeign after :=
  (acts_step stepped).lift Act.keepsForeign

theorem asksFairly_step (stepped : machine.step schedule context = .ok after) :
    Action.AsksFairly machine after := by
  rcases turns_step stepped with
    ⟨halted, reason, rfl, reversible⟩ | ⟨instruction, _, _, turns, count, moved, executed, rfl⟩
  · exact Action.asksFairly_of_unchanged reversible.frame.pendingChild
  · rcases turns.turn with ⟨_, same⟩ | ⟨_, same⟩ | ⟨_, same, _⟩ | ⟨_, _, _, _, _, answerable, _⟩
    · exact Action.asksFairly_of_unchanged same
    · exact Action.asksFairly_of_unchanged same
    · exact Action.asksFairly_of_unchanged same
    · have asks := Instruction.asksForChild_of_answerable answerable
      have fair := Action.asksFairly_execute schedule context asks machine
      unfold Action.Leads at fair
      rw [executed] at fair
      unfold Machine.advance
      split <;> exact fair

end Machine

end ExecutionLayer
