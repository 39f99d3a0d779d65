import ExecutionLayer.Proofs.Instruction.Turns

/-!
# Stores

What a store reads, writes, pays and refunds. The refund for an emptied slot is taken back
when the slot is filled again, and no store moves the refund counter by much more than it
pays.
-/

set_option autoImplicit false

namespace ExecutionLayer

namespace StoreCharge

/-- The greatest refund for a unit of gas, where a slot that was empty before the
transaction is emptied again. -/
def swing : Nat := 199

/-- Apart from what emptied slots count for, nothing is taken back. -/
theorem refund_eq (original current value : Word) (clearRefund : Int) :
    ∃ restored : Nat,
      (of original current value clearRefund).refund =
        (if original ≠ 0 ∧ value = 0 then clearRefund else 0) -
          (if original ≠ 0 ∧ current = 0 then clearRefund else 0) + restored ∧
      restored ≤ swing * (of original current value clearRefund).cost.toNat ∧
      (original ≠ 0 ∧ value = 0 → restored = 0) := by
  unfold of
  by_cases same : value = current
  · rw [if_pos same, same]
    exact ⟨0, by simp, Nat.zero_le _, fun _ => rfl⟩
  rw [if_neg same]
  by_cases unchanged : original = current
  · rw [if_pos unchanged, ← unchanged]
    refine ⟨0, ?_, Nat.zero_le _, fun _ => rfl⟩
    by_cases empty : original = 0 <;> simp_all
  rw [if_neg unchanged]
  have warm : 19900 ≤ swing * Gas.warmSlot.toNat := by decide
  by_cases back : original = value
  · subst back
    by_cases empty : original = 0
    · exact ⟨19900, by simp_all; rfl, warm, fun held => absurd empty held.1⟩
    · refine ⟨2800, ?_, Nat.le_trans (by decide) warm, fun held => absurd held.2 empty⟩
      by_cases filled : current = 0 <;> simp_all <;> rfl
  · refine ⟨0, ?_, Nat.zero_le _, fun _ => rfl⟩
    by_cases empty : original = 0
    · simp_all
    · by_cases filled : current = 0 <;> by_cases cleared : value = 0 <;> simp_all

theorem natAbs_refund_le {clearRefund : Int} (nonneg : 0 ≤ clearRefund)
    (small : clearRefund ≤ 19900) (original current value : Word) :
    (of original current value clearRefund).refund.natAbs ≤
      swing * (of original current value clearRefund).cost.toNat := by
  obtain ⟨restored, refund, bounded, cleared⟩ := refund_eq original current value clearRefund
  have paid := (Action.storeCharge_bounds original current value clearRefund).1
  unfold swing at *
  by_cases empties : original ≠ 0 ∧ value = 0
  · have nothing := cleared empties
    rw [if_pos empties] at refund
    split at refund <;> omega
  · rw [if_neg empties] at refund
    split at refund <;> omega

/-- What a milestone refunds for an emptied slot, and so each part of a refund and their sum, is a
number of signed 64 bits. -/
theorem natAbs_refund_lt (fork : Fork) (original current value : Word) :
    let clearRefund := (GasSchedule.ofFork fork).storeClearRefund
    clearRefund.natAbs < 2 ^ 63 ∧ (of original current value clearRefund).refund.natAbs < 2 ^ 63 := by
  intro clearRefund
  have range : 0 ≤ clearRefund ∧ clearRefund ≤ 19900 := by cases fork <;> decide
  have paid := (Action.storeCharge_bounds original current value clearRefund).2
  have moved := natAbs_refund_le range.1 range.2 original current value
  unfold swing at moved
  omega

end StoreCharge

namespace Machine

/-- What a store that does not halt makes of a machine. -/
inductive Stores (clearRefund : Int) (before after : Machine) : Prop where
  | writes (slot current original value : Word)
      (now : before.world.readings.slot before.frame.message.recipient slot = .ok current)
      (earlier : before.world.readings.original before.frame.message.recipient slot =
        .ok original)
      (readings : after.world.readings =
        before.world.readings.setStorage before.frame.message.recipient slot value)
      (refund : after.frame.refund = (before.frame.addRefund
        (StoreCharge.of original current value clearRefund).refund).refund)
      (status : after.frame.status = before.frame.status)
      (pendingChild : after.frame.pendingChild = before.frame.pendingChild)
      (paid : after.frame.gas.toNat +
          (StoreCharge.of original current value clearRefund).cost.toNat ≤
        before.frame.gas.toNat)

/-- As `Observes`, without gas that comes back. -/
structure Reads (before after : Machine) : Prop extends before.Observes after where
  gas : after.frame.gas.toNat ≤ before.frame.gas.toNat

end Machine

namespace Action

open Machine

variable {Value Result : Type} {start machine : Machine} {ended : Result → Machine → Prop}

/-- Goes on after an action that pays and only asks the world. -/
theorem reach_observes {cost : Nat} {action : Action Value} {next : Value → Action Result}
    (observes : Maintains Observes action) (charges : Charges cost Any action)
    (later : ∀ value after, machine.Observes after →
      after.frame.gas.toNat + cost ≤ machine.frame.gas.toNat →
      Leads (next value) after (fun _ => True) ended) :
    Leads (action >>= next) machine (fun _ => True) ended := by
  apply Leads.bind
  have leads := observes machine
  have yields := charges machine
  unfold Leads at leads ⊢
  cases ran : action machine with
  | ok value after =>
      rw [ran] at leads
      obtain ⟨_, paid, _⟩ := (Yields.of_ok ran).mp yields
      exact later value after leads paid
  | error fault after => cases fault <;> trivial

theorem reach_reads {action : Action Value} {next : Value → Action Result}
    (observes : Maintains Observes action) (charges : Charges 0 Any action)
    (reached : start.Reads machine)
    (later : ∀ value after, start.Reads after →
      Leads (next value) after (fun _ => True) ended) :
    Leads (action >>= next) machine (fun _ => True) ended :=
  reach_observes observes charges fun value after observed gas =>
    later value after ⟨trans_of Observes reached.toObserves observed, gas.trans reached.gas⟩

theorem reach_ask {operation : Journaled Value} {question : Readings → Except StateError Value}
    {next : Value → Action Result} (follows : Journaled.Follows operation (.ask question))
    (reached : start.Reads machine)
    (later : ∀ value after, question start.world.readings = .ok value → start.Reads after →
      Leads (next value) after (fun _ => True) ended) :
    Leads (onWorld operation >>= next) machine (fun _ => True) ended := by
  apply Leads.bind
  apply Leads.onWorld
  intro value world ran
  obtain ⟨answer, same, continues⟩ := follows.ask_eq_ok ran
  have reads : start.Reads { machine with world } :=
    ⟨⟨reached.frame, same.trans reached.readings, reached.continues.trans continues⟩,
      reached.gas⟩
  rw [reached.readings] at answer
  exact later value _ answer reads

theorem Leads.modifyFrame {change : Frame → Frame} {next : Unit → Action Result}
    {halted : Machine → Prop}
    (later : Leads (next ()) { machine with frame := change machine.frame } halted ended) :
    Leads (modifyFrame change >>= next) machine halted ended :=
  later

theorem leads_sstore (clearRefund : Int) (machine : Machine) :
    Leads (sstore clearRefund) machine (fun _ => True)
      fun _ after => machine.Stores clearRefund after := by
  apply leads_requireWritable trivial
  intro _
  apply Leads.frame
  apply Leads.ite fun _ => Leads.halt trivial
  intro _
  have start : machine.Reads machine := ⟨refl_of Observes machine, Nat.le_refl _⟩
  apply reach_reads observes_pop charges_pop start
  intro slot _ reached
  apply reach_reads observes_pop charges_pop reached
  intro value _ reached
  apply Leads.frame
  rw [reached.frame.message]
  apply reach_reads (peeks_warmSlot _ _).observes (charges_warmSlot _ _) reached
  intro isCold _ reached
  apply reach_ask (Journaled.follows_storage _ _) reached
  intro current _ now reached
  apply reach_ask (Journaled.follows_originalStorage _ _) reached
  intro original reader earlier reached
  apply Leads.bind
  apply Leads.tryFrame trivial
  intro payer paid
  obtain ⟨_, exactly⟩ := Frame.useGas_eq_ok paid
  have works := reached.frame.trans (Frame.works_useGas paid).1
  apply Leads.modifyFrame
  apply Leads.onWorld
  intro _ world written
  obtain ⟨_, succeeded, readings, _⟩ :=
    Journaled.follows_setStorage machine.frame.message.recipient slot value reader.world
  rw [written] at succeeded
  cases succeeded
  refine .writes slot current original value now earlier ?_ ?_ ?_ ?_ ?_
  · rw [readings, reached.readings]
  · exact Frame.refund_addRefund_congr works.status works.refund _
  · exact (keeps_addRefund payer _).status.trans works.status
  · exact (keeps_addRefund payer _).pendingChild.trans works.pendingChild
  · have whole := storeCost_eq original current value clearRefund isCold
    have gas := reached.gas
    rw [gas_addRefund]
    dsimp only
    omega

end Action

namespace Machine

variable {clearRefund : Int} {before after : Machine}

theorem Stores.advance (stores : before.Stores clearRefund after) (count : Nat) :
    before.Stores clearRefund (after.advance count) := by
  unfold Machine.advance
  split
  · obtain ⟨slot, current, original, value, now, earlier, readings, refund, status, pendingChild,
      paid⟩ := stores
    exact .writes slot current original value now earlier readings refund status pendingChild paid
  · exact stores

theorem stores_execute {schedule : GasSchedule} {context : Context} {count : Nat}
    (ran : Instruction.sstore.execute schedule context before = .ok count after) :
    before.Stores schedule.storeClearRefund after := by
  have leads : Action.Leads (Instruction.sstore.execute schedule context) before (fun _ => True)
      fun _ after => before.Stores schedule.storeClearRefund after :=
    Action.Leads.bind (Action.leads_sstore schedule.storeClearRefund before)
  simpa only [Action.Leads, ran] using leads

/-- The counter moves by an amount that was paid for. It goes up by at least what the emptied
slots count for, and down by no more than that. -/
theorem Stores.moves (stores : before.Stores clearRefund after) (nonneg : 0 ≤ clearRefund)
    (small : clearRefund ≤ 19900) (recording : before.frame.status.isRecording = true) :
    ∃ (amount : Int) (cost : Nat),
      after.frame.refund = Gas.saturateRefund (before.frame.refund + amount) ∧
      clearRefund * after.world.readings.emptied.ncard ≤
        clearRefund * before.world.readings.emptied.ncard + amount ∧
      amount.natAbs ≤ StoreCharge.swing * cost ∧
      after.frame.gas.toNat + cost ≤ before.frame.gas.toNat := by
  obtain ⟨slot, current, original, value, now, earlier, readings, refund, _, _, paid⟩ := stores
  refine ⟨_, _, ?_, ?_, StoreCharge.natAbs_refund_le nonneg small original current value, paid⟩
  · rw [refund, Frame.addRefund, if_pos recording]
  · obtain ⟨restored, exactly, _⟩ := StoreCharge.refund_eq original current value clearRefund
    have counted := congrArg (fun count : Nat => clearRefund * (count : Int))
      (Readings.ncard_emptied_setStorage now earlier value)
    simp only [Nat.cast_add, Nat.cast_ite, Nat.cast_one, Nat.cast_zero, mul_add, mul_ite, mul_one,
      mul_zero] at counted
    rw [readings, exactly]
    omega

end Machine

end ExecutionLayer
