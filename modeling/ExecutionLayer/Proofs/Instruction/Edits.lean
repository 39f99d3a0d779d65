import ExecutionLayer.Proofs.Instruction.Acts
import ExecutionLayer.Proofs.World.Edits

/-!
# Edits by code

Whatever a step does to the world is a number of edits for the account that the frame runs for,
also where it halts, and nothing that was warm for the frame turns cold.
-/

set_option autoImplicit false

namespace ExecutionLayer

/-- The frame has its message and what was warm for it, and what was written are edits for
its account. -/
structure Machine.Edits (before after : Machine) : Prop where
  message : after.frame.message = before.frame.message
  warms : before.frame.Warms after.frame
  edits : Readings.Edits {before.frame.message.recipient} before.world.readings
    after.world.readings

instance : IsPreorder Machine Machine.Edits where
  refl _ := ⟨rfl, fun _ => id, .refl⟩
  trans _ _ _ first second := by
    refine ⟨second.message.trans first.message, first.warms.trans second.warms,
      first.edits.trans ?_⟩
    exact first.message ▸ second.edits

namespace Machine

theorem edits_onWorld {machine : Machine} {world : JournaledWorld}
    (edits : Readings.Edits ∅ machine.world.readings world.readings) :
    machine.Edits { machine with world } :=
  ⟨rfl, fun _ => id, edits.widen⟩

theorem Act.edits {before after : Machine} (act : before.Act after) : before.Edits after := by
  have message := act.message
  cases act with
  | looks observes => exact ⟨message, observes.frame.warms, .of_eq observes.readings⟩
  | moves pc => exact ⟨rfl, fun _ => id, .refl⟩
  | succeeds output => exact ⟨rfl, fun _ => id, .refl⟩
  | reverts output => exact ⟨rfl, fun _ => id, .refl⟩
  | halts reason => exact ⟨rfl, fun _ => id, .refl⟩
  | suspends child => exact ⟨rfl, fun _ => id, .refl⟩
  | refunds amount => exact ⟨message, before.frame.warms_addRefund amount, .refl⟩
  | logs log => exact ⟨message, before.frame.warms_addLog log, .refl⟩
  | destroys => exact ⟨message, before.frame.warms_addSelfDestruct _, .refl⟩
  | counts ran => exact edits_onWorld (Journaled.edits_modifyAccount ran)
  | debits address amount ran => exact edits_onWorld (Journaled.edits_modifyAccount ran)
  | credits address amount ran => exact edits_onWorld (Journaled.edits_modifyAccount ran)
  | stores slot value ran =>
      exact ⟨rfl, fun _ => id, Journaled.edits_setStorage (Set.mem_singleton _) ran⟩

theorem edits_step {schedule : GasSchedule} {context : Context} {machine after : Machine}
    (stepped : machine.step schedule context = .ok after) : machine.Edits after :=
  (acts_step stepped).lift Act.edits

end Machine

end ExecutionLayer
