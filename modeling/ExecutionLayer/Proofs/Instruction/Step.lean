import ExecutionLayer.Proofs.Instruction.Calls

/-!
# What a step does

A step of a running frame takes one of the courses of the instruction at the program
counter, or halts the frame. Over a view without faults it fails only where a balance
overflows.
-/

set_option autoImplicit false

namespace ExecutionLayer

/-- Every instruction that goes on pays at least an amount, of at most one unit. -/
structure GasSchedule.Charges (schedule : GasSchedule) (least : Nat) : Prop where
  atMost : least ≤ 1
  creation : ∀ kind : CreateKind, ∀ length ≤ MemoryRange.limit,
    least ≤ (kind.cost schedule length).toNat

/-- Under any prices, even where the price of init code wraps around to nothing. -/
theorem GasSchedule.charges_zero (schedule : GasSchedule) : schedule.Charges 0 :=
  ⟨Nat.zero_le _, fun _ _ _ => Nat.zero_le _⟩

theorem GasSchedule.charges_ofFork (fork : Fork) : (GasSchedule.ofFork fork).Charges 1 :=
  ⟨Nat.le_refl _, fun kind _ le => Action.createCost_pos fork kind le⟩

namespace Action

theorem yields_execute {schedule : GasSchedule} {least : Nat} (charges : schedule.Charges least)
    (context : Context) (instruction : Instruction) {machine : Machine}
    (executing : machine.frame.status = .codeExecuting) :
    Yields (instruction.execute schedule context) machine
      fun _ after => Machine.Moves least instruction machine after := by
  have pays {action : Action Nat} (yields : Yields action machine
      fun _ after => Machine.Moves 1 instruction machine after) :
      Yields action machine fun _ after => Machine.Moves least instruction machine after :=
    yields.mono fun _ _ moves => moves.mono charges.atMost
  have ordinary {action : Action Unit} (charges : Charges 1 Any action) :
      Yields (do action; return instruction.size) machine
        fun _ after => Machine.Moves least instruction machine after :=
    pays (.map (charges.moves instruction executing))
  cases instruction with
  | jump => exact pays (yields_jump executing)
  | jumpIf => exact pays (yields_jumpIf executing)
  | stop => exact pays (.map (yields_stop machine))
  | unary op => exact ordinary (charges_unary op)
  | binary op => exact ordinary (charges_binary op)
  | ternary op => exact ordinary (charges_ternary op)
  | exp => exact ordinary charges_exp
  | keccak => exact ordinary charges_keccak
  | query what => exact ordinary (charges_query context what)
  | accountQuery what => exact ordinary (charges_accountQuery what)
  | callDataLoad => exact ordinary charges_callDataLoad
  | copy source => exact ordinary (charges_copy source)
  | extCodeCopy => exact ordinary charges_extCodeCopy
  | blockHash => exact ordinary (charges_blockHash context)
  | pop => exact ordinary charges_discardTop
  | mload => exact ordinary charges_mload
  | mstore => exact ordinary charges_mstore
  | mstore8 => exact ordinary charges_mstore8
  | sload => exact ordinary charges_sload
  | sstore => exact ordinary (charges_sstore _)
  | jumpDest => exact ordinary (charges_useGas (by decide))
  | push size => exact ordinary (charges_pushImmediate size)
  | dup depth => exact ordinary (charges_dup depth)
  | swap depth => exact ordinary (charges_swap depth)
  | log topics => exact ordinary (charges_log topics)
  | create kind => exact .map (yields_create (charges.creation kind) executing)
  | call kind => exact pays (.map (yields_call kind executing))
  | «return» => exact pays (.map (yields_returnOutput machine))
  | revert => exact pays (.map (yields_revertOutput machine))
  | invalid => exact .halt
  | selfDestruct => exact pays (.map (yields_selfDestruct machine))

end Action

namespace Machine

theorem Moves.advance {least : Nat} {instruction : Instruction} {before after : Machine}
    (moves : Moves least instruction before after) (count : Nat) :
    Moves least instruction before (after.advance count) := by
  unfold Machine.advance
  split
  · refine ⟨moves.message, moves.checkpoint, moves.world, ?_⟩
    rename_i executing
    rcases moves.course with
      ⟨status, pendingChild, paid⟩ | ⟨status, pendingChild, paid⟩ | ⟨child, asks, status, _⟩
    · exact .goesOn status pendingChild paid
    · exact .ends status pendingChild paid
    · rw [status] at executing
      cases executing
  · exact moves

/-- A step takes a course of the instruction at the program counter, halts the frame, or
fails. -/
theorem step_cases {schedule : GasSchedule} {least : Nat} (charges : schedule.Charges least)
    (context : Context) {machine : Machine}
    (executing : machine.frame.status = .codeExecuting) :
    (∃ instruction after, Instruction.ofOpcode? schedule machine.frame.currentOpcode =
        some instruction ∧ machine.step schedule context = .ok after ∧
          Moves least instruction machine after) ∨
      (∃ halted reason, machine.step schedule context = .ok (halted.halt reason) ∧
        machine.Keeps halted) ∨
      ∃ error, machine.step schedule context = .error error ∧
        (machine.world.readings.Lawful → Overflows machine.world.readings.supply error) := by
  cases decoded : Instruction.ofOpcode? schedule machine.frame.currentOpcode with
  | none =>
      have stepped : machine.step schedule context =
          .ok (machine.halt (.invalidOperation machine.frame.currentOpcode)) := by
        simp only [step, decoded]
      exact .inr (.inl ⟨machine, _, stepped, .refl machine⟩)
  | some instruction =>
      cases fault : instruction.stackFault? machine.frame.stack.height with
      | some reason =>
          have stepped : machine.step schedule context = .ok (machine.halt reason) := by
            simp only [step, decoded, fault]
          exact .inr (.inl ⟨machine, reason, stepped, .refl machine⟩)
      | none =>
          have yields := Action.yields_execute charges context instruction executing
          cases ran : instruction.execute schedule context machine with
          | ok count moved =>
              have stepped : machine.step schedule context = .ok (moved.advance count) := by
                simp only [step, decoded, fault, ran]
              have moves := (Action.Yields.of_ok ran).mp yields
              exact .inl ⟨instruction, _, rfl, stepped, moves.advance count⟩
          | error stop halted =>
              cases stop with
              | halt reason =>
                  have stepped : machine.step schedule context =
                      .ok (halted.halt reason) := by
                    simp only [step, decoded, fault, ran]
                  exact .inr (.inl ⟨halted, reason, stepped, (Action.Yields.of_halt ran).mp yields⟩)
              | state error =>
                  have failed : machine.step schedule context = .error error := by
                    simp only [step, decoded, fault, ran]
                  exact .inr (.inr ⟨error, failed, (Action.Yields.of_state ran).mp yields⟩)

end Machine

end ExecutionLayer
