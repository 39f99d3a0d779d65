import ExecutionLayer.Proofs.Execution.Gas

/-!
# Runs end

Every instruction that lets code go on or asks for a child takes gas from the frames of a
run. Every other transition takes none back and brings a frame nearer to its completion. So
no run goes on for ever, and the bound on its transitions is never reached.
-/

set_option autoImplicit false

namespace ExecutionLayer.Configuration

/-- How far a frame is from its return to its parent. -/
def rank : Frame.Status → Nat
  -- The child's frame takes five of these, and one more parent takes four.
  | .codeSuspended => 10
  | .notStarted => 5
  | .codeExecuting => 4
  | .codeSuccess => 3
  | .revert | .exceptionalHalt => 2
  | .completedSuccess | .completedFailed => 1

/-- How far all frames are from their returns. -/
def remaining (configuration : Configuration) : Nat :=
  4 * configuration.parents.length + rank configuration.current.status

/-- What every transition lowers. -/
def measure (configuration : Configuration) : Nat :=
  8 * configuration.totalGas + configuration.remaining

theorem rank_bounds (status : Frame.Status) : 1 ≤ rank status ∧ rank status ≤ 10 := by
  cases status <;> decide

theorem measure_lt_transitionBound (configuration : Configuration) :
    configuration.measure < configuration.transitionBound := by
  have bounds := rank_bounds configuration.current.status
  unfold measure remaining transitionBound
  omega

section

variable {schedule : GasSchedule} {context : Context} {before after : Configuration}

/-- The live frame ran an instruction that let its code go on or asked for a child. -/
def RunsOn (before after : Configuration) : Prop :=
  before.current.status = .codeExecuting ∧
    (after.current.status = .codeExecuting ∨ after.current.status = .codeSuspended)

/-- What a transition takes away: gas where the code runs on, and else part of what remains
of the lives of the frames. -/
structure Descends (before after : Configuration) : Prop where
  spends : RunsOn before after → after.totalGas < before.totalGas ∧
    after.remaining ≤ before.remaining + 6
  settles : ¬RunsOn before after → after.totalGas ≤ before.totalGas ∧
    after.remaining < before.remaining

theorem Descends.lex (descends : Descends before after) :
    Prod.Lex (· < ·) (· < ·) (after.totalGas, after.remaining)
      (before.totalGas, before.remaining) := by
  rw [Prod.lex_def]
  by_cases runsOn : RunsOn before after
  · exact .inl (descends.spends runsOn).1
  · obtain ⟨gas, nearer⟩ := descends.settles runsOn
    rcases Nat.lt_or_eq_of_le gas with less | same
    · exact .inl less
    · exact .inr ⟨same, nearer⟩

theorem Descends.measure_lt (descends : Descends before after) :
    after.measure < before.measure := by
  -- The unit of gas that was paid weighs eight, two more than the rest goes up.
  unfold measure
  by_cases runsOn : RunsOn before after
  · have spent := descends.spends runsOn
    omega
  · have settled := descends.settles runsOn
    omega

theorem Descends.of_lower (status : before.current.status ≠ .codeExecuting)
    (gas : after.totalGas ≤ before.totalGas) (nearer : after.remaining < before.remaining) :
    Descends before after :=
  ⟨fun runsOn => absurd runsOn.1 status, fun _ => ⟨gas, nearer⟩⟩

theorem remaining_lt (parents : after.parents = before.parents)
    (lower : rank after.current.status < rank before.current.status) :
    after.remaining < before.remaining := by
  unfold remaining
  rw [parents]
  omega

theorem descends_step (charges : schedule.Charges 1)
    (status : before.current.status = .codeExecuting)
    (ran : Machine.step schedule context ⟨before.current, before.world⟩ =
      .ok ⟨after.current, after.world⟩)
    (parents : after.parents = before.parents) : Descends before after := by
  have total := before.totalGas_eq
  have totalAfter := after.totalGas_eq
  rw [parents] at totalAfter
  rcases heldGas_step charges status ran with ⟨runsOn, paid⟩ | ⟨ended, gas⟩
  · refine ⟨fun _ => ⟨by omega, ?_⟩, fun ends => absurd ⟨status, runsOn⟩ ends⟩
    have bounds := rank_bounds after.current.status
    have rankBefore : rank before.current.status = 4 := by rw [status]; rfl
    unfold remaining
    rw [parents]
    omega
  · refine ⟨fun ⟨_, runsOn⟩ => ?_, fun _ => ⟨by omega, remaining_lt parents ?_⟩⟩
    · rcases ended with other | other | other <;> simp [other] at runsOn
    · rw [status]
      rcases ended with other | other | other <;> rw [other] <;> decide

theorem Transition.descends (transition : Transition schedule context before after)
    (charges : schedule.Charges 1) (handedOver : before.HandedOver)
    (waiting : ∀ parent ∈ before.parents, parent.AtRequest schedule) : Descends before after := by
  have gas := transition.totalGas_le handedOver
  cases transition with
  | starts status ran parents =>
      refine .of_lower (by simp [status]) gas (remaining_lt parents ?_)
      rw [status]
      rcases (Frame.start_ok ran).status with other | other | other <;> rw [other] <;> decide
  | steps status ran parents => exact descends_step charges status ran parents
  | enters child status _ current parents _ =>
      refine .of_lower (by simp [status]) gas ?_
      have entered : after.current.status = .notStarted := by rw [current]; rfl
      unfold remaining
      rw [parents, List.length_cons, status, entered]
      dsimp only [rank]
      omega
  | commits status ran parents =>
      refine .of_lower (by simp [status]) gas (remaining_lt parents ?_)
      rw [status]
      rcases (Frame.commit_ok ran).status with other | other <;> rw [other] <;> decide
  | rollsBack status ran parents =>
      have notExecuting : before.current.status ≠ .codeExecuting := by
        rcases status with other | other <;> simp [other]
      have rolled : after.current.status = .completedFailed := by rw [Frame.rollBack_ok ran]
      refine .of_lower notExecuting gas (remaining_lt parents ?_)
      rw [rolled]
      rcases status with other | other <;> rw [other] <;> decide
  | leaves parent status parents current _ =>
      have notExecuting : before.current.status ≠ .codeExecuting := by
        intro executing
        rw [executing] at status
        cases status
      refine .of_lower notExecuting gas ?_
      have bounds := rank_bounds before.current.status
      have resumed : rank after.current.status ≤ 4 := by
        have atRequest := waiting parent (by simp [parents])
        rw [current]
        rcases (Frame.resume_resumed before.current atRequest).status with other | other <;>
          rw [other] <;> decide
      unfold remaining
      rw [parents, List.length_cons]
      omega

/-- What a run that ends at a configuration comes to. -/
inductive Concludes (schedule : GasSchedule) (context : Context) (last : Configuration) :
    Except StateError (Frame × JournaledWorld) → Prop where
  | finishes {root : Frame} {world : JournaledWorld}
      (advanced : last.advance schedule context = .ok (.finished root world))
      (completed : root.status.isCompleted = true) :
      Concludes schedule context last (.ok (root, world))
  | fails {error : StateError} (advanced : last.advance schedule context = .error error) :
      Concludes schedule context last (.error error)

/-- Enough fuel is more than the measure. -/
theorem run_concludes {first : Configuration} {fuel : Nat}
    (descends : ∀ before after, Reaches schedule context 0 first before →
      before.advance schedule context = .ok (.running after) → Descends before after)
    (enough : first.measure < fuel) :
    ∃ result last, first.run schedule context fuel = some result ∧
      Reaches schedule context 0 first last ∧ Concludes schedule context last result := by
  induction fuel generalizing first with
  | zero => exact absurd enough (Nat.not_lt_zero _)
  | succ fuel ih =>
      unfold run
      cases advanced : first.advance schedule context with
      | error error => exact ⟨_, first, rfl, .start, .fails advanced⟩
      | ok progress =>
          cases progress with
          | finished root world =>
              obtain ⟨_, _, _, completed⟩ := finished_of_advance advanced
              exact ⟨_, first, rfl, .start, .finishes advanced completed⟩
          | running next =>
              have entered : Reaches schedule context 0 first next :=
                Reaches.start.advance advanced (Nat.zero_le _)
              have lower := (descends first next .start advanced).measure_lt
              obtain ⟨result, last, ran, reached, concludes⟩ := ih
                (fun before after reached => descends before after (entered.trans reached))
                (by omega)
              exact ⟨result, last, ran, entered.trans reached, concludes⟩

theorem descends_of_reaches (charges : schedule.Charges 1) {root : Frame} {world : JournaledWorld}
    (status : root.status = .notStarted)
    (reached : Reaches schedule context 0 ⟨root, [], world⟩ before)
    (advanced : before.advance schedule context = .ok (.running after)) :
    Descends before after := by
  have orderly := reached.orderly (orderly_of_notStarted status world)
  exact (transition_of_advance advanced).descends charges
    (reached.handedOver (handedOver_of_root root world))
    fun parent member => (orderly.parents parent member).atRequest

end

/-- What a root frame is processed to is what its run comes to: the bound on the transitions
is never reached. -/
theorem process_concludes (fork : Fork) (context : Context) {root : Frame}
    (world : JournaledWorld) (status : root.status = .notStarted) :
    ∃ last, Reaches (.ofFork fork) context 0 ⟨root, [], world⟩ last ∧
      Concludes (.ofFork fork) context last (process (.ofFork fork) context root world) := by
  let first : Configuration := ⟨root, [], world⟩
  have descends (before after : Configuration)
      (reached : Reaches (.ofFork fork) context 0 first before)
      (advanced : before.advance (.ofFork fork) context = .ok (.running after)) :
      Descends before after :=
    descends_of_reaches (GasSchedule.charges_ofFork fork) status reached advanced
  obtain ⟨result, last, ran, reached, concludes⟩ :=
    run_concludes descends first.measure_lt_transitionBound
  have processed : process (.ofFork fork) context root world = result := by
    change (first.run (.ofFork fork) context first.transitionBound).getD _ = result
    rw [ran]
    rfl
  exact ⟨last, reached, processed ▸ concludes⟩

/-- Under the rules of every milestone, no matter what a root frame runs and in which world,
its run goes down with every transition and comes to an end, and what the root is processed
to is what the run comes to: a completed frame, or a fault of the world. -/
theorem process_terminates (fork : Fork) (context : Context) {root : Frame}
    (world : JournaledWorld) (status : root.status = .notStarted) :
    (∀ before after, Reaches (.ofFork fork) context 0 ⟨root, [], world⟩ before →
        before.advance (.ofFork fork) context = .ok (.running after) → Descends before after) ∧
      WellFounded (fun later earlier : Configuration =>
        Reaches (.ofFork fork) context 0 ⟨root, [], world⟩ earlier ∧
          earlier.advance (.ofFork fork) context = .ok (.running later)) ∧
      ∃ last, Reaches (.ofFork fork) context 0 ⟨root, [], world⟩ last ∧
        Concludes (.ofFork fork) context last (process (.ofFork fork) context root world) := by
  have descends (before after : Configuration)
      (reached : Reaches (.ofFork fork) context 0 ⟨root, [], world⟩ before)
      (advanced : before.advance (.ofFork fork) context = .ok (.running after)) :
      Descends before after :=
    descends_of_reaches (GasSchedule.charges_ofFork fork) status reached advanced
  refine ⟨descends, ?_, process_concludes fork context world status⟩
  refine Subrelation.wf (fun ⟨reached, advanced⟩ => (descends _ _ reached advanced).lex) ?_
  exact InvImage.wf (fun configuration : Configuration =>
    (configuration.totalGas, configuration.remaining)) (Prod.lex _ _).wf

namespace Endless

/-- Jumps back to its start, for ever. -/
def code : Code :=
  .ofBytes [0x5B, 0x60, 0, 0x56]

def root : Frame :=
  .ofMessage { code, gas := 100 } ∅ ∅

def view : WorldView where
  account _ := .ok none
  storage _ _ := .ok 0

def context : Context :=
  ⟨{}, {}, fun _ => none⟩

end Endless

open Endless in
/-- Code that never ends by itself uses up its gas and fails. -/
theorem endless_terminates :
    ∃ last finished after, Reaches (.ofFork .berlin) context 0 ⟨root, [], { base := view }⟩ last ∧
      last.advance (.ofFork .berlin) context = .ok (.finished finished after) ∧
      process (.ofFork .berlin) context root { base := view } = .ok (finished, after) ∧
      finished.status = .completedFailed ∧ finished.gas = 0 := by
  have evaluated : (process (.ofFork .berlin) context root { base := view }).toOption.any
      (fun result => result.1.status == .completedFailed && result.1.gas == 0) = true := by
    decide +kernel
  obtain ⟨_, _, last, reached, concludes⟩  :=
    @process_terminates .berlin context root { base := view } rfl
  cases ran : process (.ofFork .berlin) context root { base := view } with
  | error error =>
      rw [ran] at evaluated
      cases evaluated
  | ok result =>
      rw [ran] at evaluated concludes
      simp only [Except.toOption, Option.any_some, Bool.and_eq_true, beq_iff_eq] at evaluated
      cases concludes with
      | finishes advanced => exact ⟨last, _, _, reached, advanced, rfl, evaluated⟩

end ExecutionLayer.Configuration
