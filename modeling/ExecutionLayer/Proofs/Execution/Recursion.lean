import ExecutionLayer.Proofs.Execution.Nesting

/-!
# Recursive evaluation

A frame can be brought to its completion by recursion as well: its code runs until it halts or
asks for a child, which is evaluated on the spot and handed back. Frames that wait on an
explicit stack come to the same.
-/

set_option autoImplicit false

namespace ExecutionLayer

def Journaled.outcome (operation : Journaled Frame) (world : JournaledWorld) :
    Except StateError (Frame × JournaledWorld) :=
  match operation world with
  | .ok frame world => .ok (frame, world)
  | .error error _ => .error error

theorem Journaled.outcome_ok {operation : Journaled Frame} {frame : Frame}
    {world after : JournaledWorld} (came : operation.outcome world = .ok (frame, after)) :
    operation world = .ok frame after := by
  unfold outcome at came
  cases ran : operation world with
  | ok frame world =>
      rw [ran] at came
      cases came
      rfl
  | error error world =>
      rw [ran] at came
      cases came

theorem Journaled.outcome_error {operation : Journaled Frame} {error : StateError}
    {world : JournaledWorld} (failed : operation.outcome world = .error error) :
    ∃ after, operation world = .error error after := by
  unfold outcome at failed
  cases ran : operation world with
  | ok frame world =>
      rw [ran] at failed
      cases failed
  | error raised world =>
      rw [ran] at failed
      cases failed
      exact ⟨world, rfl⟩

/-- A machine runs for as long as its code goes on. -/
inductive Machine.RunsTo (schedule : GasSchedule) (context : Context) :
    Machine → Except StateError Machine → Prop where
  | leaves {machine : Machine} (left : machine.frame.status ≠ .codeExecuting) :
      RunsTo schedule context machine (.ok machine)
  | fails {machine : Machine} {error : StateError}
      (executing : machine.frame.status = .codeExecuting)
      (raised : machine.step schedule context = .error error) :
      RunsTo schedule context machine (.error error)
  | steps {machine stepped : Machine} {result : Except StateError Machine}
      (executing : machine.frame.status = .codeExecuting)
      (ran : machine.step schedule context = .ok stepped)
      (rest : RunsTo schedule context stepped result) : RunsTo schedule context machine result

namespace Frame

/-- Settles a frame whose code ended: what cannot be committed is rolled back. -/
def settle (schedule : GasSchedule) (frame : Frame) (world : JournaledWorld) :
    Except StateError (Frame × JournaledWorld) := do
  if frame.status = .codeSuccess then
    let (settled, world) ← (frame.commit schedule).outcome world
    if settled.status = .exceptionalHalt then settled.rollBack.outcome world
    else return (settled, world)
  else frame.rollBack.outcome world

/-- The frame of the child that a suspended frame asks for. -/
def child (frame : Frame) (message : Message) : Frame :=
  .ofMessage message frame.warmAddresses frame.warmSlots

/-- The suspended frame goes on with what its child came to. -/
def takeIn (schedule : GasSchedule) (frame completed : Frame) : Frame :=
  { frame with pendingChild := none }.resume schedule completed

mutual

/-- A frame is started and brought to its completion, with all the frames below it. -/
inductive Evaluates (schedule : GasSchedule) (context : Context) :
    Frame → JournaledWorld → Except StateError (Frame × JournaledWorld) → Prop where
  | fails {frame : Frame} {world : JournaledWorld} {error : StateError}
      (raised : frame.start.outcome world = .error error) :
      Evaluates schedule context frame world (.error error)
  | starts {frame begun : Frame} {world after : JournaledWorld}
      {result : Except StateError (Frame × JournaledWorld)}
      (started : frame.start.outcome world = .ok (begun, after))
      (proceeds : Proceeds schedule context begun after result) :
      Evaluates schedule context frame world result

/-- A frame that began is brought to its completion. Where its code asks for a child, the child
is evaluated, and the code goes on with what it came to. -/
inductive Proceeds (schedule : GasSchedule) (context : Context) :
    Frame → JournaledWorld → Except StateError (Frame × JournaledWorld) → Prop where
  | fails {frame : Frame} {world : JournaledWorld} {error : StateError}
      (ran : Machine.RunsTo schedule context ⟨frame, world⟩ (.error error)) :
      Proceeds schedule context frame world (.error error)
  | settles {frame left : Frame} {world after : JournaledWorld}
      (ran : Machine.RunsTo schedule context ⟨frame, world⟩ (.ok ⟨left, after⟩))
      (awake : left.status ≠ .codeSuspended) :
      Proceeds schedule context frame world (left.settle schedule after)
  | asksNothing {frame left : Frame} {world after : JournaledWorld}
      (ran : Machine.RunsTo schedule context ⟨frame, world⟩ (.ok ⟨left, after⟩))
      (suspended : left.status = .codeSuspended) (asks : left.pendingChild = none) :
      Proceeds schedule context frame world
        (.error (.inconsistent left.message.recipient "suspended frame without child request"))
  | childFails {frame left : Frame} {world after : JournaledWorld} {message : Message}
      {error : StateError}
      (ran : Machine.RunsTo schedule context ⟨frame, world⟩ (.ok ⟨left, after⟩))
      (suspended : left.status = .codeSuspended) (asks : left.pendingChild = some message)
      (evaluated : Evaluates schedule context (left.child message) after (.error error)) :
      Proceeds schedule context frame world (.error error)
  | resumes {frame left completed : Frame} {world after afterChild : JournaledWorld}
      {message : Message} {result : Except StateError (Frame × JournaledWorld)}
      (ran : Machine.RunsTo schedule context ⟨frame, world⟩ (.ok ⟨left, after⟩))
      (suspended : left.status = .codeSuspended) (asks : left.pendingChild = some message)
      (evaluated : Evaluates schedule context (left.child message) after
        (.ok (completed, afterChild)))
      (proceeds : Proceeds schedule context (left.takeIn schedule completed) afterChild result) :
      Proceeds schedule context frame world result

end

variable {schedule : GasSchedule} {context : Context}

theorem underWay_start {frame begun : Frame} {world after : JournaledWorld}
    (started : frame.start.outcome world = .ok (begun, after)) :
    begun.status.isUnderWay = true := by
  rcases (Frame.start_ok (Journaled.outcome_ok started)).status with status | status | status <;>
    rw [status] <;> rfl

theorem underWay_takeIn {frame : Frame} (suspended : frame.status = .codeSuspended)
    (completed : Frame) : (frame.takeIn schedule completed).status.isUnderWay = true := by
  unfold takeIn
  rcases resume_cases schedule { frame with pendingChild := none } completed with
    resumed | ⟨_, unchanged⟩
  · rcases resumed.status with status | status <;> rw [status] <;> rfl
  · rw [unchanged]
    exact congrArg Status.isUnderWay suspended

end Frame

theorem Machine.underWay_step {schedule : GasSchedule} {context : Context}
    {machine after : Machine} (executing : machine.frame.status = .codeExecuting)
    (ran : machine.step schedule context = .ok after) : after.frame.status.isUnderWay = true := by
  obtain ⟨_, halted | ⟨_, _, heads⟩⟩ := Machine.heads_step executing ran
  · rw [halted]
    rfl
  · cases heads with
    | falls executing _ => exact congrArg Frame.Status.isUnderWay executing
    | jumps executing _ => exact congrArg Frame.Status.isUnderWay executing
    | waits _ suspended _ _ _ _ => exact congrArg Frame.Status.isUnderWay suspended
    | ends ended =>
        rcases ended with status | status <;> exact congrArg Frame.Status.isUnderWay status

namespace Configuration

section

variable {schedule : GasSchedule} {context : Context}

/-! ## Fuel along a run -/

theorem run_of_advance {fuel : Nat} {before after : Configuration}
    {result : Except StateError (Frame × JournaledWorld)}
    (advanced : before.advance schedule context = .ok (.running after))
    (ran : before.run schedule context fuel = some result) :
    ∃ less, less < fuel ∧ after.run schedule context less = some result := by
  cases fuel with
  | zero => cases ran
  | succ fuel =>
      unfold run at ran
      rw [advanced] at ran
      exact ⟨fuel, Nat.lt_succ_self fuel, ran⟩

theorem Reaches.run_last {depth fuel : Nat} {first last : Configuration}
    {result : Except StateError (Frame × JournaledWorld)}
    (reached : Reaches schedule context depth first last)
    (ran : first.run schedule context fuel = some result) :
    ∃ less, less ≤ fuel ∧ last.run schedule context less = some result := by
  induction reached with
  | start => exact ⟨fuel, Nat.le_refl fuel, ran⟩
  | advance _ advanced _ ih =>
      obtain ⟨middle, fewer, ranMiddle⟩ := ih
      obtain ⟨less, fewest, ranLast⟩ := run_of_advance advanced ranMiddle
      exact ⟨less, by omega, ranLast⟩

theorem Reaches.run_first {depth fuel : Nat} {first last : Configuration}
    {result : Except StateError (Frame × JournaledWorld)}
    (reached : Reaches schedule context depth first last)
    (ran : last.run schedule context fuel = some result) :
    ∃ more, first.run schedule context more = some result := by
  induction reached generalizing fuel with
  | start => exact ⟨fuel, ran⟩
  | advance _ advanced _ ih =>
      apply @ih (fuel + 1)
      unfold run
      rw [advanced]
      exact ran

/-! ## Completions -/

/-- The run brings the live frame to its completion, with the same frames waiting, or a fault
ends it on the way. -/
inductive Completes (schedule : GasSchedule) (context : Context) (first : Configuration) :
    Except StateError (Frame × JournaledWorld) → Prop where
  | settles {frame : Frame} {world : JournaledWorld}
      (reached : Reaches schedule context 0 first ⟨frame, first.parents, world⟩)
      (completed : frame.status.isCompleted = true) :
      Completes schedule context first (.ok (frame, world))
  | fails {failing : Configuration} {error : StateError}
      (reached : Reaches schedule context 0 first failing)
      (raised : failing.advance schedule context = .error error) :
      Completes schedule context first (.error error)

theorem Completes.after {first middle : Configuration}
    {result : Except StateError (Frame × JournaledWorld)}
    (reached : Reaches schedule context 0 first middle) (parents : middle.parents = first.parents)
    (completes : Completes schedule context middle result) :
    Completes schedule context first result := by
  cases completes with
  | settles later completed => exact .settles (reached.trans (parents ▸ later)) completed
  | fails later raised => exact .fails (reached.trans later) raised

theorem withWorld_ok {first : Configuration} {operation : Journaled Frame} {frame : Frame}
    {world : JournaledWorld} (ran : operation.outcome first.world = .ok (frame, world)) :
    first.withWorld operation = .ok (.running ⟨frame, first.parents, world⟩) := by
  rw [withWorld, Journaled.outcome_ok ran]

theorem withWorld_error {first : Configuration} {operation : Journaled Frame} {error : StateError}
    (failed : operation.outcome first.world = .error error) :
    first.withWorld operation = .error error := by
  obtain ⟨_, raised⟩ := Journaled.outcome_error failed
  rw [withWorld, raised]

theorem reaches_next {first next : Configuration}
    (advanced : first.advance schedule context = .ok (.running next)) :
    Reaches schedule context 0 first next :=
  Reaches.start.advance advanced (Nat.zero_le _)

/-! ## Evaluations along a run -/

theorem reaches_stepped {machine stepped : Machine}
    (executing : machine.frame.status = .codeExecuting)
    (ran : machine.step schedule context = .ok stepped) (parents : List Frame) :
    Reaches schedule context 0 ⟨machine.frame, parents, machine.world⟩
      ⟨stepped.frame, parents, stepped.world⟩ := by
  apply reaches_next
  rw [advance_of_executing context executing, ran]
  rfl

theorem runsTo_reaches {machine left : Machine}
    (ran : Machine.RunsTo schedule context machine (.ok left))
    (underWay : machine.frame.status.isUnderWay = true) (parents : List Frame) :
    Reaches schedule context 0 ⟨machine.frame, parents, machine.world⟩
        ⟨left.frame, parents, left.world⟩ ∧
      left.frame.status.isUnderWay = true ∧ left.frame.status ≠ .codeExecuting := by
  generalize outcome : Except.ok left = result at ran
  induction ran with
  | leaves status =>
      cases outcome
      exact ⟨.start, underWay, status⟩
  | fails => cases outcome
  | steps executing ran _ ih =>
      obtain ⟨reached, ended⟩ := ih (Machine.underWay_step executing ran) outcome
      exact ⟨(reaches_stepped executing ran parents).trans reached, ended⟩

theorem runsTo_fails {machine : Machine} {error : StateError}
    (ran : Machine.RunsTo schedule context machine (.error error)) (parents : List Frame) :
    Completes schedule context ⟨machine.frame, parents, machine.world⟩ (.error error) := by
  generalize outcome : Except.error error = result at ran
  induction ran with
  | leaves => cases outcome
  | fails executing raised =>
      cases outcome
      apply Completes.fails .start
      rw [advance_of_executing context executing, raised]
      rfl
  | steps executing ran _ ih => exact .after (reaches_stepped executing ran parents) rfl (ih outcome)

theorem rollBack_completes {frame : Frame} {world : JournaledWorld} (parents : List Frame)
    (status : frame.status = .revert ∨ frame.status = .exceptionalHalt) :
    Completes schedule context ⟨frame, parents, world⟩ (frame.rollBack.outcome world) := by
  have advanced : advance schedule context ⟨frame, parents, world⟩ = _ :=
    advance_of_failed context status
  cases settled : frame.rollBack.outcome world with
  | error error => exact .fails .start (advanced.trans (withWorld_error settled))
  | ok rolled =>
      have completed : rolled.1.status.isCompleted = true := by
        rw [Frame.rollBack_ok (Journaled.outcome_ok settled)]
        rfl
      exact .settles (reaches_next (advanced.trans (withWorld_ok settled))) completed

theorem settle_completes {frame : Frame} {world : JournaledWorld} (parents : List Frame)
    (underWay : frame.status.isUnderWay = true) (left : frame.status ≠ .codeExecuting)
    (awake : frame.status ≠ .codeSuspended) :
    Completes schedule context ⟨frame, parents, world⟩ (frame.settle schedule world) := by
  unfold Frame.settle
  by_cases success : frame.status = .codeSuccess
  · rw [if_pos success]
    have advanced : advance schedule context ⟨frame, parents, world⟩ = _ :=
      advance_of_success context success
    cases settled : (frame.commit schedule).outcome world with
    | error error => exact .fails .start (advanced.trans (withWorld_error settled))
    | ok committed =>
        have reached := reaches_next (advanced.trans (withWorld_ok settled))
        change Completes schedule context _ (if committed.1.status = .exceptionalHalt then _ else _)
        rcases (Frame.commit_ok (Journaled.outcome_ok settled)).status with completed | halted
        · rw [if_neg (by rw [completed]; exact nofun)]
          exact .settles reached (by rw [completed]; rfl)
        · rw [if_pos halted]
          exact (rollBack_completes parents (.inr halted)).after reached rfl
  · rw [if_neg success]
    apply rollBack_completes parents
    cases status : frame.status <;> simp_all [Frame.Status.isUnderWay]

theorem advance_child {left : Frame} {message : Message} {world : JournaledWorld}
    (parents : List Frame) (suspended : left.status = .codeSuspended)
    (asks : left.pendingChild = some message) :
    advance schedule context ⟨left, parents, world⟩ = .ok (.running
      ⟨left.child message, { left with pendingChild := none } :: parents, world⟩) :=
  (advance_of_suspended schedule context suspended).trans (enterChild_of_some asks)

theorem advance_takeIn {left completed : Frame} {world : JournaledWorld} (parents : List Frame)
    (settled : completed.status.isCompleted = true) :
    advance schedule context ⟨completed, { left with pendingChild := none } :: parents, world⟩ =
      .ok (.running ⟨left.takeIn schedule completed, parents, world⟩) :=
  advance_of_completed context settled

mutual

theorem Evaluates.completes {frame : Frame} {world : JournaledWorld}
    {result : Except StateError (Frame × JournaledWorld)} (status : frame.status = .notStarted)
    (parents : List Frame) : frame.Evaluates schedule context world result →
    Completes schedule context ⟨frame, parents, world⟩ result
  | .fails raised =>
      .fails .start ((advance_of_notStarted context status).trans (withWorld_error raised))
  | .starts started proceeds =>
      .after (reaches_next ((advance_of_notStarted context status).trans (withWorld_ok started)))
        rfl (Proceeds.completes (Frame.underWay_start started) parents proceeds)

theorem Proceeds.completes {frame : Frame} {world : JournaledWorld}
    {result : Except StateError (Frame × JournaledWorld)}
    (underWay : frame.status.isUnderWay = true) (parents : List Frame) :
    frame.Proceeds schedule context world result →
    Completes schedule context ⟨frame, parents, world⟩ result
  | .fails ran => runsTo_fails ran parents
  | .settles ran awake => by
      obtain ⟨reached, underWay, left⟩ := runsTo_reaches ran underWay parents
      exact .after reached rfl (settle_completes parents underWay left awake)
  | .asksNothing ran suspended asks => by
      obtain ⟨reached, _, _⟩ := runsTo_reaches ran underWay parents
      exact .fails reached ((advance_of_suspended schedule context suspended).trans
        (enterChild_of_none asks))
  | .childFails ran suspended asks evaluated => by
      obtain ⟨reached, _, _⟩ := runsTo_reaches ran underWay parents
      have entered := reached.trans (reaches_next (advance_child parents suspended asks))
      cases Evaluates.completes rfl _ evaluated with
      | fails failing raised => exact .fails (entered.trans failing) raised
  | .resumes ran suspended asks evaluated proceeds => by
      obtain ⟨reached, _, _⟩ := runsTo_reaches ran underWay parents
      have entered := reached.trans (reaches_next (advance_child parents suspended asks))
      cases Evaluates.completes rfl _ evaluated with
      | settles ended completed =>
          have left := (entered.trans ended).trans
            (reaches_next (advance_takeIn parents completed))
          exact .after left rfl
            (Proceeds.completes (Frame.underWay_takeIn suspended _) parents proceeds)

end

/-! ## Runs that end are evaluations -/

theorem runsTo_of_run {fuel : Nat} {frame : Frame} {world : JournaledWorld} {parents : List Frame}
    {result : Except StateError (Frame × JournaledWorld)}
    (ran : run schedule context fuel ⟨frame, parents, world⟩ = some result) :
    ∃ outcome, Machine.RunsTo schedule context ⟨frame, world⟩ outcome := by
  induction fuel generalizing frame world with
  | zero => cases ran
  | succ fuel ih =>
      by_cases executing : frame.status = .codeExecuting
      · cases stepped : Machine.step schedule context ⟨frame, world⟩ with
        | error error => exact ⟨_, .fails executing stepped⟩
        | ok machine =>
            unfold run at ran
            rw [advance_of_executing context executing, stepped] at ran
            obtain ⟨outcome, rest⟩ := ih ran
            exact ⟨outcome, .steps executing stepped rest⟩
      · exact ⟨_, .leaves executing⟩

theorem evaluates_of_run {fuel : Nat} {frame : Frame} {world : JournaledWorld}
    {parents : List Frame} {result : Except StateError (Frame × JournaledWorld)}
    (proceeds : ∀ less, less < fuel → ∀ begun after, begun.status.isUnderWay = true →
      run schedule context less ⟨begun, parents, after⟩ = some result →
      ∃ outcome, begun.Proceeds schedule context after outcome)
    (status : frame.status = .notStarted)
    (ran : run schedule context fuel ⟨frame, parents, world⟩ = some result) :
    ∃ outcome, frame.Evaluates schedule context world outcome := by
  cases started : frame.start.outcome world with
  | error error => exact ⟨_, .fails started⟩
  | ok begun =>
      have advanced : advance schedule context ⟨frame, parents, world⟩ = _ :=
        (advance_of_notStarted context status).trans (withWorld_ok started)
      obtain ⟨less, fewer, ranBegun⟩ := run_of_advance advanced ran
      obtain ⟨outcome, brought⟩ :=
        proceeds less fewer begun.1 begun.2 (Frame.underWay_start started) ranBegun
      exact ⟨outcome, .starts started brought⟩

theorem proceeds_of_run {fuel : Nat} {frame : Frame} {world : JournaledWorld}
    {parents : List Frame} {result : Except StateError (Frame × JournaledWorld)}
    (underWay : frame.status.isUnderWay = true)
    (ran : run schedule context fuel ⟨frame, parents, world⟩ = some result) :
    ∃ outcome, frame.Proceeds schedule context world outcome := by
  -- What the run has left is less for the child, and less again once the child is back.
  induction fuel using Nat.strong_induction_on generalizing frame world parents with
  | _ fuel ih =>
      obtain ⟨outcome, code⟩ := runsTo_of_run ran
      cases outcome with
      | error error => exact ⟨_, .fails code⟩
      | ok machine =>
          obtain ⟨left, after⟩ := machine
          obtain ⟨reached, _, _⟩ := runsTo_reaches code underWay parents
          obtain ⟨atLeft, fewer, ranLeft⟩ := reached.run_last ran
          by_cases suspended : left.status = .codeSuspended
          · cases asks : left.pendingChild with
            | none => exact ⟨_, .asksNothing code suspended asks⟩
            | some message =>
                obtain ⟨atChild, fewest, ranChild⟩ :=
                  run_of_advance (advance_child parents suspended asks) ranLeft
                obtain ⟨childOutcome, evaluated⟩ := evaluates_of_run
                  (fun less few _ _ begun => ih less (by omega) begun) rfl ranChild
                cases childOutcome with
                | error error => exact ⟨_, .childFails code suspended asks evaluated⟩
                | ok completed =>
                    cases Evaluates.completes rfl _ evaluated with
                    | settles ended settled =>
                        obtain ⟨_, _, ranEnded⟩ := ended.run_last ranChild
                        obtain ⟨less, _, ranParent⟩ :=
                          run_of_advance (advance_takeIn parents settled) ranEnded
                        obtain ⟨outcome, proceeds⟩ := ih less (by omega)
                          (Frame.underWay_takeIn suspended _) ranParent
                        exact ⟨outcome, .resumes code suspended asks evaluated proceeds⟩
          · exact ⟨_, .settles code suspended⟩

/-! ## Root frames -/

theorem Concludes.run {last : Configuration} {result : Except StateError (Frame × JournaledWorld)}
    (concludes : Concludes schedule context last result) (fuel : Nat) :
    last.run schedule context (fuel + 1) = some result := by
  unfold Configuration.run
  cases concludes with
  | finishes advanced _ => rw [advanced]
  | fails advanced => rw [advanced]

theorem Completes.concludes {first : Configuration}
    {result : Except StateError (Frame × JournaledWorld)} (alone : first.parents = [])
    (completes : Completes schedule context first result) :
    ∃ last, Reaches schedule context 0 first last ∧ Concludes schedule context last result := by
  cases completes with
  | settles reached completed =>
      refine ⟨_, reached, .finishes ?_ completed⟩
      rw [advance_of_completed context completed, leave, alone]
  | fails reached raised => exact ⟨_, reached, .fails raised⟩

variable {root : Frame} {world : JournaledWorld}
  {result : Except StateError (Frame × JournaledWorld)}

theorem run_of_evaluates (status : root.status = .notStarted)
    (evaluated : root.Evaluates schedule context world result) :
    ∃ fuel, run schedule context fuel ⟨root, [], world⟩ = some result := by
  obtain ⟨last, reached, concludes⟩ := (Evaluates.completes status [] evaluated).concludes rfl
  exact reached.run_first (concludes.run 0)

theorem run_unique {fuel : Nat} {other : Except StateError (Frame × JournaledWorld)}
    (status : root.status = .notStarted)
    (evaluated : root.Evaluates schedule context world result)
    (ran : run schedule context fuel ⟨root, [], world⟩ = some other) : other = result := by
  obtain ⟨last, reached, concludes⟩ := (Evaluates.completes status [] evaluated).concludes rfl
  obtain ⟨less, _, ranLast⟩ := reached.run_last ran
  cases less with
  | zero => cases ranLast
  | succ less => exact Option.some.inj (ranLast.symm.trans (concludes.run less))

theorem evaluates_iff_run (status : root.status = .notStarted) :
    root.Evaluates schedule context world result ↔
      ∃ fuel, run schedule context fuel ⟨root, [], world⟩ = some result := by
  constructor
  · exact run_of_evaluates status
  · rintro ⟨fuel, ran⟩
    obtain ⟨outcome, evaluated⟩ :=
      evaluates_of_run (fun _ _ _ _ underWay => proceeds_of_run underWay) status ran
    rw [run_unique status evaluated ran]
    exact evaluated

end

/-- The recursive evaluation of a root frame that has yet to start comes to exactly what the run
with an explicit stack comes to: the same completed frame and the same world, or the same fault.
Under the rules of every milestone that is what processing the frame gives. -/
theorem evaluates_iff_process (context : Context) {root : Frame} (world : JournaledWorld)
    (status : root.status = .notStarted) :
    (∀ fork result, root.Evaluates (.ofFork fork) context world result ↔
      process (.ofFork fork) context root world = result) ∧
    ∀ schedule result, root.Evaluates schedule context world result ↔
      ∃ fuel, run schedule context fuel ⟨root, [], world⟩ = some result := by
  refine ⟨fun fork result => ?_, fun _ _ => evaluates_iff_run status⟩
  obtain ⟨last, reached, concludes⟩ := process_concludes fork context world status
  obtain ⟨fuel, ran⟩ := reached.run_first (concludes.run 0)
  constructor
  · intro evaluated
    exact run_unique status evaluated ran
  · rintro rfl
    exact (evaluates_iff_run status).mpr ⟨fuel, ran⟩

open Payment in
/-- Evaluated by recursion, the payer's frame succeeds as it does when it is processed. -/
theorem payment_evaluates :
    ∃ finished after,
      root.Evaluates (.ofFork .berlin) context { base := view } (.ok (finished, after)) ∧
      process (.ofFork .berlin) context root { base := view } = .ok (finished, after) ∧
      finished.status = .completedSuccess ∧
      ∃ fuel, run (.ofFork .berlin) context fuel ⟨root, [], { base := view }⟩ =
        some (.ok (finished, after)) := by
  have succeeds : (process (.ofFork .berlin) context root { base := view }).toOption.any
      (fun result => result.1.status == .completedSuccess) = true := by
    decide +kernel
  cases processed : process (.ofFork .berlin) context root { base := view } with
  | error error =>
      rw [processed] at succeeds
      cases succeeds
  | ok result =>
      rw [processed] at succeeds
      obtain ⟨byProcess, byRun⟩ := @evaluates_iff_process context root { base := view } rfl
      have evaluated := (byProcess .berlin _).mpr processed
      exact ⟨result.1, result.2, evaluated, rfl, beq_iff_eq.mp succeeds,
        (byRun _ _).mp evaluated⟩

end Configuration

end ExecutionLayer
