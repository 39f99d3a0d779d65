import ExecutionLayer.Proofs.Execution.Termination

/-!
# Runs of frames

A run ends with no more gas and with the same value as it began with, and over a view
without faults it fails only where a balance overflows.
-/

set_option autoImplicit false

namespace ExecutionLayer

/-! ## Ways back -/

/-- Going back to where each of the frames started, innermost first, leads to where the
run started. -/
def Restorable (start : JournaledWorld) : List Frame → JournaledWorld → Prop
  | [], world => start.Conserves world
  | frame :: frames, world => ∃ began : JournaledWorld,
      frame.checkpoint = some began.journal.length ∧ began.Conserves world ∧
        Restorable start frames began

namespace Restorable

variable {start world after : JournaledWorld} {frame : Frame} {frames : List Frame}

theorem conserves (restorable : Restorable start frames world) (conserves : world.Conserves after) :
    Restorable start frames after := by
  cases frames with
  | nil => exact restorable.trans conserves
  | cons frame frames =>
      obtain ⟨began, checkpoint, earlier, rest⟩ := restorable
      exact ⟨began, checkpoint, earlier.trans conserves, rest⟩

theorem tail (restorable : Restorable start (frame :: frames) world) :
    Restorable start frames world := by
  obtain ⟨began, _, conserves, rest⟩ := restorable
  exact rest.conserves conserves

theorem total (restorable : Restorable start frames world) : start.Conserves world := by
  induction frames generalizing world with
  | nil => exact restorable
  | cons frame frames ih => exact ih restorable.tail

theorem begin (restorable : Restorable start frames world)
    (checkpoint : frame.checkpoint = some world.journal.length)
    (conserves : world.Conserves after) : Restorable start (frame :: frames) after :=
  ⟨world, checkpoint, conserves, restorable⟩

theorem congr {other : Frame} (restorable : Restorable start (frame :: frames) world)
    (same : other.checkpoint = frame.checkpoint) : Restorable start (other :: frames) world := by
  obtain ⟨began, checkpoint, conserves, rest⟩ := restorable
  exact ⟨began, same.trans checkpoint, conserves, rest⟩

/-- The innermost frame gives up what it wrote. -/
theorem rollBack (restorable : Restorable start (frame :: frames) world) :
    ∃ checkpoint, frame.checkpoint = some checkpoint ∧
      Restorable start frames (world.undoLast (world.journal.length - checkpoint)) := by
  obtain ⟨began, checkpoint, conserves, rest⟩ := restorable
  have alike := conserves.continues.rollback
  exact ⟨_, checkpoint, rest.conserves (.of_readings alike.readings (.of_alike alike))⟩

end Restorable

/-! ## The invariant -/

namespace Configuration

/-- How the live frame stands, by its status. -/
inductive Live (schedule : GasSchedule) (start : JournaledWorld) (configuration : Configuration) :
    Prop where
  | starting (status : configuration.current.status = .notStarted)
      (funded : Journaled.Funded configuration.world configuration.current.message.sender
        configuration.current.message.value)
      (restorable : Restorable start configuration.parents configuration.world)
  | begun (status : configuration.current.status = .codeExecuting ∨
        configuration.current.status = .codeSuccess ∨ configuration.current.status = .revert ∨
        configuration.current.status = .exceptionalHalt)
      (restorable : Restorable start (configuration.current :: configuration.parents)
        configuration.world)
  | waiting (child : Message) (status : configuration.current.status = .codeSuspended)
      (pendingChild : configuration.current.pendingChild = some child)
      (atRequest : configuration.current.AtRequest schedule)
      (funded : Journaled.Funded configuration.world child.sender child.value)
      (restorable : Restorable start (configuration.current :: configuration.parents)
        configuration.world)
  | completed (status : configuration.current.status.isCompleted = true)
      (restorable : Restorable start configuration.parents configuration.world)

/-- Every parent waits where it asked for its child, and no value appeared or vanished since
the start. -/
structure Sound (schedule : GasSchedule) (start : JournaledWorld) (configuration : Configuration) :
    Prop where
  parents : ∀ parent ∈ configuration.parents, parent.AtRequest schedule
  live : Live schedule start configuration

/-- What a transition of a sound configuration comes to. -/
def Proceeds (schedule : GasSchedule) (start : JournaledWorld) :
    Except StateError Progress → Prop
  | .ok (.running next) => Sound schedule start next
  | .ok (.finished _ world) => start.Conserves world
  | .error error => start.readings.Lawful → Overflows start.readings.supply error

section

variable {schedule : GasSchedule} {start : JournaledWorld} {configuration : Configuration}

theorem withWorld_proceeds {operation : Journaled Frame} (schedule : GasSchedule)
    (conserves : start.Conserves configuration.world)
    (safe : Journaled.SafeAt operation configuration.world)
    (proceeds : ∀ current world, operation configuration.world = .ok current world →
      Sound schedule start { configuration with current, world }) :
    Proceeds schedule start (configuration.withWorld operation) := by
  unfold withWorld
  cases ran : operation configuration.world with
  | ok current world => exact proceeds current world ran
  | error error world =>
      intro lawful
      exact (safe.overflows ran (conserves.lawful lawful)).mono (conserves.supply lawful).le

theorem advance_notStarted (context : Context) (sound : Sound schedule start configuration)
    (status : configuration.current.status = .notStarted)
    (funded : Journaled.Funded configuration.world configuration.current.message.sender
      configuration.current.message.value)
    (restorable : Restorable start configuration.parents configuration.world) :
    Proceeds schedule start (configuration.advance schedule context) := by
  rw [advance_of_notStarted context status]
  have safe := Frame.safeAt_start funded
  apply withWorld_proceeds _ restorable.total safe
  intro current world ran
  obtain ⟨_, checkpoint, statusAfter⟩ := Frame.start_ok ran
  refine ⟨sound.parents, .begun ?_ (restorable.begin checkpoint (safe.conserves ran))⟩
  rcases statusAfter with executing | success | halted
  · exact .inl executing
  · exact .inr (.inl success)
  · exact .inr (.inr (.inr halted))

theorem advance_executing (context : Context) (sound : Sound schedule start configuration)
    (status : configuration.current.status = .codeExecuting)
    (restorable : Restorable start (configuration.current :: configuration.parents)
      configuration.world) :
    Proceeds schedule start (configuration.advance schedule context) := by
  let machine : Machine := ⟨configuration.current, configuration.world⟩
  rw [advance_of_executing context status]
  have executing : machine.frame.status = .codeExecuting := status
  rcases Machine.step_cases schedule.charges_zero context executing with
    ⟨instruction, after, decoded, stepped, moves⟩ | ⟨halted, reason, stepped, kept⟩ |
      ⟨error, failed, overflows⟩
  · rw [stepped]
    have restorableAfter := (restorable.conserves moves.world).congr moves.checkpoint
    refine ⟨sound.parents, ?_⟩
    rcases moves.course with
      ⟨executing, _, _⟩ | ⟨ended, _, _⟩ | ⟨child, asks, waits, pendingChild, pc, _, funded⟩
    · exact .begun (.inl executing) restorableAfter
    · refine .begun (.inr ?_) restorableAfter
      rcases ended with success | reverted
      · exact .inl success
      · exact .inr (.inl reverted)
    · have atRequest : after.frame.AtRequest schedule := by
        refine ⟨instruction, ?_, asks⟩
        rw [← decoded, Frame.currentOpcode, Frame.currentOpcode, moves.message, pc]
      exact .waiting child waits pendingChild atRequest funded restorableAfter
  · rw [stepped]
    exact ⟨sound.parents, .begun (.inr (.inr (.inr rfl)))
      ((restorable.conserves kept.world).congr kept.frame.checkpoint)⟩
  · rw [failed]
    intro lawful
    exact (overflows (restorable.total.lawful lawful)).mono (restorable.total.supply lawful).le

theorem advance_suspended (context : Context) {child : Message}
    (sound : Sound schedule start configuration)
    (status : configuration.current.status = .codeSuspended)
    (pendingChild : configuration.current.pendingChild = some child)
    (atRequest : configuration.current.AtRequest schedule)
    (funded : Journaled.Funded configuration.world child.sender child.value)
    (restorable : Restorable start (configuration.current :: configuration.parents)
      configuration.world) :
    Proceeds schedule start (configuration.advance schedule context) := by
  rw [advance_of_suspended schedule context status, enterChild_of_some pendingChild]
  refine ⟨?_, .starting rfl funded (restorable.congr rfl)⟩
  intro parent member
  rcases List.mem_cons.mp member with rfl | earlier
  · exact atRequest
  · exact sound.parents parent earlier

theorem advance_success (context : Context) (sound : Sound schedule start configuration)
    (status : configuration.current.status = .codeSuccess)
    (restorable : Restorable start (configuration.current :: configuration.parents)
      configuration.world) :
    Proceeds schedule start (configuration.advance schedule context) := by
  rw [advance_of_success context status]
  have safe := Frame.safeAt_commit schedule configuration.current configuration.world
  apply withWorld_proceeds _ restorable.total safe
  intro current world ran
  obtain ⟨_, checkpoint, settled⟩ := Frame.commit_ok ran
  have kept := restorable.conserves (safe.conserves ran)
  refine ⟨sound.parents, ?_⟩
  rcases settled with completed | halted
  · exact .completed (by dsimp only; rw [completed]; rfl) kept.tail
  · exact .begun (.inr (.inr (.inr halted))) (kept.congr checkpoint)

theorem advance_failed (context : Context) (sound : Sound schedule start configuration)
    (status : configuration.current.status = .revert ∨
      configuration.current.status = .exceptionalHalt)
    (restorable : Restorable start (configuration.current :: configuration.parents)
      configuration.world) :
    Proceeds schedule start (configuration.advance schedule context) := by
  -- Value that the frame lost comes back here, so the world is not compared with the one
  -- before, but with the one that the frame began in.
  obtain ⟨checkpoint, taken, back⟩ := restorable.rollBack
  rw [advance_of_failed context status, withWorld,
    Frame.rollBack_of_checkpoint configuration.world taken]
  exact ⟨sound.parents, .completed rfl back⟩

theorem advance_completed (context : Context) (sound : Sound schedule start configuration)
    (status : configuration.current.status.isCompleted = true)
    (restorable : Restorable start configuration.parents configuration.world) :
    Proceeds schedule start (configuration.advance schedule context) := by
  rw [advance_of_completed context status]
  unfold leave
  cases waiting : configuration.parents with
  | nil =>
      rw [waiting] at restorable
      exact restorable
  | cons parent parents =>
      have atRequest := sound.parents parent (by rw [waiting]; exact .head _)
      obtain ⟨_, _, checkpoint, _, resumed⟩ :=
        Frame.resume_resumed configuration.current atRequest
      rw [waiting] at restorable
      refine ⟨?_, .begun ?_ (restorable.congr checkpoint)⟩
      · intro other member
        exact sound.parents other (by rw [waiting]; exact .tail _ member)
      · rcases resumed with executing | halted
        · exact .inl executing
        · exact .inr (.inr (.inr halted))

theorem advance_proceeds (context : Context) (sound : Sound schedule start configuration) :
    Proceeds schedule start (configuration.advance schedule context) := by
  cases sound.live with
  | starting status funded restorable =>
      exact advance_notStarted context sound status funded restorable
  | begun status restorable =>
      rcases status with executing | success | failed
      · exact advance_executing context sound executing restorable
      · exact advance_success context sound success restorable
      · exact advance_failed context sound failed restorable
  | waiting child status pendingChild atRequest funded restorable =>
      exact advance_suspended context sound status pendingChild atRequest funded restorable
  | completed status restorable => exact advance_completed context sound status restorable

theorem Sound.of_reaches {context : Context} {depth : Nat} {first last : Configuration}
    (sound : Sound schedule start first) (reached : Reaches schedule context depth first last) :
    Sound schedule start last := by
  induction reached with
  | start => exact sound
  | advance _ advanced _ ih =>
      have proceeds := advance_proceeds context ih
      rw [advanced] at proceeds
      exact proceeds

/-- What a run comes to: a completed root frame with at most an amount of gas, or a fault. -/
def Ends (start : JournaledWorld) (gas : Nat) :
    Except StateError (Frame × JournaledWorld) → Prop
  | .ok (root, world) => root.status.isCompleted = true ∧ root.gas.toNat ≤ gas ∧
      start.Conserves world
  | .error error => start.readings.Lawful → Overflows start.readings.supply error

end

end Configuration

open ExecutionLayer.Configuration in
/-- A root frame runs to its completion: the bound on the transitions is never reached. -/
theorem process_ends (fork : Fork) (context : Context) {root : Frame} {world : JournaledWorld}
    (status : root.status = .notStarted) (pendingChild : root.pendingChild = none)
    (funded : Journaled.Funded world root.message.sender root.message.value) :
    Ends world root.gas.toNat (process (.ofFork fork) context root world) := by
  have sound : Sound (.ofFork fork) world ⟨root, [], world⟩ :=
    ⟨fun _ member => (nomatch member), .starting status funded (.refl world)⟩
  obtain ⟨last, reached, concludes⟩ := process_concludes fork context world status
  have proceeds := advance_proceeds context (sound.of_reaches reached)
  generalize process (.ofFork fork) context root world = result at concludes
  cases concludes with
  | finishes advanced completed =>
      rw [advanced] at proceeds
      have left := reached.finished_gas_le (handedOver_of_root root world) advanced
      rw [totalGas_of_root pendingChild] at left
      exact ⟨completed, left, proceeds⟩
  | fails advanced =>
      rw [advanced] at proceeds
      exact proceeds

end ExecutionLayer
