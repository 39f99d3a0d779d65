import ExecutionLayer.Proofs.Execution.Deployments
import ExecutionLayer.Proofs.Instruction.Edits

/-!
# Residents

Code runs only for accounts that are there: a call runs what an account has as code, and a
creation founds the account it runs for. So what edits keep, from accounts that are there for
their slots, holds after any run, whatever was rolled back on the way.
-/

set_option autoImplicit false

namespace ExecutionLayer

open JournaledWorld (Alike)
open Readings (Lasting)

/-- If the message calls code, the account that it is for is there. -/
def Message.Resides (readings : Readings) (message : Message) : Prop :=
  message.kind = .messageCall → message.code.isEmpty = false → readings.Has message.recipient

theorem Message.Resides.edits {before after : Readings} {owners : Set Address} {message : Message}
    (resides : message.Resides before) (edits : Readings.Edits owners before after) :
    message.Resides after :=
  fun kind written => edits.has (resides kind written)

theorem Message.Resides.of_has {readings : Readings} {message : Message}
    (has : readings.Has message.recipient) : message.Resides readings :=
  fun _ _ => has

namespace Frame

/-! ## Starts and settlements -/

variable {schedule : GasSchedule} {frame started committed : Frame} {world after : JournaledWorld}
  {owners : Set Address}

theorem edits_start (owners : Set Address) (ran : frame.start world = .ok started after) :
    Readings.Edits owners world.readings after.readings := by
  cases kind : frame.message.kind with
  | messageCall =>
      rw [start_of_call kind] at ran
      exact Journaled.edits_transfer (startCall_cases ran).1
  | contractCreation =>
      rw [start_of_creation kind] at ran
      obtain ⟨asked, _⟩ | ⟨answered, created, asked, creation, transferred, _⟩ :=
        startCreation_cases ran
      · exact .of_eq (Journaled.blocksDeployment_ok asked).1
      · have founds : Readings.Edits owners answered.readings created.readings :=
          Journaled.edits_createContract creation
        rw [(Journaled.blocksDeployment_ok asked).1] at founds
        exact founds.trans (Journaled.edits_transfer transferred)

theorem edits_commit (owners : Set Address)
    (ran : frame.commit schedule world = .ok committed after) :
    Readings.Edits owners world.readings after.readings := by
  obtain ⟨rfl, _⟩ | ⟨_, _, _, _, deploy, _⟩ := commit_cases ran
  · exact .refl
  · exact Journaled.edits_modifyAccount deploy

/-- Where code starts to run, it runs for an account that is there. -/
theorem has_start (ran : frame.start world = .ok started after)
    (executing : started.status = .codeExecuting) (resides : frame.message.Resides world.readings) :
    after.readings.Has frame.message.recipient := by
  cases opens_start ran with
  | calls kind _ runs => exact (edits_start ∅ ran).has (resides kind (runs executing))
  | collides _ _ status => cases status.symm.trans executing
  | founds _ _ _ founded => exact Readings.has_of_nonce founded (by decide)

/-- A property of the world holds, and the frames run for accounts that are there. -/
structure Housed (property : Readings → Prop) (frames : List Frame) (world : JournaledWorld) :
    Prop where
  holds : property world.readings
  has : ∀ frame ∈ frames, world.readings.Has frame.message.recipient

theorem Housed.edits {property : Readings → Prop} {frames : List Frame}
    (housed : Housed property frames world) (lasts : Lasting property)
    (edits : Readings.Edits owners world.readings after.readings)
    (has : ∀ owner ∈ owners, world.readings.Has owner) : Housed property frames after :=
  ⟨edits.lasting lasts has housed.holds, fun frame member => edits.has (housed.has frame member)⟩

theorem Housed.alike {property : Readings → Prop} {frames : List Frame}
    {left right : JournaledWorld} (alike : Alike left right)
    (housed : Housed property frames right) : Housed property frames left := by
  obtain ⟨holds, has⟩ := housed
  rw [← alike.readings] at holds has
  exact ⟨holds, has⟩

end Frame

/-! ## Steps -/

/-- Code that is asked for runs for an account that is there. -/
theorem Machine.resides_step {schedule : GasSchedule} {context : Context}
    {machine after : Machine} (stepped : machine.step schedule context = .ok after)
    (has : machine.world.readings.Has machine.frame.message.recipient)
    (pending : ∀ child, machine.frame.pendingChild = some child →
      child.Resides machine.world.readings) :
    ∀ child, after.frame.pendingChild = some child → child.Resides after.world.readings := by
  have edits := (edits_step stepped).edits
  intro child asked
  rcases asksFairly_step stepped child asked with earlier | creation | same | ⟨nonce, stands⟩
  · exact (pending child earlier).edits edits
  · intro kind
    cases kind.symm.trans creation
  · exact .of_has (same ▸ edits.has has)
  · exact fun _ written => Readings.has_of_standing stands written

namespace Configuration

/-! ## Runs -/

/-- The property holds here and wherever a frame can go back to, and whatever code runs or is
to run, runs for an account that is there. -/
structure Resides (property : Readings → Prop) (configuration : Configuration) : Prop where
  back : Retraces (Frame.Housed property) [] configuration.parents configuration
  housed : Frame.Housed property configuration.parents configuration.world
  live : configuration.current.status = .codeExecuting ∨
    configuration.current.status = .codeSuspended →
      configuration.world.readings.Has configuration.current.message.recipient
  message : configuration.current.status ≠ .completedFailed →
    configuration.current.message.Resides configuration.world.readings
  pending : configuration.current.status ≠ .completedFailed →
    ∀ child, configuration.current.pendingChild = some child →
      child.Resides configuration.world.readings
  waiting : ∀ parent ∈ configuration.parents, parent.pendingChild = none

namespace Resides

variable {schedule : GasSchedule} {context : Context} {property : Readings → Prop}
  {before after : Configuration}

theorem transition (lasts : Lasting property) (resides : before.Resides property)
    (orderly : Orderly schedule before)
    (transition : Transition schedule context before after) : after.Resides property := by
  have back : Retraces (Frame.Housed property) [] after.parents after := by
    refine resides.back.onward orderly Frame.Housed.alike (fun suspended => ?_) transition
    refine ⟨resides.housed.holds, fun frame member => ?_⟩
    rcases List.mem_cons.mp member with rfl | earlier
    · exact resides.live (.inr suspended)
    · exact resides.housed.has frame earlier
  obtain ⟨_, housed, live, message, pending, waiting⟩ := id resides
  cases transition with
  | starts status ran parents =>
      obtain ⟨⟨sameMessage, pendingChild, _⟩, _, started⟩ := Frame.start_ok ran
      have edits := Frame.edits_start ∅ ran
      have fresh : before.current.status ≠ .completedFailed := by simp [status]
      have housedAfter := housed.edits lasts edits fun _ none => absurd none (Set.notMem_empty _)
      refine ⟨back, parents ▸ housedAfter, fun running => ?_, fun _ => ?_, fun _ => ?_,
        parents ▸ waiting⟩
      · have executing : after.current.status = .codeExecuting := by
          rcases started with started | started | started <;> simp_all
        exact sameMessage ▸ Frame.has_start ran executing (message fresh)
      · exact sameMessage ▸ (message fresh).edits edits
      · exact fun child asked => (pending fresh child (pendingChild ▸ asked)).edits edits
  | steps status ran parents =>
      obtain ⟨sameMessage, _, edits⟩ := Machine.edits_step ran
      have has := live (.inl status)
      have hasAfter := edits.has has
      have running : before.current.status ≠ .completedFailed := by simp [status]
      have housedAfter := housed.edits lasts edits fun _ own => own ▸ has
      exact ⟨back, parents ▸ housedAfter, fun _ => sameMessage ▸ hasAfter,
        fun _ => .of_has (sameMessage ▸ hasAfter),
        fun _ => Machine.resides_step ran has (pending running), parents ▸ waiting⟩
  | enters child status pendingChild current parents world =>
      have has := live (.inr status)
      have asking : before.current.status ≠ .completedFailed := by simp [status]
      refine ⟨back, ⟨world ▸ housed.holds, ?_⟩, ?_, fun _ => ?_, fun _ => ?_, ?_⟩
      · rw [parents, world]
        intro parent member
        rcases List.mem_cons.mp member with rfl | earlier
        · exact has
        · exact housed.has parent earlier
      · rw [current]
        rintro (running | waits) <;> contradiction
      · rw [current, world]
        exact pending asking child pendingChild
      · rw [current]
        exact nofun
      · rw [parents]
        intro parent member
        rcases List.mem_cons.mp member with rfl | earlier
        · rfl
        · exact waiting parent earlier
  | commits status ran parents =>
      obtain ⟨⟨sameMessage, pendingChild, _⟩, _, committed⟩ := Frame.commit_ok ran
      have edits := Frame.edits_commit ∅ ran
      have ended : before.current.status ≠ .completedFailed := by simp [status]
      have housedAfter := housed.edits lasts edits fun _ none => absurd none (Set.notMem_empty _)
      refine ⟨back, parents ▸ housedAfter, fun running => ?_, fun _ => ?_, fun _ => ?_,
        parents ▸ waiting⟩
      · rcases committed with committed | committed <;> simp [committed] at running
      · exact sameMessage ▸ (message ended).edits edits
      · exact fun child asked => (pending ended child (pendingChild ▸ asked)).edits edits
  | rollsBack status ran parents =>
      have failed : after.current.status = .completedFailed := by rw [Frame.rollBack_ok ran]
      exact ⟨back, back.settled (.inr failed), by simp [failed],
        fun still => absurd failed still, fun still => absurd failed still, parents ▸ waiting⟩
  | leaves parent status parents current world =>
      have resumable := orderly.parents parent (by simp [parents])
      obtain ⟨_, pendingChild, _⟩ := Frame.resume_resumed before.current resumable.atRequest
      have sameMessage := Frame.message_resume schedule parent before.current
      have has : after.world.readings.Has after.current.message.recipient := by
        rw [world, current, sameMessage]
        exact housed.has parent (by simp [parents])
      refine ⟨back, ⟨world ▸ housed.holds, fun other member => ?_⟩, fun _ => has,
        fun _ => .of_has has, fun _ child asked => ?_, fun other member => ?_⟩
      · rw [world]
        exact housed.has other (by simp [parents, member])
      · rw [current, pendingChild, waiting parent (by simp [parents])] at asked
        cases asked
      · exact waiting other (by simp [parents, member])

theorem of_reaches {first last : Configuration} {depth : Nat} (lasts : Lasting property)
    (resides : first.Resides property) (orderly : Orderly schedule first)
    (reached : Reaches schedule context depth first last) : last.Resides property := by
  induction reached with
  | start => exact resides
  | advance earlier advanced _ ih =>
      exact ih.transition lasts (earlier.orderly orderly) (transition_of_advance advanced)

theorem of_root {root : Frame} {world : JournaledWorld} (status : root.status = .notStarted)
    (pendingChild : root.pendingChild = none) (holds : property world.readings)
    (message : root.message.Resides world.readings) : Resides property ⟨root, [], world⟩ := by
  have housed : Frame.Housed property [] world := ⟨holds, by simp⟩
  refine ⟨⟨rfl, trivial, fun underWay => ?_, fun _ => housed⟩, housed, by simp [status],
    fun _ => message, by simp [pendingChild], by simp⟩
  rw [status] at underWay
  cases underWay

end Resides

end Configuration

/-- What edits keep holds after a run, if the root runs for an account that is there. -/
theorem process_lasting {property : Readings → Prop} {schedule : GasSchedule} {context : Context}
    {root finished : Frame} {world after : JournaledWorld} (lasts : Lasting property)
    (status : root.status = .notStarted) (pendingChild : root.pendingChild = none)
    (holds : property world.readings) (message : root.message.Resides world.readings)
    (ran : process schedule context root world = .ok (finished, after)) :
    property after.readings := by
  obtain ⟨last, reached, ended⟩ := Configuration.process_eq_ok ran
  obtain ⟨_, rfl, _⟩ := Configuration.finished_of_advance ended
  have resides := (Configuration.Resides.of_root status pendingChild holds message).of_reaches lasts
    (Configuration.orderly_of_notStarted status world) reached
  exact resides.housed.holds

end ExecutionLayer
