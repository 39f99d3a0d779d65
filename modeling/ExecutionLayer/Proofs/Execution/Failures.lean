import ExecutionLayer.Proofs.Execution.Transitions
import ExecutionLayer.Proofs.World.Rollback

/-!
# Failed frames

A frame that failed leaves the world reading as it did when the frame started, whatever the
frame and its descendants did in between, and gives nothing of what it recorded to the frame
that waits for it.
-/

set_option autoImplicit false

namespace ExecutionLayer

open JournaledWorld (Alike Continues)

namespace Configuration

section

variable {schedule : GasSchedule} {context : Context} {first : Configuration}

theorem Transition.length_parents {before after : Configuration}
    (transition : Transition schedule context before after) :
    after.parents.length ≤ before.parents.length ∨
      before.current.status = .codeSuspended ∧
        after.parents.length = before.parents.length + 1 := by
  cases transition with
  | starts _ _ parents => exact .inl (by rw [parents])
  | steps _ _ parents => exact .inl (by rw [parents])
  | enters _ status _ _ parents _ => exact .inr ⟨status, by rw [parents, List.length_cons]⟩
  | commits _ _ parents => exact .inl (by rw [parents])
  | rollsBack _ _ parents => exact .inl (by rw [parents])
  | leaves _ _ parents => exact .inl (by rw [parents, List.length_cons]; omega)

/-- The run begins here, or a suspended frame hands over to its child. -/
def IsStart (schedule : GasSchedule) (context : Context) (first began : Configuration) : Prop :=
  began = first ∨ ∃ suspended, Reaches schedule context 0 first suspended ∧
    suspended.current.status = .codeSuspended ∧
    suspended.advance schedule context = .ok (.running began)

/-- The live frame of `ended` is the one that is about to start in `began`. -/
structure Starts (schedule : GasSchedule) (context : Context) (first began ended : Configuration) :
    Prop where
  isStart : IsStart schedule context first began
  depth : began.parents.length = ended.parents.length
  reaches : Reaches schedule context began.parents.length began ended

theorem enters_of_suspended {suspended next : Configuration}
    (status : suspended.current.status = .codeSuspended)
    (advanced : suspended.advance schedule context = .ok (.running next)) :
    next.current.status = .notStarted ∧ next.world = suspended.world ∧
      next.parents = { suspended.current with pendingChild := none } :: suspended.parents := by
  cases transition_of_advance advanced with
  | enters child _ _ current parents world =>
      refine ⟨?_, world, parents⟩
      rw [current]
      rfl
  | starts other => simp [status] at other
  | steps other => simp [status] at other
  | commits other => simp [status] at other
  | rollsBack other => simp [status] at other
  | leaves _ other => simp [status, Frame.Status.isCompleted] at other

theorem IsStart.notStarted {began : Configuration} (isStart : IsStart schedule context first began)
    (status : first.current.status = .notStarted) : began.current.status = .notStarted := by
  rcases isStart with rfl | ⟨suspended, _, waits, advanced⟩
  · exact status
  · exact (enters_of_suspended waits advanced).1

theorem IsStart.reaches {began : Configuration} (isStart : IsStart schedule context first began) :
    Reaches schedule context 0 first began := by
  rcases isStart with rfl | ⟨suspended, reached, _, advanced⟩
  · exact .start
  · exact reached.advance advanced (Nat.zero_le _)

/-- Every frame that lives or waits has started somewhere in the run. -/
theorem Reaches.exists_start {last : Configuration}
    (reached : Reaches schedule context 0 first last) (root : first.parents = []) {depth : Nat} (le : depth ≤ last.parents.length) :
    ∃ began, IsStart schedule context first began ∧ began.parents.length = depth ∧
      Reaches schedule context depth began last := by
  induction reached with
  | start =>
      rw [root, List.length_nil, Nat.le_zero] at le
      exact ⟨first, .inl rfl, by rw [root, le, List.length_nil], .start⟩
  | @advance middle next earlier advanced _ ih =>
      by_cases shallow : depth ≤ middle.parents.length
      · obtain ⟨began, isStart, length, reached⟩ := ih shallow
        exact ⟨began, isStart, length, reached.advance advanced le⟩
      · -- Only a child's start goes deeper, by one frame.
        rcases (transition_of_advance advanced).length_parents with same | ⟨status, deeper⟩
        · omega
        · exact ⟨next, .inr ⟨middle, earlier, status, advanced⟩, by omega, .start⟩

theorem Reaches.exists_starts {ended : Configuration}
    (reached : Reaches schedule context 0 first ended) (root : first.parents = []) :
    ∃ began, Starts schedule context first began ended := by
  obtain ⟨began, isStart, length, later⟩ := reached.exists_start root (Nat.le_refl _)
  exact ⟨began, isStart, length, length ▸ later⟩

/-- The world in which the frame started is the only one that anything is held of. -/
theorem Reaches.retraces {began last : Configuration}
    (reached : Reaches schedule context began.parents.length began last)
    (orderly : Orderly schedule began) (status : began.current.status = .notStarted) :
    ∃ inner, Retraces (fun frames world => frames = [] → Alike world began.world)
      began.parents inner last := by
  induction reached with
  | start =>
      refine ⟨[], rfl, trivial, ?_, fun _ _ => .refl _⟩
      rw [status]
      exact nofun
  | advance earlier advanced deep ih =>
      obtain ⟨inner, retraces⟩ := ih
      apply retraces.transition (earlier.orderly orderly) _ _ (transition_of_advance advanced) deep
      · intro frames left right alike held none
        exact alike.trans (held none)
      · intro _ none
        cases none

theorem Starts.alike {began ended : Configuration}
    (starts : Starts schedule context first began ended) (orderly : Orderly schedule began)
    (status : began.current.status = .notStarted)
    (failed : ended.current.status = .completedFailed) :
    Alike ended.world began.world ∧ ended.parents = began.parents := by
  obtain ⟨inner, parents, _, _, settled⟩ := starts.reaches.retraces orderly status
  have none : inner = [] := by
    have depth := starts.depth
    rw [parents, List.length_append] at depth
    exact List.length_eq_zero_iff.mp (by omega)
  subst none
  exact ⟨settled (.inr failed) rfl, parents⟩

/-- The frame that waited for a failed one goes on with what it had recorded. -/
theorem resumes_of_failed {suspended began ended : Configuration}
    (orderly : Orderly schedule suspended)
    (waits : suspended.current.status = .codeSuspended)
    (advanced : suspended.advance schedule context = .ok (.running began))
    (parents : ended.parents = began.parents)
    (failed : ended.current.status = .completedFailed) :
    ∃ resumed, ended.advance schedule context = .ok (.running resumed) ∧
      resumed.parents = suspended.parents ∧ resumed.current.status = .codeExecuting ∧
      suspended.current.RecordsAlike resumed.current := by
  obtain ⟨_, _, waiting⟩ := enters_of_suspended waits advanced
  let parent : Frame := { suspended.current with pendingChild := none }
  let resumed : Configuration :=
    { ended with
      current := parent.resume schedule ended.current
      parents := suspended.parents }
  have resumable : parent.Resumable schedule := orderly.waits waits
  obtain ⟨status, unchanged, _⟩ := resumable.receives ended.current
  have left : ended.advance schedule context = .ok (.running resumed) := by
    rw [advance_of_completed context (by rw [failed]; rfl), leave]
    rw [parents, waiting]
  obtain ⟨logs, selfDestructs, refund, warmAddresses, warmSlots⟩ := unchanged (by simp [failed])
  exact ⟨resumed, left, rfl, status, logs, selfDestructs, refund, warmAddresses, warmSlots⟩

open Journaled in
/-- When a frame failed, every read and the effects of the world are as they were when the
frame started, nothing is left of what the frame recorded, and the frame that waited for it
goes on with what it had recorded itself. -/
theorem failed_traceless {root : Frame} {world : JournaledWorld} {ended : Configuration}
    (status : root.status = .notStarted)
    (reached : Reaches schedule context 0 ⟨root, [], world⟩ ended)
    (failed : ended.current.status = .completedFailed) :
    ended.current.logs = [] ∧ ended.current.selfDestructs = ∅ ∧ ended.current.refund = 0 ∧
      (∃ began, Starts schedule context ⟨root, [], world⟩ began ended) ∧
      ∀ began, Starts schedule context ⟨root, [], world⟩ began ended →
        (∀ address, (account address).answer ended.world = (account address).answer began.world) ∧
        (∀ address slot,
          (storage address slot).answer ended.world = (storage address slot).answer began.world) ∧
        (∀ address slot,
          (originalStorage address slot).answer ended.world =
            (originalStorage address slot).answer began.world) ∧
        ended.world.effects = began.world.effects ∧
        (∀ destroyed,
          (finish destroyed).answer ended.world = (finish destroyed).answer began.world) ∧
        ∀ suspended, Reaches schedule context 0 ⟨root, [], world⟩ suspended →
          suspended.current.status = .codeSuspended →
          suspended.advance schedule context = .ok (.running began) →
          ∃ resumed, ended.advance schedule context = .ok (.running resumed) ∧
            resumed.parents = suspended.parents ∧ resumed.current.status = .codeExecuting ∧
            suspended.current.RecordsAlike resumed.current := by
  have orderly : Orderly schedule ⟨root, [], world⟩ := orderly_of_notStarted status world
  obtain ⟨logs, selfDestructs, refund⟩ := (reached.orderly orderly).failed (by rw [failed]; rfl)
  refine ⟨logs, selfDestructs, refund, reached.exists_starts rfl, ?_⟩
  intro began starts
  have orderlyBegan := starts.isStart.reaches.orderly orderly
  obtain ⟨⟨readings, _⟩, parents⟩ :=
    starts.alike orderlyBegan (starts.isStart.notStarted status) failed
  refine ⟨?_, ?_, ?_, JournaledWorld.effects_congr readings, ?_, ?_⟩
  · exact fun address => ((follows_account address).congr readings).1
  · exact fun address slot => ((follows_storage address slot).congr readings).1
  · exact fun address slot => ((follows_originalStorage address slot).congr readings).1
  · exact fun destroyed => answer_finish_congr destroyed readings
  · intro suspended reachedSuspended waits advanced
    exact resumes_of_failed (reachedSuspended.orderly orderly) waits advanced parents failed

end

/-! ## A child that reverts -/

namespace Reverted

/-- Writes its first slot, then reverts. -/
def writer : Code :=
  .ofBytes [0x60, 1, 0x60, 0, 0x55, 0x60, 0, 0x60, 0, 0xFD]

/-- Calls the account at eleven. -/
def caller : Code :=
  .ofBytes [0x60, 0, 0x60, 0, 0x60, 0, 0x60, 0, 0x60, 0, 0x60, 11, 0x61, 0xC3, 0x50, 0xF1]

def view : WorldView where
  account address := .ok (if address = 11 then some { code := writer } else none)
  storage _ _ := .ok 0

def context : Context :=
  ⟨{}, {}, fun _ => none⟩

def root : Frame :=
  .ofMessage { recipient := 10, contract := 10, code := caller, gas := 100000 } ∅ ∅

end Reverted

open Reverted in
/-- The child's write is gone, and its caller goes on with what it had recorded. -/
theorem reverted_traceless :
    ∃ suspended began ended resumed : Configuration,
      suspended.advance (.ofFork .berlin) context = .ok (.running began) ∧
      Starts (.ofFork .berlin) context ⟨root, [], { base := view }⟩ began ended ∧
      ended.current.status = .completedFailed ∧ ended.current.logs = [] ∧
      ended.world.effects = began.world.effects ∧
      ended.advance (.ofFork .berlin) context = .ok (.running resumed) ∧
      suspended.current.RecordsAlike resumed.current := by
  have evaluated : (iterate (.ofFork .berlin) context 18 ⟨root, [], { base := view }⟩).any
      (fun ended => ended.current.status == .completedFailed && ended.parents.length == 1) =
        true := by
    decide +kernel
  obtain ⟨ended, ran, holds⟩ := (Option.any_eq_true _ _).mp evaluated
  simp only [Bool.and_eq_true, beq_iff_eq] at holds
  obtain ⟨failed, nested⟩ := holds
  obtain ⟨logs, _, _, ⟨began, starts⟩, alike⟩ := failed_traceless rfl (.of_iterate ran) failed
  obtain ⟨_, _, _, effects, _, resumes⟩ := alike began starts
  rcases starts.isStart with rfl | ⟨suspended, reached, waits, advanced⟩
  · have depth := starts.depth
    rw [nested] at depth
    cases depth
  · obtain ⟨resumed, left, _, _, records⟩ := resumes suspended reached waits advanced
    exact ⟨suspended, began, ended, resumed, advanced, starts, failed, logs, effects, left, records⟩

end Configuration

end ExecutionLayer
