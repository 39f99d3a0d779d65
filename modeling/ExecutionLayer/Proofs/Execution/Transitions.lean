import ExecutionLayer.Proofs.Execution.Returns

/-!
# Transitions of a run

The one transition that the status of the live frame allows, and the configurations that
transitions lead to. Whatever frames do, a failed frame has nothing recorded, a waiting frame
can be resumed, and the journal leads back to where each frame that began did so.
-/

set_option autoImplicit false

namespace ExecutionLayer

open JournaledWorld (Alike Continues)

namespace Frame

/-- What the start and the settlement of a frame do to what it recorded. -/
structure Settles (before after : Frame) : Prop where
  failed : after.status.isFailed = true → after.Bare
  refund : after.status.isFailed = false → after.refund = before.refund
  bare : before.Bare → after.Bare
  selfDestructs : ∀ address ∈ after.selfDestructs, address ∈ before.selfDestructs
  warms : before.Warms after

theorem bare_halt (frame : Frame) (reason : Halt) : (frame.halt reason).Bare :=
  ⟨rfl, rfl, rfl⟩

theorem settles_halt (frame : Frame) (reason : Halt) : frame.Settles (frame.halt reason) :=
  ⟨fun _ => frame.bare_halt reason, nofun, fun _ => frame.bare_halt reason,
    fun _ member => absurd member Std.ExtTreeSet.not_mem_empty, fun _ => id⟩

theorem Works.settles {before payer after : Frame} (works : before.Works payer)
    (logs : after.logs = payer.logs) (selfDestructs : after.selfDestructs = payer.selfDestructs)
    (refund : after.refund = payer.refund) (warms : payer.Warms after)
    (fine : after.status.isFailed = false) : before.Settles after := by
  refine ⟨fun failed => ?_, fun _ => refund.trans works.refund, fun bare => ?_, fun _ member => ?_,
    works.warms.trans warms⟩
  · rw [fine] at failed
    cases failed
  · exact (works.bare bare).congr logs selfDestructs refund
  · rwa [selfDestructs, works.selfDestructs] at member

theorem settles_runPrecompile (frame : Frame) (contract : Precompile) :
    frame.Settles (frame.runPrecompile contract) := by
  rcases frame.runPrecompile_cases contract with
    ⟨reason, ended⟩ | ⟨amount, payer, output, paid, ended⟩
  · rw [ended]
    exact frame.settles_halt reason
  · rw [ended]
    exact (works_useGas paid).1.settles rfl rfl rfl (fun _ => id) rfl

theorem settles_startCall {frame started : Frame} {world after : JournaledWorld}
    (ran : frame.startCall world = .ok started after) :
    frame.Settles started ∧ Continues world after := by
  obtain ⟨transferred, course⟩ := startCall_cases ran
  refine ⟨?_, (Journaled.follows_transfer _ _ _).continues transferred⟩
  obtain ⟨contract, rfl⟩ | rfl | ⟨_, rfl⟩ := course
  · exact frame.settles_runPrecompile contract
  · exact (Works.refl frame).settles rfl rfl rfl (fun _ => id) rfl
  · exact (Works.refl frame).settles rfl rfl rfl (fun _ => id) rfl

theorem settles_startCreation {frame started : Frame} {world after : JournaledWorld}
    (ran : frame.startCreation world = .ok started after) :
    frame.Settles started ∧ Continues world after := by
  have asks {isTaken : Bool} {answered : JournaledWorld}
      (asked : Journaled.blocksDeployment frame.message.recipient world = .ok isTaken answered) :
      Continues world answered :=
    (Journaled.follows_question (fun account => account.any Account.blocksDeployment) _).continues
      asked
  obtain ⟨asked, rfl⟩ | ⟨answered, created, asked, creation, transferred, rfl⟩ :=
    startCreation_cases ran
  · exact ⟨frame.settles_halt _, asks asked⟩
  · exact ⟨(Works.refl frame).settles rfl rfl rfl (fun _ => id) rfl,
      ((asks asked).trans ((Journaled.follows_createContract _).continues creation)).trans
        ((Journaled.follows_transfer _ _ _).continues transferred)⟩

theorem settles_start {frame started : Frame} {world after : JournaledWorld}
    (ran : frame.start world = .ok started after) :
    frame.Settles started ∧ Continues world after := by
  cases kind : frame.message.kind with
  | messageCall =>
      rw [start_of_call kind] at ran
      obtain ⟨⟨failed, refund, bare, selfDestructs, warms⟩, continues⟩ := settles_startCall ran
      exact ⟨⟨failed, refund, fun recorded => bare (recorded.congr rfl rfl rfl), selfDestructs,
        warms⟩, continues⟩
  | contractCreation =>
      rw [start_of_creation kind] at ran
      obtain ⟨⟨failed, refund, bare, selfDestructs, warms⟩, continues⟩ := settles_startCreation ran
      exact ⟨⟨failed, refund, fun recorded => bare (recorded.congr rfl rfl rfl), selfDestructs,
        warms⟩, continues⟩

theorem settles_commit {schedule : GasSchedule} {frame committed : Frame}
    {world after : JournaledWorld} (ran : frame.commit schedule world = .ok committed after) :
    frame.Settles committed ∧ Continues world after := by
  obtain ⟨rfl, rfl | ⟨reason, rfl⟩⟩ | ⟨_, amount, payer, paid, deploy, rfl⟩ := commit_cases ran
  · exact ⟨(Works.refl frame).settles rfl rfl rfl (fun _ => id) rfl, .refl _⟩
  · exact ⟨frame.settles_halt reason, .refl _⟩
  · exact ⟨(works_useGas paid).1.settles rfl rfl rfl (fun _ => id) rfl,
      (Journaled.follows_modifyAccount _ _).continues deploy⟩

theorem rollBack_ok {frame rolled : Frame} {world after : JournaledWorld}
    (ran : frame.rollBack world = .ok rolled after) :
    rolled = { frame with status := .completedFailed, checkpoint := none } := by
  unfold rollBack at ran
  cases taken : frame.checkpoint with
  | none =>
      rw [taken] at ran
      cases ran
      rfl
  | some checkpoint =>
      rw [taken] at ran
      obtain ⟨_, _, _, ran⟩ := Journaled.bind_eq_ok ran
      cases ran
      rfl

end Frame

namespace Configuration

/-- The transition that the status of the live frame allows. -/
inductive Transition (schedule : GasSchedule) (context : Context) (before after : Configuration) :
    Prop where
  | starts (status : before.current.status = .notStarted)
      (ran : before.current.start before.world = .ok after.current after.world)
      (parents : after.parents = before.parents)
  | steps (status : before.current.status = .codeExecuting)
      (ran : Machine.step schedule context ⟨before.current, before.world⟩ =
        .ok ⟨after.current, after.world⟩)
      (parents : after.parents = before.parents)
  | enters (child : Message) (status : before.current.status = .codeSuspended)
      (pendingChild : before.current.pendingChild = some child)
      (current : after.current =
        Frame.ofMessage child before.current.warmAddresses before.current.warmSlots)
      (parents : after.parents = { before.current with pendingChild := none } :: before.parents)
      (world : after.world = before.world)
  | commits (status : before.current.status = .codeSuccess)
      (ran : before.current.commit schedule before.world = .ok after.current after.world)
      (parents : after.parents = before.parents)
  | rollsBack (status : before.current.status = .revert ∨ before.current.status = .exceptionalHalt)
      (ran : before.current.rollBack before.world = .ok after.current after.world)
      (parents : after.parents = before.parents)
  | leaves (parent : Frame) (status : before.current.status.isCompleted = true)
      (parents : before.parents = parent :: after.parents)
      (current : after.current = parent.resume schedule before.current)
      (world : after.world = before.world)

section

variable {schedule : GasSchedule} {context : Context} {before after : Configuration}

theorem withWorld_running {operation : Journaled Frame}
    (ran : before.withWorld operation = .ok (.running after)) :
    operation before.world = .ok after.current after.world ∧ after.parents = before.parents := by
  unfold withWorld at ran
  split at ran
  · rename_i finished
    cases ran
    exact ⟨finished, rfl⟩
  · cases ran

theorem leave_running (left : before.leave schedule = .running after) :
    ∃ parent, before.parents = parent :: after.parents ∧
      after.current = parent.resume schedule before.current ∧ after.world = before.world := by
  unfold leave at left
  split at left
  · cases left
  · rename_i parent parents waiting
    cases left
    exact ⟨parent, waiting, rfl, rfl⟩

theorem advance_of_notStarted (context : Context) (status : before.current.status = .notStarted) :
    before.advance schedule context = before.withWorld before.current.start := by
  unfold advance
  dsimp only
  rw [status]

theorem advance_of_executing (context : Context)
    (status : before.current.status = .codeExecuting) :
    before.advance schedule context =
      (Machine.step schedule context ⟨before.current, before.world⟩ >>= fun machine =>
        .ok (.running { before with current := machine.frame, world := machine.world })) := by
  unfold advance
  dsimp only
  rw [status]
  rfl

theorem advance_of_suspended (schedule : GasSchedule) (context : Context)
    (status : before.current.status = .codeSuspended) :
    before.advance schedule context = before.enterChild := by
  unfold advance
  dsimp only
  rw [status]

theorem enterChild_of_some {child : Message}
    (pendingChild : before.current.pendingChild = some child) :
    before.enterChild = .ok (.running
      { before with
        current := Frame.ofMessage child before.current.warmAddresses before.current.warmSlots
        parents := { before.current with pendingChild := none } :: before.parents }) := by
  unfold enterChild
  dsimp only
  rw [pendingChild]

theorem enterChild_of_none (pendingChild : before.current.pendingChild = none) :
    before.enterChild = .error (.inconsistent before.current.message.recipient
      "suspended frame without child request") := by
  unfold enterChild
  dsimp only
  rw [pendingChild]

theorem advance_of_success (context : Context) (status : before.current.status = .codeSuccess) :
    before.advance schedule context = before.withWorld (before.current.commit schedule) := by
  unfold advance
  dsimp only
  rw [status]

theorem advance_of_failed (context : Context)
    (status : before.current.status = .revert ∨ before.current.status = .exceptionalHalt) :
    before.advance schedule context = before.withWorld before.current.rollBack := by
  unfold advance
  dsimp only
  rcases status with reverted | halted
  · rw [reverted]
  · rw [halted]

theorem advance_of_completed (context : Context)
    (completed : before.current.status.isCompleted = true) :
    before.advance schedule context = .ok (before.leave schedule) := by
  unfold advance
  dsimp only
  cases settled : before.current.status <;> rw [settled] at completed <;>
    first | rfl | cases completed

theorem transition_of_advance (advanced : before.advance schedule context = .ok (.running after)) :
    Transition schedule context before after := by
  unfold advance at advanced
  dsimp only at advanced
  split at advanced
  · rename_i status
    obtain ⟨ran, parents⟩ := withWorld_running advanced
    exact .starts status ran parents
  · rename_i status
    obtain ⟨machine, ran, made⟩ := bind_eq_ok advanced
    cases made
    exact .steps status ran rfl
  · rename_i status
    unfold enterChild at advanced
    dsimp only at advanced
    split at advanced
    · cases advanced
    · rename_i child pendingChild
      cases advanced
      exact .enters child status pendingChild rfl rfl rfl
  · rename_i status
    obtain ⟨ran, parents⟩ := withWorld_running advanced
    exact .commits status ran parents
  · rename_i status
    obtain ⟨ran, parents⟩ := withWorld_running advanced
    exact .rollsBack (.inl status) ran parents
  · rename_i status
    obtain ⟨ran, parents⟩ := withWorld_running advanced
    exact .rollsBack (.inr status) ran parents
  all_goals
    rename_i status
    obtain ⟨parent, parents, current, world⟩ := leave_running (Except.ok.inj advanced)
    exact .leaves parent (by rw [status]; rfl) parents current world

theorem finished_of_advance {last : Configuration} {root : Frame} {world : JournaledWorld}
    (finished : last.advance schedule context = .ok (.finished root world)) :
    last.current = root ∧ last.world = world ∧ last.parents = [] ∧
      root.status.isCompleted = true := by
  have returned {operation : Journaled Frame} :
      last.withWorld operation ≠ .ok (.finished root world) := by
    unfold withWorld
    split <;> exact nofun
  unfold advance at finished
  dsimp only at finished
  split at finished
  · exact absurd finished returned
  · obtain ⟨machine, _, made⟩ := bind_eq_ok finished
    cases made
  · unfold enterChild at finished
    dsimp only at finished
    split at finished <;> cases finished
  · exact absurd finished returned
  · exact absurd finished returned
  · exact absurd finished returned
  all_goals
    rename_i status
    have left := Except.ok.inj finished
    unfold leave at left
    split at left
    · rename_i waiting
      cases left
      exact ⟨rfl, rfl, waiting, by rw [status]; rfl⟩
    · cases left

end

/-! ## Runs -/

/-- Transitions lead from the first configuration to the other, and on the way at least a
number of frames wait. -/
inductive Reaches (schedule : GasSchedule) (context : Context) (depth : Nat)
    (first : Configuration) : Configuration → Prop where
  | start : Reaches schedule context depth first first
  | advance {middle next : Configuration} (reached : Reaches schedule context depth first middle)
      (advanced : middle.advance schedule context = .ok (.running next))
      (deep : depth ≤ next.parents.length) : Reaches schedule context depth first next

section

variable {schedule : GasSchedule} {context : Context}

theorem Reaches.trans {depth : Nat} {first middle last : Configuration}
    (earlier : Reaches schedule context depth first middle)
    (later : Reaches schedule context depth middle last) :
    Reaches schedule context depth first last := by
  induction later with
  | start => exact earlier
  | advance _ advanced deep ih => exact ih.advance advanced deep

/-- The configuration after a number of transitions, if the run goes on for that long. -/
def iterate (schedule : GasSchedule) (context : Context) :
    Nat → Configuration → Option Configuration
  | 0, configuration => some configuration
  | count + 1, configuration =>
      match configuration.advance schedule context with
      | .ok (.running next) => iterate schedule context count next
      | _ => none

theorem Reaches.of_iterate {count : Nat} {first last : Configuration}
    (iterated : iterate schedule context count first = some last) :
    Reaches schedule context 0 first last := by
  induction count generalizing first with
  | zero =>
      cases iterated
      exact .start
  | succ count ih =>
      unfold iterate at iterated
      split at iterated
      · rename_i next advanced
        exact (Reaches.start.advance advanced (Nat.zero_le _)).trans (ih iterated)
      · cases iterated

/-- A run that ends well ends at a configuration it reached. -/
theorem run_eq_ok {fuel : Nat} {first : Configuration} {root : Frame} {world : JournaledWorld}
    (ran : first.run schedule context fuel = some (.ok (root, world))) :
    ∃ last, Reaches schedule context 0 first last ∧
      last.advance schedule context = .ok (.finished root world) := by
  induction fuel generalizing first with
  | zero => cases ran
  | succ fuel ih =>
      unfold run at ran
      cases advanced : first.advance schedule context with
      | error error =>
          rw [advanced] at ran
          cases ran
      | ok progress =>
          rw [advanced] at ran
          cases progress with
          | finished last after =>
              cases ran
              exact ⟨first, .start, advanced⟩
          | running next =>
              obtain ⟨last, reached, finished⟩ := ih ran
              exact ⟨last, (Reaches.start.advance advanced (Nat.zero_le _)).trans reached, finished⟩

/-- What processing a root frame comes to, its run came to. -/
theorem process_eq_ok {root finished : Frame} {world after : JournaledWorld}
    (ran : process schedule context root world = .ok (finished, after)) :
    ∃ last, Reaches schedule context 0 ⟨root, [], world⟩ last ∧
      last.advance schedule context = .ok (.finished finished after) := by
  let first : Configuration := ⟨root, [], world⟩
  change (first.run schedule context first.transitionBound).getD _ = _ at ran
  cases outcome : first.run schedule context first.transitionBound with
  | none =>
      rw [outcome] at ran
      cases ran
  | some result =>
      rw [outcome] at ran
      exact run_eq_ok (outcome.trans (congrArg some ran))

end

/-! ## Orderly configurations -/

/-- A live frame that failed has nothing recorded, and whoever waits can be resumed. -/
structure Orderly (schedule : GasSchedule) (configuration : Configuration) : Prop where
  failed : configuration.current.status.isFailed = true → configuration.current.Bare
  waits : configuration.current.status = .codeSuspended →
    configuration.current.Resumable schedule
  parents : ∀ parent ∈ configuration.parents, parent.Resumable schedule

section

variable {schedule : GasSchedule} {context : Context} {before after : Configuration}

theorem Orderly.of_status {configuration : Configuration}
    (parents : ∀ parent ∈ configuration.parents, parent.Resumable schedule)
    (status : configuration.current.status = .codeExecuting ∨
      configuration.current.status = .codeSuccess) : Orderly schedule configuration := by
  rcases status with status | status
  · exact ⟨by simp [status, Frame.Status.isFailed], by simp [status], parents⟩
  · exact ⟨by simp [status, Frame.Status.isFailed], by simp [status], parents⟩

theorem Orderly.step (waiting : ∀ parent ∈ after.parents, parent.Resumable schedule)
    (status : before.current.status = .codeExecuting)
    (ran : Machine.step schedule context ⟨before.current, before.world⟩ =
      .ok ⟨after.current, after.world⟩) : Orderly schedule after := by
  rcases Machine.turns_step ran with
    ⟨halted, reason, made, _⟩ | ⟨instruction, decoded, fits, turns, _⟩
  · have current : after.current = halted.frame.halt reason := congrArg Machine.frame made
    refine ⟨fun _ => ?_, fun waits => ?_, waiting⟩
    · rw [current]
      exact Frame.bare_halt _ reason
    · rw [current] at waits
      cases waits
  · obtain ⟨message, _, _, _, _, _, _, turn⟩ := turns
    cases turn with
    | goesOn same _ => exact .of_status waiting (.inl (same.trans status))
    | succeeds ended _ => exact .of_status waiting (.inr ended)
    | reverts ended _ bare =>
        have status : after.current.status = .revert := ended
        exact ⟨fun _ => bare, by simp [status], waiting⟩
    | waits child suspended _ pc stack answerable _ =>
        have suspended : after.current.status = .codeSuspended := suspended
        refine ⟨by simp [suspended, Frame.Status.isFailed], fun _ => ?_, waiting⟩
        refine ⟨instruction, ?_, ?_, answerable⟩
        · rw [← decoded, Frame.currentOpcode, Frame.currentOpcode, message, pc]
        · rw [stack]
          exact fits

theorem Orderly.transition (orderly : Orderly schedule before)
    (transition : Transition schedule context before after) : Orderly schedule after := by
  cases transition with
  | starts _ ran parents =>
      have waiting := parents ▸ orderly.parents
      refine ⟨(Frame.settles_start ran).1.failed, fun waits => ?_, waiting⟩
      rcases (Frame.start_ok ran).status with status | status | status <;>
        simp [status] at waits
  | steps status ran parents => exact .step (parents ▸ orderly.parents) status ran
  | enters child status _ current parents _ =>
      refine ⟨by simp [current, Frame.ofMessage, Frame.Status.isFailed],
        by simp [current, Frame.ofMessage], ?_⟩
      rw [parents]
      intro parent member
      rcases List.mem_cons.mp member with rfl | earlier
      · exact orderly.waits status
      · exact orderly.parents parent earlier
  | commits _ ran parents =>
      have waiting := parents ▸ orderly.parents
      refine ⟨(Frame.settles_commit ran).1.failed, fun waits => ?_, waiting⟩
      rcases (Frame.commit_ok ran).status with status | status <;> simp [status] at waits
  | rollsBack status ran parents =>
      have waiting := parents ▸ orderly.parents
      have current := Frame.rollBack_ok ran
      refine ⟨fun _ => ?_, by simp [current], waiting⟩
      have bare := orderly.failed (by rcases status with status | status <;> rw [status] <;> rfl)
      rw [current]
      exact bare.congr rfl rfl rfl
  | leaves parent _ parents current _ =>
      have resumable := orderly.parents parent (by simp [parents])
      have waiting : ∀ other ∈ after.parents, other.Resumable schedule :=
        fun other member => orderly.parents other (by simp [parents, member])
      apply Orderly.of_status waiting
      rw [current]
      exact .inl (resumable.receives before.current).status

theorem Reaches.orderly {depth : Nat} {first last : Configuration}
    (reached : Reaches schedule context depth first last) (orderly : Orderly schedule first) :
    Orderly schedule last := by
  induction reached with
  | start => exact orderly
  | advance _ advanced _ ih => exact ih.transition (transition_of_advance advanced)

theorem orderly_of_root {root : Frame} (live : root.status.isFailed = false)
    (awake : root.status ≠ .codeSuspended) (world : JournaledWorld) :
    Orderly schedule ⟨root, [], world⟩ :=
  ⟨by simp [live], by simp [awake], by simp⟩

theorem orderly_of_notStarted {root : Frame} (status : root.status = .notStarted)
    (world : JournaledWorld) : Orderly schedule ⟨root, [], world⟩ :=
  orderly_of_root (by rw [status]; rfl) (by simp [status]) world

end

end Configuration

/-! ## Ways back -/

/-- True from the start of a frame to the end of its settlement. -/
def Frame.Status.isUnderWay : Frame.Status → Bool
  | .notStarted | .completedSuccess | .completedFailed => false
  | _ => true

/-- Going back to where each of the frames started, innermost first, leads through worlds
that were held to something, given the frames that waited there. -/
def Rewinds (held : List Frame → JournaledWorld → Prop) : List Frame → JournaledWorld → Prop
  | [], _ => True
  | frame :: frames, world => ∃ began : JournaledWorld,
      frame.checkpoint = some began.journal.length ∧ Continues began world ∧
        held frames began ∧ Rewinds held frames began

namespace Rewinds

variable {held : List Frame → JournaledWorld → Prop} {world after : JournaledWorld}
  {frame other : Frame} {frames : List Frame}

theorem onward (rewinds : Rewinds held (frame :: frames) world) (continues : Continues world after)
    (checkpoint : other.checkpoint = frame.checkpoint) : Rewinds held (other :: frames) after := by
  obtain ⟨began, taken, earlier, holds, rest⟩ := rewinds
  exact ⟨began, checkpoint.trans taken, earlier.trans continues, holds, rest⟩

theorem tail (rewinds : Rewinds held (frame :: frames) world) : Rewinds held frames world := by
  obtain ⟨began, _, continues, _, rest⟩ := rewinds
  cases frames with
  | nil => trivial
  | cons parent frames => exact rest.onward continues rfl

theorem alike (rewinds : Rewinds held frames world) (alike : Alike after world) :
    Rewinds held frames after := by
  cases frames with
  | nil => trivial
  | cons frame frames => exact rewinds.onward (.of_alike alike) rfl

end Rewinds

namespace Configuration

/-- Some of the waiting frames are inner ones. Going back to where they and the live frame
started leads through worlds that were held to something, as is a world in which the live
frame has yet to start or gave up what it wrote. -/
structure Retraces (held : List Frame → JournaledWorld → Prop) (outer inner : List Frame)
    (configuration : Configuration) : Prop where
  parents : configuration.parents = inner ++ outer
  waiting : Rewinds held inner configuration.world
  live : configuration.current.status.isUnderWay = true →
    Rewinds held (configuration.current :: inner) configuration.world
  settled : configuration.current.status = .notStarted ∨
    configuration.current.status = .completedFailed → held inner configuration.world

namespace Retraces

variable {held : List Frame → JournaledWorld → Prop} {outer inner : List Frame}
  {schedule : GasSchedule} {context : Context} {before after : Configuration}

theorem underWay {configuration : Configuration} (parents : configuration.parents = inner ++ outer)
    (rewinds : Rewinds held (configuration.current :: inner) configuration.world)
    (status : configuration.current.status.isUnderWay = true) :
    Retraces held outer inner configuration := by
  refine ⟨parents, rewinds.tail, fun _ => rewinds, fun settled => ?_⟩
  rcases settled with settled | settled <;> rw [settled] at status <;> cases status

theorem step (retraces : Retraces held outer inner before)
    (parents : after.parents = inner ++ outer)
    (status : before.current.status = .codeExecuting)
    (ran : Machine.step schedule context ⟨before.current, before.world⟩ =
      .ok ⟨after.current, after.world⟩) : Retraces held outer inner after := by
  have live := retraces.live (by rw [status]; rfl)
  rcases Machine.turns_step ran with ⟨halted, reason, made, reversible⟩ | ⟨_, _, _, turns, _⟩
  · have current : after.current = halted.frame.halt reason := congrArg Machine.frame made
    have world : after.world = halted.world := congrArg Machine.world made
    refine underWay parents ?_ (by rw [current]; rfl)
    rw [current, world]
    exact live.onward reversible.continues reversible.frame.checkpoint
  · refine underWay parents (live.onward turns.continues turns.checkpoint) ?_
    rcases turns.turn with ⟨same, _⟩ | ⟨ended, _⟩ | ⟨ended, _, _⟩ | ⟨_, suspended, _⟩
    · exact (congrArg Frame.Status.isUnderWay (same.trans status)).trans rfl
    · exact (congrArg Frame.Status.isUnderWay ended).trans rfl
    · exact (congrArg Frame.Status.isUnderWay ended).trans rfl
    · exact (congrArg Frame.Status.isUnderWay suspended).trans rfl

/-- A transition that leaves the outer frames waiting. -/
theorem transition (retraces : Retraces held outer inner before)
    (orderly : Orderly schedule before)
    (alike : ∀ {frames left right}, Alike left right → held frames right → held frames left)
    (enters : before.current.status = .codeSuspended →
      held ({ before.current with pendingChild := none } :: inner) before.world)
    (transition : Transition schedule context before after)
    (deep : outer.length ≤ after.parents.length) :
    ∃ inner, Retraces held outer inner after := by
  cases transition with
  | starts status ran parents =>
      obtain ⟨_, checkpoint, started⟩ := Frame.start_ok ran
      refine ⟨inner, underWay (parents.trans retraces.parents) ?_ ?_⟩
      · exact ⟨before.world, checkpoint, (Frame.settles_start ran).2,
          retraces.settled (.inl status), retraces.waiting⟩
      · rcases started with status | status | status <;> rw [status] <;> rfl
  | steps status ran parents =>
      exact ⟨inner, retraces.step (parents.trans retraces.parents) status ran⟩
  | enters child status _ current parents world =>
      -- The frame that asked becomes the nearest of the inner ones.
      refine ⟨{ before.current with pendingChild := none } :: inner, ?_, ?_, ?_, ?_⟩
      · rw [parents, retraces.parents, List.cons_append]
      · rw [world]
        exact (retraces.live (by rw [status]; rfl)).onward (.refl _) rfl
      · rw [current]
        exact nofun
      · rw [world]
        exact fun _ => enters status
  | commits status ran parents =>
      have live := (retraces.live (by rw [status]; rfl)).onward (Frame.settles_commit ran).2
        (Frame.commit_ok ran).checkpoint
      have parents := parents.trans retraces.parents
      rcases (Frame.commit_ok ran).status with completed | halted
      · exact ⟨inner, parents, live.tail, by simp [completed, Frame.Status.isUnderWay],
          by simp [completed]⟩
      · exact ⟨inner, underWay parents live (by rw [halted]; rfl)⟩
  | rollsBack status ran parents =>
      have live := retraces.live (by rcases status with status | status <;> rw [status] <;> rfl)
      obtain ⟨began, checkpoint, continues, holds, rest⟩ := live
      rw [Frame.rollBack_of_checkpoint _ checkpoint] at ran
      have back : Alike after.world began := by
        injection ran with current world
        rw [← world]
        exact continues.rollback
      have failed : after.current.status = .completedFailed := by
        injection ran with current world
        rw [← current]
      exact ⟨inner, parents.trans retraces.parents, rest.alike back,
        by simp [failed, Frame.Status.isUnderWay], fun _ => alike back holds⟩
  | leaves parent status parents current world =>
      have split := parents.symm.trans retraces.parents
      cases inner with
      | nil =>
          -- An outer frame would go on, above the depth that the run may not leave.
          rw [List.nil_append] at split
          rw [← split, List.length_cons] at deep
          omega
      | cons waiting inner =>
          rw [List.cons_append] at split
          injection split with same rest
          subst same
          have resumable := orderly.parents parent (by simp [parents])
          obtain ⟨_, _, checkpoint, _, _⟩ :=
            Frame.resume_resumed before.current resumable.atRequest
          refine ⟨inner, underWay rest ?_ ?_⟩
          · rw [world, current]
            exact retraces.waiting.onward (.refl _) checkpoint
          · rw [current, (resumable.receives before.current).status]
            rfl

/-- A transition where all frames that wait are inner ones. -/
theorem onward (retraces : Retraces held [] before.parents before)
    (orderly : Orderly schedule before)
    (alike : ∀ {frames left right}, Alike left right → held frames right → held frames left)
    (enters : before.current.status = .codeSuspended →
      held ({ before.current with pendingChild := none } :: before.parents) before.world)
    (transition : Transition schedule context before after) :
    Retraces held [] after.parents after := by
  obtain ⟨inner, retraced⟩ :=
    retraces.transition orderly alike enters transition (Nat.zero_le _)
  have same : after.parents = inner := by simpa using retraced.parents
  exact same ▸ retraced

end Retraces

end Configuration

end ExecutionLayer
