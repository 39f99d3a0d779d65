import ExecutionLayer.Proofs.Execution.Deployments

/-!
# Bystanders

An account without code whose nonce was counted has nothing to run and is no place to deploy to.
So no frame of a run counts its nonce, gives it code or destroys it, however often it is called.
-/

set_option autoImplicit false

namespace ExecutionLayer

open Readings (Alters)

/-- The readings are over a view, and at an address they have a nonce and no code. -/
structure Readings.Shows (view : WorldView) (address : Address) (nonce : UInt64)
    (readings : Readings) : Prop where
  coherent : readings.Coherent
  based : readings.base = view
  stands : readings.standing address = .ok (nonce, Code.empty)

theorem Readings.Shows.alters {view : WorldView} {address : Address} {nonce : UInt64}
    {before after : Readings} {addresses : Set Address} (shows : before.Shows view address nonce)
    (alters : Alters addresses before after) (outside : address ∉ addresses) :
    after.Shows view address nonce :=
  ⟨alters.coherent shows.coherent, alters.base.trans shows.based,
    (alters.standing address outside).trans shows.stands⟩

theorem Readings.Shows.of_read {view : WorldView} {address : Address} {nonce : UInt64}
    {readings : Readings} {found : Option Account} (shows : readings.Shows view address nonce)
    (read : readings.account address = .ok found) :
    (found.getD {}).nonce = nonce ∧ (found.getD {}).code = Code.empty := by
  have stood := (standing_of_read read).symm.trans shows.stands
  rwa [Except.ok.injEq, Prod.mk.injEq] at stood

theorem Readings.Shows.exists_account {view : WorldView} {address : Address} {nonce : UInt64}
    {readings : Readings} (shows : readings.Shows view address nonce) (counted : nonce ≠ 0) :
    ∃ account, readings.account address = .ok (some account) ∧ account.nonce = nonce := by
  obtain ⟨found, read, _⟩ := standing_eq_ok shows.stands
  obtain ⟨rfl, _⟩ := shows.of_read read
  cases found with
  | none => exact absurd rfl counted
  | some account => exact ⟨account, read, rfl⟩

/-- The message has nothing to run for an account, unless it is to create it. -/
def Message.Spares (address : Address) (message : Message) : Prop :=
  message.recipient = address → message.kind = .messageCall → message.code = Code.empty

namespace Frame

/-- No code runs in the frame, and none is to be installed. -/
structure Idle (frame : Frame) : Prop where
  executing : frame.status ≠ .codeExecuting
  suspended : frame.status ≠ .codeSuspended
  creation : frame.status = .codeSuccess → frame.message.kind = .messageCall

/-- The frame does not destroy an account, and what it asks for has nothing to run for it. -/
structure Spares (address : Address) (frame : Frame) : Prop where
  selfDestructs : address ∉ frame.selfDestructs
  pendingChild : ∀ child, frame.pendingChild = some child → child.Spares address

theorem Spares.congr {before after : Frame} {address : Address} (spares : before.Spares address)
    (selfDestructs : ∀ address ∈ after.selfDestructs, address ∈ before.selfDestructs)
    (pendingChild : after.pendingChild = before.pendingChild) : after.Spares address :=
  ⟨mt (selfDestructs address) spares.selfDestructs, pendingChild ▸ spares.pendingChild⟩

theorem spares_ofMessage (address : Address) (message : Message)
    (warmAddresses : Std.ExtTreeSet Address) (warmSlots : Std.ExtTreeSet SlotId) :
    (ofMessage message warmAddresses warmSlots).Spares address :=
  ⟨Std.ExtTreeSet.not_mem_empty, nofun⟩

end Frame

namespace Configuration

/-- An account stands by: it has a counted nonce and no code, here and wherever a frame can go
back to, and no code runs for it. -/
structure StandsBy (view : WorldView) (address : Address) (nonce : UInt64)
    (configuration : Configuration) : Prop where
  shows : configuration.world.readings.Shows view address nonce
  back : Retraces (fun _ world => world.readings.Shows view address nonce) []
    configuration.parents configuration
  live : configuration.current.Spares address
  message : configuration.current.message.Spares address
  idle : configuration.current.message.recipient = address → configuration.current.Idle
  waiting : ∀ parent ∈ configuration.parents,
    parent.Spares address ∧ parent.message.recipient ≠ address

namespace StandsBy

variable {schedule : GasSchedule} {context : Context} {view : WorldView} {address : Address}
  {nonce : UInt64} {before after : Configuration}

theorem executing (standsBy : StandsBy view address nonce before)
    (status : before.current.status = .codeExecuting ∨ before.current.status = .codeSuspended) :
    before.current.message.recipient ≠ address := by
  intro own
  obtain ⟨executing, suspended, _⟩ := standsBy.idle own
  exact status.elim executing suspended

/-- Where there is a counted nonce nothing is founded, and a call has nothing to run. -/
theorem opens {started : Frame} {later : Readings} (counted : nonce ≠ 0)
    (standsBy : StandsBy view address nonce before)
    (opens : before.current.Opens started before.world.readings later)
    (message : started.message = before.current.message)
    (awake : started.status ≠ .codeSuspended) :
    later.Shows view address nonce ∧
      (started.message.recipient = address → started.Idle) := by
  cases opens with
  | calls kind alters runs =>
      refine ⟨standsBy.shows.alters alters (Set.notMem_empty address), fun own => ?_⟩
      rw [message] at own
      refine ⟨fun executing => ?_, awake, fun _ => message ▸ kind⟩
      have written := runs executing
      rw [standsBy.message own kind] at written
      cases written
  | collides kind alters status =>
      exact ⟨standsBy.shows.alters alters (Set.notMem_empty address),
        fun _ => ⟨by simp [status], awake, by simp [status]⟩⟩
  | founds kind alters vacant _ =>
      have elsewhere : before.current.message.recipient ≠ address := by
        intro own
        rw [own] at vacant
        cases standsBy.shows.stands.symm.trans vacant
        exact counted rfl
      exact ⟨standsBy.shows.alters alters (Ne.symm elsewhere),
        fun own => absurd (message ▸ own) elsewhere⟩

theorem step (standsBy : StandsBy view address nonce before)
    (status : before.current.status = .codeExecuting)
    (ran : Machine.step schedule context ⟨before.current, before.world⟩ =
      .ok ⟨after.current, after.world⟩) :
    after.world.readings.Shows view address nonce ∧ after.current.Spares address ∧
      after.current.message = before.current.message := by
  obtain ⟨message, counts, selfDestructs⟩ := Machine.keepsForeign_step ran
  have elsewhere := standsBy.executing (.inl status)
  have shows : after.world.readings.Shows view address nonce :=
    standsBy.shows.alters counts.toAlters (Ne.symm elsewhere)
  refine ⟨shows, ⟨fun member => ?_, fun child asked own kind => ?_⟩, message⟩
  · rcases selfDestructs address member with earlier | own
    · exact standsBy.live.selfDestructs earlier
    · exact elsewhere own.symm
  · rcases Machine.asksFairly_step ran child asked with
      earlier | creation | same | ⟨other, stands⟩
    · exact standsBy.live.pendingChild child earlier own kind
    · cases kind.symm.trans creation
    · exact absurd (same.symm.trans own) elsewhere
    · rw [own, shows.stands, Except.ok.injEq, Prod.mk.injEq] at stands
      exact stands.2.symm

theorem closes (standsBy : StandsBy view address nonce before)
    (status : before.current.status = .codeSuccess)
    (closes : before.current.Closes after.current before.world after.world) :
    after.world.readings.Shows view address nonce := by
  cases closes with
  | keeps same => exact same ▸ standsBy.shows
  | installs kind _ _ _ alters _ _ =>
      have elsewhere : before.current.message.recipient ≠ address := by
        intro own
        cases ((standsBy.idle own).creation status).symm.trans kind
      exact standsBy.shows.alters alters (Ne.symm elsewhere)

theorem resume {parent : Frame} (standsBy : StandsBy view address nonce before)
    (resumable : parent.Resumable schedule) (spares : parent.Spares address) :
    (parent.resume schedule before.current).Spares address := by
  obtain ⟨_, pendingChild, _⟩ := Frame.resume_resumed before.current resumable.atRequest
  refine ⟨fun member => ?_, pendingChild ▸ spares.pendingChild⟩
  rcases (resumable.receives before.current).selfDestructs address member with own | taken
  · exact spares.selfDestructs own
  · exact standsBy.live.selfDestructs taken

theorem transition (counted : nonce ≠ 0) (standsBy : StandsBy view address nonce before)
    (orderly : Orderly schedule before)
    (transition : Transition schedule context before after) :
    StandsBy view address nonce after := by
  have back : Retraces (fun _ world => world.readings.Shows view address nonce) []
      after.parents after :=
    standsBy.back.onward orderly
      (fun alike shows => shows.alters (.of_eq alike.readings) (Set.notMem_empty address))
      (fun _ => standsBy.shows) transition
  obtain ⟨shows, _, live, message, idle, waiting⟩ := id standsBy
  cases transition with
  | starts status ran parents =>
      obtain ⟨⟨sameMessage, pendingChild, _⟩, _, started⟩ := Frame.start_ok ran
      have awake : after.current.status ≠ .codeSuspended := by
        rcases started with started | started | started <;> simp [started]
      obtain ⟨showsAfter, idleAfter⟩ :=
        standsBy.opens counted (Frame.opens_start ran) sameMessage awake
      exact ⟨showsAfter, back, live.congr (Frame.settles_start ran).1.selfDestructs pendingChild,
        sameMessage ▸ message, idleAfter, parents ▸ waiting⟩
  | steps status ran parents =>
      obtain ⟨showsAfter, liveAfter, sameMessage⟩ := standsBy.step status ran
      refine ⟨showsAfter, back, liveAfter, sameMessage ▸ message, fun own => ?_, parents ▸ waiting⟩
      exact absurd (sameMessage ▸ own) (standsBy.executing (.inl status))
  | enters child status pendingChild current parents world =>
      refine ⟨world ▸ shows, back, ?_, ?_, fun _ => ?_, ?_⟩
      · rw [current]
        exact Frame.spares_ofMessage address child _ _
      · rw [current]
        exact live.pendingChild child pendingChild
      · rw [current]
        exact ⟨nofun, nofun, nofun⟩
      · rw [parents]
        intro parent member
        rcases List.mem_cons.mp member with rfl | earlier
        · exact ⟨⟨live.selfDestructs, nofun⟩, standsBy.executing (.inr status)⟩
        · exact waiting parent earlier
  | commits status ran parents =>
      obtain ⟨⟨sameMessage, pendingChild, _⟩, _, committed⟩ := Frame.commit_ok ran
      have liveAfter := live.congr (Frame.settles_commit ran).1.selfDestructs pendingChild
      have ended : after.current.Idle := by
        rcases committed with committed | committed <;>
          exact ⟨by simp [committed], by simp [committed], by simp [committed]⟩
      exact ⟨standsBy.closes status (Frame.closes_commit ran), back, liveAfter,
        sameMessage ▸ message, fun _ => ended, parents ▸ waiting⟩
  | rollsBack status ran parents =>
      have current := Frame.rollBack_ok ran
      refine ⟨back.settled (.inr (by rw [current])), back, ?_, ?_, fun _ => ?_, parents ▸ waiting⟩
      · rw [current]
        exact live.congr (fun _ => id) rfl
      · rw [current]
        exact message
      · rw [current]
        exact ⟨nofun, nofun, nofun⟩
  | leaves parent status parents current world =>
      have resumable := orderly.parents parent (by simp [parents])
      have sameMessage := Frame.message_resume schedule parent before.current
      obtain ⟨spares, elsewhere⟩ := waiting parent (by simp [parents])
      refine ⟨world ▸ shows, back, ?_, ?_, fun own => ?_, fun other member => ?_⟩
      · rw [current]
        exact standsBy.resume resumable spares
      · rw [current, sameMessage]
        exact fun own => absurd own elsewhere
      · rw [current, sameMessage] at own
        exact absurd own elsewhere
      · exact waiting other (by simp [parents, member])

theorem of_reaches {first last : Configuration} {depth : Nat} (counted : nonce ≠ 0)
    (standsBy : StandsBy view address nonce first) (orderly : Orderly schedule first)
    (reached : Reaches schedule context depth first last) : StandsBy view address nonce last := by
  induction reached with
  | start => exact standsBy
  | advance earlier advanced _ ih =>
      exact ih.transition counted (earlier.orderly orderly) (transition_of_advance advanced)

theorem of_root {root : Frame} {world : JournaledWorld} (status : root.status = .notStarted)
    (shows : world.readings.Shows view address nonce) (live : root.Spares address)
    (message : root.message.Spares address) :
    StandsBy view address nonce ⟨root, [], world⟩ := by
  refine ⟨shows, ⟨rfl, trivial, fun underWay => ?_, fun _ => shows⟩, live, message, fun _ => ?_,
    by simp⟩
  · rw [status] at underWay
    cases underWay
  · exact ⟨by simp [status], by simp [status], by simp [status]⟩

end StandsBy

end Configuration

open ExecutionLayer.Configuration in
/-- A run leaves the account as it is, and does not destroy it. -/
theorem process_standsBy {schedule : GasSchedule} {context : Context} {root finished : Frame}
    {world after : JournaledWorld} {view : WorldView} {address : Address} {nonce : UInt64}
    (status : root.status = .notStarted) (counted : nonce ≠ 0)
    (shows : world.readings.Shows view address nonce) (live : root.Spares address)
    (message : root.message.Spares address)
    (ran : process schedule context root world = .ok (finished, after)) :
    after.readings.Shows view address nonce ∧ address ∉ finished.selfDestructs := by
  obtain ⟨last, reached, ended⟩ := process_eq_ok ran
  obtain ⟨rfl, rfl, _⟩ := finished_of_advance ended
  have standsBy := (StandsBy.of_root status shows live message).of_reaches counted
    (orderly_of_notStarted status world) reached
  exact ⟨standsBy.shows, standsBy.live.selfDestructs⟩

end ExecutionLayer
