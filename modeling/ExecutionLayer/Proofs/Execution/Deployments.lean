import ExecutionLayer.Proofs.Execution.Recursion
import ExecutionLayer.Proofs.Instruction.Foreign
import ExecutionLayer.Proofs.World.Rollback

/-!
# Deployments

Over a run no nonce shrinks and no code is replaced. Code comes only to accounts that had none,
as the output of a creation that succeeded. While creations run, each has an address of its own
where a nonce is counted and no code is installed.
-/

set_option autoImplicit false

namespace ExecutionLayer

open JournaledWorld (Alike Continues)
open Readings (Alters Counts)

namespace Frame

/-! ## Starts and settlements -/

/-- What the start of a frame does to nonces and codes. -/
inductive Opens (frame started : Frame) (before after : Readings) : Prop where
  | calls (kind : frame.message.kind = .messageCall) (alters : Alters ∅ before after)
      (runs : started.status = .codeExecuting → frame.message.code.isEmpty = false)
  | collides (kind : frame.message.kind = .contractCreation) (alters : Alters ∅ before after)
      (status : started.status = .exceptionalHalt)
  | founds (kind : frame.message.kind = .contractCreation)
      (alters : Alters {frame.message.recipient} before after)
      (vacant : before.standing frame.message.recipient = .ok (0, Code.empty))
      (founded : after.standing frame.message.recipient = .ok (1, Code.empty))

theorem opens_start {frame started : Frame} {world after : JournaledWorld}
    (ran : frame.start world = .ok started after) :
    frame.Opens started world.readings after.readings := by
  cases kind : frame.message.kind with
  | messageCall =>
      rw [start_of_call kind] at ran
      obtain ⟨transferred, course⟩ := startCall_cases ran
      refine .calls kind (Journaled.alters_transfer transferred) fun executing => ?_
      obtain ⟨contract, rfl⟩ | rfl | ⟨written, rfl⟩ := course
      · obtain ⟨_, _, ended | ended⟩ := runPrecompile_ages (frame.checkpointed world) contract <;>
          cases ended.symm.trans executing
      · cases executing
      · exact written
  | contractCreation =>
      rw [start_of_creation kind] at ran
      obtain ⟨asked, rfl⟩ | ⟨answered, created, asked, creation, transferred, rfl⟩ :=
        startCreation_cases ran
      · obtain ⟨same, _⟩ := Journaled.blocksDeployment_ok asked
        exact .collides kind (.of_eq same) rfl
      · obtain ⟨same, vacant⟩ := Journaled.blocksDeployment_ok asked
        obtain ⟨founds, founded⟩ := Journaled.createContract_ok creation
        have moves := Journaled.alters_transfer transferred
        rw [same] at founds
        exact .founds kind (founds.trans moves.widen) (vacant.mp rfl)
          ((moves.stands _).trans founded)

/-- What the settlement of a frame whose code ended does to nonces and codes. -/
inductive Closes (frame committed : Frame) (before after : JournaledWorld) : Prop where
  | keeps (same : after = before)
  | installs (kind : frame.message.kind = .contractCreation)
      (status : committed.status = .completedSuccess) (nonce : UInt64) (former : Code)
      (alters : Alters {frame.message.recipient} before.readings after.readings)
      (stood : before.readings.standing frame.message.recipient = .ok (nonce, former))
      (stands : after.readings.standing frame.message.recipient =
        .ok (nonce, Code.ofBytes committed.output))

theorem closes_commit {schedule : GasSchedule} {frame committed : Frame}
    {world after : JournaledWorld} (ran : frame.commit schedule world = .ok committed after) :
    frame.Closes committed world after := by
  obtain ⟨same, _⟩ | ⟨kind, amount, payer, paid, deploy, rfl⟩ := commit_cases ran
  · exact .keeps same
  · rw [(useGas_ages paid).1.message] at deploy
    obtain ⟨alters, nonce, former, stood, stands⟩ := Journaled.setCode_ok deploy
    exact .installs kind rfl nonce former alters stood stands

/-! ## Sites -/

/-- The addresses that the creations among the frames deploy to. -/
def sites (frames : List Frame) : List Address :=
  (frames.filter fun frame => frame.message.kind = .contractCreation).map (·.message.recipient)

theorem sites_of_call {frame : Frame} (kind : frame.message.kind = .messageCall)
    (frames : List Frame) : sites (frame :: frames) = sites frames := by
  simp [sites, kind]

theorem sites_of_creation {frame : Frame} (kind : frame.message.kind = .contractCreation)
    (frames : List Frame) : sites (frame :: frames) = frame.message.recipient :: sites frames := by
  simp [sites, kind]

theorem sites_congr {frame other : Frame} (message : other.message = frame.message)
    (frames : List Frame) : sites (other :: frames) = sites (frame :: frames) := by
  simp only [sites, List.filter_cons, message]
  split <;> simp [message]

/-- Each creation has an address of its own, founded and without code. -/
structure Sited (frames : List Frame) (readings : Readings) : Prop where
  distinct : (sites frames).Nodup
  founded : ∀ address ∈ sites frames, ∃ nonce, 0 < nonce ∧
    readings.standing address = .ok (nonce, Code.empty)

namespace Sited

variable {frame other : Frame} {frames : List Frame} {readings before after : Readings}
  {addresses : Set Address}

theorem congr (message : other.message = frame.message) (sited : Sited (frame :: frames) readings) :
    Sited (other :: frames) readings := by
  obtain ⟨distinct, founded⟩ := sited
  rw [← sites_congr message] at distinct founded
  exact ⟨distinct, founded⟩

theorem counts (sited : Sited frames before) (counts : Counts addresses before after) :
    Sited frames after := by
  refine ⟨sited.distinct, fun address member => ?_⟩
  obtain ⟨nonce, positive, stands⟩ := sited.founded address member
  obtain ⟨later, grown, still⟩ := counts.grown address nonce Code.empty stands
  exact ⟨later, UInt64.lt_of_lt_of_le positive grown, still⟩

/-- A call adds no site. -/
theorem call (kind : frame.message.kind = .messageCall) (sited : Sited frames readings) :
    Sited (frame :: frames) readings := by
  obtain ⟨distinct, founded⟩ := sited
  rw [← sites_of_call kind] at distinct founded
  exact ⟨distinct, founded⟩

theorem tail (sited : Sited (frame :: frames) readings) : Sited frames readings := by
  obtain ⟨distinct, founded⟩ := sited
  cases kind : frame.message.kind with
  | messageCall =>
      rw [sites_of_call kind] at distinct founded
      exact ⟨distinct, founded⟩
  | contractCreation =>
      rw [sites_of_creation kind] at distinct founded
      exact ⟨distinct.of_cons, fun address member => founded address (.tail _ member)⟩

theorem alters {address : Address} (sited : Sited frames before)
    (alters : Alters {address} before after) (elsewhere : address ∉ sites frames) :
    Sited frames after := by
  refine ⟨sited.distinct, fun other member => ?_⟩
  obtain ⟨nonce, positive, stands⟩ := sited.founded other member
  have apart : other ∉ ({address} : Set Address) := by
    rintro rfl
    exact elsewhere member
  exact ⟨nonce, positive, (alters.standing other apart).trans stands⟩

theorem found (kind : frame.message.kind = .contractCreation) (sited : Sited frames before)
    (alters : Alters {frame.message.recipient} before after)
    (vacant : before.standing frame.message.recipient = .ok (0, Code.empty))
    (founded : after.standing frame.message.recipient = .ok (1, Code.empty)) :
    Sited (frame :: frames) after := by
  -- Where another creation runs a nonce is counted, so the address is none of theirs.
  have elsewhere : frame.message.recipient ∉ sites frames := by
    intro member
    obtain ⟨nonce, positive, stands⟩ := sited.founded _ member
    cases vacant.symm.trans stands
    cases positive
  have others := sited.alters alters elsewhere
  constructor
  · rw [sites_of_creation kind]
    exact List.nodup_cons.mpr ⟨elsewhere, sited.distinct⟩
  · rw [sites_of_creation kind]
    intro address member
    rcases List.mem_cons.mp member with rfl | other
    · exact ⟨1, by decide, founded⟩
    · exact others.founded address other

theorem settle (kind : frame.message.kind = .contractCreation)
    (sited : Sited (frame :: frames) before)
    (alters : Alters {frame.message.recipient} before after) : Sited frames after := by
  have distinct := sited.distinct
  rw [sites_of_creation kind] at distinct
  exact sited.tail.alters alters (List.nodup_cons.mp distinct).1

end Sited

end Frame

namespace Configuration

/-! ## Growth -/

/-- A creation succeeded here with the code as its output, and what it wrote stays. -/
structure Deploys (ended : Configuration) (address : Address) (code : Code)
    (world : JournaledWorld) : Prop where
  kind : ended.current.message.kind = .contractCreation
  recipient : ended.current.message.recipient = address
  status : ended.current.status = .completedSuccess
  output : Code.ofBytes ended.current.output = code
  continues : Continues ended.world world

/-- Since the first configuration no nonce shrank, and code came only where there was none, from
creations on the way. -/
def Grown (schedule : GasSchedule) (context : Context) (first : Configuration)
    (world : JournaledWorld) : Prop :=
  ∀ address nonce code, first.world.readings.standing address = .ok (nonce, code) →
    ∃ later now, nonce ≤ later ∧ world.readings.standing address = .ok (later, now) ∧
      (now = code ∨ code = Code.empty ∧ ∃ ended, Reaches schedule context 0 first ended ∧
        ended.Deploys address now world)

/-- The world grew since the first configuration, and the creations among the frames have their
sites. -/
structure Growing (schedule : GasSchedule) (context : Context) (first : Configuration)
    (frames : List Frame) (world : JournaledWorld) : Prop where
  grown : Grown schedule context first world
  sited : Frame.Sited frames world.readings

section

variable {schedule : GasSchedule} {context : Context} {first before after : Configuration}
  {frames : List Frame} {world later : JournaledWorld} {addresses : Set Address}

theorem Deploys.onward {ended : Configuration} {address : Address} {code : Code}
    (deploys : ended.Deploys address code world) (continues : Continues world later) :
    ended.Deploys address code later :=
  ⟨deploys.kind, deploys.recipient, deploys.status, deploys.output,
    deploys.continues.trans continues⟩

namespace Grown

theorem start (first : Configuration) : Grown schedule context first first.world :=
  fun _ nonce code stands => ⟨nonce, code, UInt64.le_refl nonce, stands, .inl rfl⟩

/-- Nonces may be counted up, and code may come where there is none, with the reason for it. -/
theorem onward (grown : Grown schedule context first world) (continues : Continues world later)
    (grows : ∀ address nonce code, world.readings.standing address = .ok (nonce, code) →
      ∃ more now, nonce ≤ more ∧ later.readings.standing address = .ok (more, now) ∧
        (now = code ∨ code = Code.empty ∧ ∃ ended, Reaches schedule context 0 first ended ∧
          ended.Deploys address now later)) :
    Grown schedule context first later := by
  intro address nonce code began
  obtain ⟨between, middle, le, stands, came⟩ := grown address nonce code began
  obtain ⟨more, now, leMore, standsNow, cameNow⟩ := grows address between middle stands
  refine ⟨more, now, UInt64.le_trans le leMore, standsNow, ?_⟩
  rcases cameNow with rfl | ⟨rfl, arrived⟩
  · rcases came with same | ⟨vacant, ended, reached, deploys⟩
    · exact .inl same
    · exact .inr ⟨vacant, ended, reached, deploys.onward continues⟩
  · -- There was no code right before, so there was none at the start.
    rcases came with rfl | ⟨rfl, _⟩ <;> exact .inr ⟨rfl, arrived⟩

theorem counts (grown : Grown schedule context first world) (continues : Continues world later)
    (counts : Counts addresses world.readings later.readings) :
    Grown schedule context first later := by
  refine grown.onward continues fun address nonce code stands => ?_
  obtain ⟨more, le, still⟩ := counts.grown address nonce code stands
  exact ⟨more, code, le, still, .inl rfl⟩

theorem alters {address : Address} (grown : Grown schedule context first world)
    (continues : Continues world later) (alters : Alters {address} world.readings later.readings)
    {nonce more : UInt64} {code now : Code} (le : nonce ≤ more)
    (stood : world.readings.standing address = .ok (nonce, code))
    (stands : later.readings.standing address = .ok (more, now))
    (came : now = code ∨ code = Code.empty ∧ ∃ ended, Reaches schedule context 0 first ended ∧
      ended.Deploys address now later) :
    Grown schedule context first later := by
  refine grown.onward continues fun other nonceOther codeOther standsOther => ?_
  by_cases here : other = address
  · subst here
    cases stood.symm.trans standsOther
    exact ⟨more, now, le, stands, came⟩
  · exact ⟨nonceOther, codeOther, UInt64.le_refl _, (alters.standing other here).trans standsOther,
      .inl rfl⟩

end Grown

namespace Growing

theorem alike {left right : JournaledWorld} (alike : Alike left right)
    (growing : Growing schedule context first frames right) :
    Growing schedule context first frames left := by
  obtain ⟨grown, sited⟩ := growing
  have counts : Counts ∅ right.readings left.readings := .of_eq alike.readings
  exact ⟨grown.counts (.of_alike alike) counts, sited.counts counts⟩

theorem counts (growing : Growing schedule context first frames world)
    (continues : Continues world later)
    (counts : Counts addresses world.readings later.readings) :
    Growing schedule context first frames later :=
  ⟨growing.grown.counts continues counts, growing.sited.counts counts⟩

theorem congr {frame other : Frame} (message : other.message = frame.message)
    (growing : Growing schedule context first (frame :: frames) world) :
    Growing schedule context first (other :: frames) world :=
  ⟨growing.grown, growing.sited.congr message⟩

theorem tail {frame : Frame} (growing : Growing schedule context first (frame :: frames) world) :
    Growing schedule context first frames world :=
  ⟨growing.grown, growing.sited.tail⟩

theorem opens {frame started : Frame} (growing : Growing schedule context first frames world)
    (continues : Continues world later)
    (opens : frame.Opens started world.readings later.readings)
    (fine : started.status.isFailed = false) :
    Growing schedule context first (frame :: frames) later := by
  cases opens with
  | calls kind alters _ =>
      have counts : Counts ∅ world.readings later.readings := .of_alters alters
      obtain ⟨grown, sited⟩ := growing.counts continues counts
      exact ⟨grown, sited.call kind⟩
  | collides _ _ status =>
      rw [status] at fine
      cases fine
  | founds kind alters vacant founded =>
      exact ⟨growing.grown.alters continues alters UInt64.zero_le vacant founded (.inl rfl),
        growing.sited.found kind alters vacant founded⟩

end Growing

/-! ## Runs -/

/-- While a frame may still succeed, the world grows with its site among the others, and so it
does wherever a frame can go back to. -/
structure Develops (schedule : GasSchedule) (context : Context)
    (first configuration : Configuration) : Prop where
  back : Retraces (Growing schedule context first) [] configuration.parents configuration
  live : configuration.current.status.isUnderWay = true →
    configuration.current.status.isFailed = false →
      Growing schedule context first (configuration.current :: configuration.parents)
        configuration.world
  completed : configuration.current.status = .completedSuccess →
    Growing schedule context first configuration.parents configuration.world

namespace Develops

theorem commit (reached : Reaches schedule context 0 first after)
    (growing : Growing schedule context first (before.current :: before.parents) before.world)
    (message : after.current.message = before.current.message)
    (continues : Continues before.world after.world)
    (closes : before.current.Closes after.current before.world after.world) :
    Growing schedule context first before.parents after.world := by
  cases closes with
  | keeps same => exact same ▸ growing.tail
  | installs kind status nonce former alters stood stands =>
      obtain ⟨grown, sited⟩ := growing
      -- Up to here nothing was installed at the site that was founded for the frame.
      have founded := sited.founded before.current.message.recipient (by
        rw [Frame.sites_of_creation kind]
        exact .head _)
      obtain ⟨counted, _, vacant⟩ := founded
      cases stood.symm.trans vacant
      refine ⟨grown.alters continues alters (UInt64.le_refl _) stood stands ?_,
        sited.settle kind alters⟩
      exact .inr ⟨rfl, after, reached, by rw [message, kind], by rw [message], status, rfl,
        .refl _⟩

theorem transition (develops : Develops schedule context first before)
    (orderly : Orderly schedule before) (reached : Reaches schedule context 0 first after)
    (transition : Transition schedule context before after) :
    Develops schedule context first after := by
  obtain ⟨back, live, completed⟩ := develops
  have backAfter : Retraces (Growing schedule context first) [] after.parents after := by
    refine back.onward orderly (fun alike => Growing.alike alike) (fun suspended => ?_) transition
    have growing := live (by rw [suspended]; rfl) (by rw [suspended]; rfl)
    exact @Growing.congr _ _ _ _ _ before.current _ rfl growing
  cases transition with
  | starts status ran parents =>
      obtain ⟨message, _, _⟩ := (Frame.start_ok ran).ages
      have opens := Frame.opens_start ran
      have growing := back.settled (.inl status)
      refine ⟨backAfter, fun _ fine => ?_, fun done => ?_⟩
      · rw [parents]
        exact (growing.opens (Frame.settles_start ran).2 opens fine).congr message
      · rcases (Frame.start_ok ran).status with started | started | started <;>
          cases started.symm.trans done
  | steps status ran parents =>
      have growing := live (by rw [status]; rfl) (by rw [status]; rfl)
      have keeps := Machine.keepsForeign_step ran
      refine ⟨backAfter, fun _ _ => ?_, fun done => ?_⟩
      · rw [parents]
        exact (growing.counts (Machine.continues_step ran) keeps.counts).congr keeps.message
      · have underWay : after.current.status.isUnderWay = true :=
          @Machine.underWay_step _ _ ⟨before.current, before.world⟩ _ status ran
        rw [done] at underWay
        cases underWay
  | enters child status _ current parents world =>
      refine ⟨backAfter, fun underWay => ?_, fun done => ?_⟩
      · rw [current] at underWay
        cases underWay
      · rw [current] at done
        cases done
  | commits status ran parents =>
      have growing := live (by rw [status]; rfl) (by rw [status]; rfl)
      have message := (Frame.commit_ok ran).ages.message
      have closes := Frame.closes_commit ran
      refine ⟨backAfter, fun underWay fine => ?_, fun _ => ?_⟩
      · -- A frame that is committed is completed or halted.
        rcases (Frame.commit_ok ran).status with settled | settled
        · rw [settled] at underWay
          cases underWay
        · rw [settled] at fine
          cases fine
      · rw [parents]
        exact commit reached growing message (Frame.settles_commit ran).2 closes
  | rollsBack status ran parents =>
      have current := Frame.rollBack_ok ran
      refine ⟨backAfter, fun underWay => ?_, fun done => ?_⟩
      · rw [current] at underWay
        cases underWay
      · rw [current] at done
        cases done
  | leaves parent status parents current world =>
      have resumable := orderly.parents parent (by simp [parents])
      have resumed := (resumable.receives before.current).status
      have growing : Growing schedule context first (parent :: after.parents) after.world := by
        rw [← parents, world]
        cases settled : before.current.status <;> rw [settled] at status <;> try cases status
        · exact completed settled
        · exact back.settled (.inr settled)
      refine ⟨backAfter, fun _ _ => ?_, fun done => ?_⟩
      · rw [current]
        exact growing.congr (Frame.message_resume schedule parent before.current)
      · rw [current, resumed] at done
        cases done

theorem of_root {root : Frame} (status : root.status = .notStarted) (world : JournaledWorld) :
    Develops schedule context ⟨root, [], world⟩ ⟨root, [], world⟩ := by
  refine ⟨⟨rfl, trivial, fun underWay => ?_, fun _ => ⟨.start _, ?_⟩⟩, fun underWay => ?_,
    fun done => ?_⟩
  · rw [status] at underWay
    cases underWay
  · exact ⟨.nil, nofun⟩
  · rw [status] at underWay
    cases underWay
  · rw [status] at done
    cases done

theorem of_reaches {last : Configuration} (develops : Develops schedule context first first)
    (orderly : Orderly schedule first) (reached : Reaches schedule context 0 first last) :
    Develops schedule context first last := by
  induction reached with
  | start => exact develops
  | advance earlier advanced deep ih =>
      exact ih.transition (earlier.orderly orderly) (earlier.advance advanced deep)
        (transition_of_advance advanced)

end Develops

end

end Configuration

open ExecutionLayer.Configuration in
/-- Whatever a run does, no nonce is smaller after it, and code that an account had is the code
that it has. Where the code is another, there was none, and the code is the output of a creation
at that address that succeeded and was not undone. -/
theorem process_keeps_code {schedule : GasSchedule} {context : Context} {root finished : Frame}
    {world after : JournaledWorld} (status : root.status = .notStarted)
    (ran : process schedule context root world = .ok (finished, after)) {address : Address}
    {nonce : UInt64} {code : Code} (counted : (Journaled.nonce address).answer world = .ok nonce)
    (held : (Journaled.code address).answer world = .ok code) :
    ∃ later now, (Journaled.nonce address).answer after = .ok later ∧
      (Journaled.code address).answer after = .ok now ∧ nonce ≤ later ∧
      (code.isEmpty = false → now = code) ∧
      (now ≠ code → code.isEmpty = true ∧ ∃ ended,
        Reaches schedule context 0 ⟨root, [], world⟩ ended ∧ ended.Deploys address now after) := by
  obtain ⟨last, reached, ended⟩ := process_eq_ok ran
  obtain ⟨rfl, rfl, parents, completed⟩ := finished_of_advance ended
  have develops := (Develops.of_root status world).of_reaches
    (orderly_of_notStarted status world) reached
  have growing : Growing schedule context ⟨root, [], world⟩ last.parents last.world := by
    cases settled : last.current.status <;> rw [settled] at completed <;> try cases completed
    · exact develops.completed settled
    · exact develops.back.settled (.inr settled)
  rw [Journaled.answer_nonce] at counted
  rw [Journaled.answer_code] at held
  rw [Journaled.answer_nonce, Journaled.answer_code]
  cases stood : world.readings.standing address with
  | error error =>
      rw [stood] at counted
      cases counted
  | ok standing =>
      rw [stood] at counted held
      cases counted
      cases held
      obtain ⟨later, now, le, stands, came⟩ := growing.grown address _ _ stood
      rw [stands]
      refine ⟨later, now, rfl, rfl, le, fun written => ?_, fun changed => ?_⟩
      · refine came.resolve_right fun ⟨vacant, _⟩ => ?_
        rw [vacant] at written
        cases written
      · obtain ⟨vacant, deployed⟩ := came.resolve_left changed
        exact ⟨Code.isEmpty_iff.mpr vacant, deployed⟩

/-! ## A creation -/

namespace Creation

/-- Returns a single byte, zero. -/
def initCode : Code :=
  .ofBytes [0x60, 1, 0x60, 0, 0xF3]

def view : WorldView where
  account _ := .ok none
  storage _ _ := .ok 0

def context : Context :=
  ⟨{}, {}, fun _ => none⟩

def message : Message where
  kind := .contractCreation
  recipient := 10
  contract := 10
  code := initCode
  gas := 50000

def root : Frame :=
  .ofMessage message ∅ ∅

end Creation

open Creation ExecutionLayer.Configuration in
/-- The byte becomes the code of an account that had none. -/
theorem creation_deploys :
    ∃ finished after,
      process (.ofFork .berlin) context root { base := view } = .ok (finished, after) ∧
      (Journaled.code 10).answer { base := view } = .ok Code.empty ∧
      (Journaled.code 10).answer after = .ok (.ofBytes [0]) ∧
      ∃ ended, Reaches (.ofFork .berlin) context 0 ⟨root, [], { base := view }⟩ ended ∧
        ended.Deploys 10 (.ofBytes [0]) after := by
  have evaluated : (process (.ofFork .berlin) context root { base := view }).toOption.any
      (fun result => ((Journaled.code 10).answer result.2).toOption == some (.ofBytes [0])) =
        true := by
    decide +kernel
  cases ran : process (.ofFork .berlin) context root { base := view } with
  | error error =>
      rw [ran] at evaluated
      cases evaluated
  | ok result =>
      obtain ⟨finished, after⟩ := result
      rw [ran] at evaluated
      have counted : (Journaled.nonce 10).answer { base := view } = .ok 0 := rfl
      have held : (Journaled.code 10).answer { base := view } = .ok Code.empty := rfl
      obtain ⟨later, now, _, stands, _, _, came⟩ := process_keeps_code rfl ran counted held
      simp only [Except.toOption, Option.any_some, stands, beq_iff_eq, Option.some.injEq] at evaluated
      subst evaluated
      obtain ⟨_, ended, reached, deploys⟩ := came (by decide)
      exact ⟨finished, after, rfl, rfl, stands, ended, reached, deploys⟩

end ExecutionLayer
