import ExecutionLayer.Proofs.Execution.Transitions
import ExecutionLayer.Proofs.World.Rollback

/-!
# Runs that may only read

A call that may only read, with all calls and creations that its code tries, leaves every
account and every slot as it was, and nothing recorded. Value may move from an account to
itself on the way, and accounts may be touched.
-/

set_option autoImplicit false

namespace ExecutionLayer

open JournaledWorld (Alike Continues)

/-! ## Worlds that read alike -/

/-- Accounts and slots are the same to every read. -/
structure JournaledWorld.ReadsAlike (left right : JournaledWorld) : Prop where
  account : right.readings.account = left.readings.account
  slot : right.readings.slot = left.readings.slot

namespace JournaledWorld.ReadsAlike

variable {left middle right : JournaledWorld}

theorem of_readings (same : right.readings = left.readings) : left.ReadsAlike right :=
  ⟨congrArg Readings.account same, congrArg Readings.slot same⟩

theorem trans (first : left.ReadsAlike middle) (second : middle.ReadsAlike right) :
    left.ReadsAlike right :=
  ⟨second.account.trans first.account, second.slot.trans first.slot⟩

end JournaledWorld.ReadsAlike

namespace Journaled

open JournaledWorld

/-- What an account gives to itself it has again. -/
theorem credit_of_debit {address : Address} {amount : Word} {account debited credited : Account}
    (debit : account.debit address amount = .ok debited)
    (credit : debited.credit address amount = .ok credited) : credited = account := by
  unfold Account.debit at debit
  unfold Account.credit at credit
  split at debit
  · cases debit
    split at credit
    · cases credit
      simp only [BitVec.sub_add_cancel]
    · cases credit
  · cases debit

theorem eq_some_of_debit {address : Address} {amount : Word} {found : Option Account}
    {debited : Account} (moves : amount ≠ 0)
    (debit : (found.getD {}).debit address amount = .ok debited) :
    found = some (found.getD {}) := by
  cases found with
  | some account => rfl
  | none =>
      unfold Account.debit at debit
      split at debit
      · rename_i le
        exact absurd (BitVec.le_zero_iff.mp le) moves
      · cases debit

theorem readsAlike_transfer_self {address : Address} {value : Word} {world after : JournaledWorld}
    (moves : value ≠ 0) (ran : transfer address address value world = .ok () after) :
    world.ReadsAlike after := by
  unfold transfer at ran
  rw [if_neg moves] at ran
  obtain ⟨_, between, debited, credited⟩ := bind_eq_ok ran
  obtain ⟨found, less, read, debit, readings⟩ := modifyAccount_ok debited
  obtain ⟨foundLess, same, readLess, credit, readingsAfter⟩ := modifyAccount_ok credited
  have still : foundLess = some less := by
    simp only [readings, Readings.writeAccount, if_pos] at readLess
    exact (Except.ok.inj readLess).symm
  subst still
  have back : some same = found := by
    rw [eq_some_of_debit moves debit, credit_of_debit debit credit]
  constructor
  · rw [readingsAfter, readings]
    funext other
    simp only [Readings.writeAccount]
    split
    · rename_i here
      rw [← here, read, back]
    · rfl
  · rw [readingsAfter, readings]
    rfl

theorem readsAlike_transfer {sender recipient : Address} {value : Word}
    {world after : JournaledWorld} (still : value = 0 ∨ sender = recipient)
    (ran : transfer sender recipient value world = .ok () after) : world.ReadsAlike after := by
  by_cases moves : value = 0
  · unfold transfer at ran
    rw [if_pos moves] at ran
    have readings := (follows_touch recipient).modify_eq_ok ran
    constructor <;> rw [readings] <;> rfl
  · obtain rfl := still.resolve_left moves
    exact readsAlike_transfer_self moves ran

end Journaled

namespace Frame

theorem readsAlike_start {frame started : Frame} {world after : JournaledWorld}
    (readOnly : frame.message.ReadOnly) (ran : frame.start world = .ok started after) :
    world.ReadsAlike after := by
  rw [start_of_call readOnly.kind] at ran
  exact Journaled.readsAlike_transfer readOnly.value (startCall_cases ran).1

theorem world_commit {schedule : GasSchedule} {frame committed : Frame}
    {world after : JournaledWorld} (kind : frame.message.kind = .messageCall)
    (ran : frame.commit schedule world = .ok committed after) : after = world := by
  obtain ⟨same, _⟩ | ⟨creation, _⟩ := commit_cases ran
  · exact same
  · rw [kind] at creation
    cases creation

/-- The frame may only read, recorded nothing, and asks only for children of the kind. -/
structure Confined (frame : Frame) : Prop where
  readOnly : frame.message.ReadOnly
  bare : frame.Bare
  pendingChild : ∀ child, frame.pendingChild = some child → child.ReadOnly

theorem Confined.congr {before after : Frame} (confined : before.Confined)
    (message : after.message = before.message) (bare : after.Bare)
    (pendingChild : after.pendingChild = before.pendingChild) : after.Confined :=
  ⟨message ▸ confined.readOnly, bare, pendingChild ▸ confined.pendingChild⟩

theorem confined_ofMessage {message : Message} (readOnly : message.ReadOnly)
    (warmAddresses : Std.ExtTreeSet Address) (warmSlots : Std.ExtTreeSet SlotId) :
    (ofMessage message warmAddresses warmSlots).Confined :=
  ⟨readOnly, ⟨rfl, rfl, rfl⟩, by simp [ofMessage]⟩

end Frame

namespace Configuration

/-- No frame may do more than read, and the world reads as at the start, here and wherever a
frame can go back to. -/
structure Confined (start : JournaledWorld) (configuration : Configuration) : Prop where
  live : configuration.current.Confined
  waiting : ∀ parent ∈ configuration.parents, parent.Confined
  reads : start.ReadsAlike configuration.world
  back : ∃ inner, Retraces (fun _ => start.ReadsAlike) [] inner configuration

namespace Confined

variable {schedule : GasSchedule} {context : Context} {start : JournaledWorld}
  {before after : Configuration}

/-- A step of a frame that may only read asks the world and writes nothing. -/
theorem step (confined : Confined start before)
    (ran : Machine.step schedule context ⟨before.current, before.world⟩ =
      .ok ⟨after.current, after.world⟩) :
    after.current.Confined ∧ start.ReadsAlike after.world := by
  have isStatic := confined.live.readOnly.isStatic
  rcases Machine.turns_step ran with ⟨halted, reason, made, reversible⟩ | ⟨_, _, _, turns, _⟩
  · have current : after.current = halted.frame.halt reason := congrArg Machine.frame made
    have world : after.world = halted.world := congrArg Machine.world made
    rw [current, world]
    exact ⟨confined.live.congr reversible.frame.message (Frame.bare_halt _ reason)
      reversible.frame.pendingChild,
      confined.reads.trans (.of_readings (reversible.readings isStatic))⟩
  · obtain ⟨message, _, _, readings, _, _, bare, turn⟩ := turns
    refine ⟨?_, confined.reads.trans (.of_readings (readings isStatic))⟩
    have bare := bare isStatic confined.live.bare
    rcases turn with ⟨_, same⟩ | ⟨_, same⟩ | ⟨_, same, _⟩ | ⟨child, _, asked, _, _, _, readOnly⟩
    · exact confined.live.congr message bare same
    · exact confined.live.congr message bare same
    · exact confined.live.congr message bare same
    · refine ⟨message ▸ confined.live.readOnly, bare, fun other pending => ?_⟩
      cases asked.symm.trans pending
      exact readOnly isStatic

theorem transition (confined : Confined start before) (orderly : Orderly schedule before)
    (transition : Transition schedule context before after) : Confined start after := by
  obtain ⟨live, waiting, reads, inner, retraces⟩ := confined
  have back : ∃ inner, Retraces (fun _ => start.ReadsAlike) [] inner after := by
    refine retraces.transition orderly ?_ (fun _ => reads) transition (Nat.zero_le _)
    intro _ left right alike held
    exact held.trans (.of_readings alike.readings)
  cases transition with
  | starts status ran parents =>
      obtain ⟨message, pendingChild, _⟩ := (Frame.start_ok ran).ages
      exact ⟨live.congr message ((Frame.settles_start ran).1.bare live.bare) pendingChild,
        parents ▸ waiting, reads.trans (Frame.readsAlike_start live.readOnly ran), back⟩
  | steps status ran parents =>
      obtain ⟨liveAfter, readsAfter⟩ := Confined.step ⟨live, waiting, reads, inner, retraces⟩ ran
      exact ⟨liveAfter, parents ▸ waiting, readsAfter, back⟩
  | enters child status pendingChild current parents world =>
      refine ⟨?_, ?_, world ▸ reads, back⟩
      · rw [current]
        exact Frame.confined_ofMessage (live.pendingChild child pendingChild) _ _
      · rw [parents]
        intro parent member
        rcases List.mem_cons.mp member with rfl | earlier
        · exact ⟨live.readOnly, live.bare.congr rfl rfl rfl, by simp⟩
        · exact waiting parent earlier
  | commits status ran parents =>
      obtain ⟨message, pendingChild, _⟩ := (Frame.commit_ok ran).ages
      exact ⟨live.congr message ((Frame.settles_commit ran).1.bare live.bare) pendingChild,
        parents ▸ waiting, Frame.world_commit live.readOnly.kind ran ▸ reads, back⟩
  | rollsBack status ran parents =>
      -- No frame is undone further than to its own start, which read as the world does.
      have current := Frame.rollBack_ok ran
      obtain ⟨left, retracesAfter⟩ := back
      have reads := retracesAfter.settled (.inr (by rw [current]))
      refine ⟨?_, parents ▸ waiting, reads, left, retracesAfter⟩
      rw [current]
      exact live.congr rfl (live.bare.congr rfl rfl rfl) rfl
  | leaves parent status parents current world =>
      have resumable := orderly.parents parent (by simp [parents])
      obtain ⟨message, pendingChild, _⟩ := Frame.resume_resumed before.current resumable.atRequest
      have parentConfined := waiting parent (by simp [parents])
      refine ⟨?_, ?_, world ▸ reads, back⟩
      · rw [current]
        exact parentConfined.congr message
          ((resumable.receives before.current).bare parentConfined.bare live.bare) pendingChild
      · intro other member
        exact waiting other (by simp [parents, member])

theorem of_reaches {depth : Nat} {first last : Configuration}
    (confined : Confined start first) (orderly : Orderly schedule first)
    (reached : Reaches schedule context depth first last) : Confined start last := by
  induction reached with
  | start => exact confined
  | advance earlier advanced _ ih =>
      exact ih.transition (earlier.orderly orderly) (transition_of_advance advanced)

theorem of_root {root : Frame} (confined : root.Confined) (status : root.status = .notStarted)
    (world : JournaledWorld) : Confined world ⟨root, [], world⟩ := by
  refine ⟨confined, by simp, .of_readings rfl, [], rfl, trivial, ?_, fun _ => .of_readings rfl⟩
  rw [status]
  exact nofun

end Confined

end Configuration

open Journaled in
/-- Whatever the code of a call that may only read does, no account and no slot reads
otherwise after it, and the finished frame has nothing recorded. -/
theorem process_readOnly {schedule : GasSchedule} {context : Context} {message : Message}
    {warmAddresses : Std.ExtTreeSet Address} {warmSlots : Std.ExtTreeSet SlotId}
    {world after : JournaledWorld} {finished : Frame} (kind : message.kind = .messageCall)
    (isStatic : message.isStatic = true) (value : message.value = 0)
    (ran : process schedule context (.ofMessage message warmAddresses warmSlots) world =
      .ok (finished, after)) :
    (∀ address, (account address).answer after = (account address).answer world) ∧
      (∀ address slot, (storage address slot).answer after = (storage address slot).answer world) ∧
      finished.logs = [] ∧ finished.selfDestructs = ∅ ∧ finished.refund = 0 := by
  let root := Frame.ofMessage message warmAddresses warmSlots
  have confined : Configuration.Confined world ⟨root, [], world⟩ :=
    .of_root (Frame.confined_ofMessage ⟨kind, isStatic, .inl value⟩ _ _) rfl world
  obtain ⟨last, reached, ended⟩ := Configuration.process_eq_ok ran
  obtain ⟨rfl, rfl, _⟩ := Configuration.finished_of_advance ended
  obtain ⟨⟨_, bare, _⟩, _, reads, _⟩ :=
    confined.of_reaches (Configuration.orderly_of_notStarted rfl world) reached
  refine ⟨fun address => ?_, fun address slot => ?_, bare.logs, bare.selfDestructs, bare.refund⟩
  · rw [(follows_account address).answer_ask, (follows_account address).answer_ask, reads.account]
  · rw [(follows_storage address slot).answer_ask, (follows_storage address slot).answer_ask,
      reads.slot]

/-! ## A payment to itself -/

namespace SelfPayment

/-- Tries to write its first slot. -/
def writer : Code :=
  .ofBytes [0x60, 1, 0x60, 0, 0x55]

/-- Runs the code of the account at eleven with one unit of its own. -/
def payer : Code :=
  .ofBytes [0x60, 0, 0x60, 0, 0x60, 0, 0x60, 0, 0x60, 1, 0x60, 11, 0x61, 0x03, 0xE8, 0xF2]

def view : WorldView where
  account address :=
    .ok (if address = 10 then some { balance := 5, code := payer }
      else if address = 11 then some { code := writer } else none)
  storage _ _ := .ok 0

def context : Context :=
  ⟨{}, {}, fun _ => none⟩

def message : Message :=
  { recipient := 10, contract := 10, code := payer, gas := 20000, isStatic := true }

end SelfPayment

open SelfPayment in
theorem selfPayment_readOnly :
    ∃ finished after,
      process (.ofFork .berlin) context (.ofMessage message ∅ ∅) { base := view } =
        .ok (finished, after) ∧
      finished.status = .completedSuccess ∧ finished.logs = [] ∧
      (Journaled.account 10).answer after = (Journaled.account 10).answer { base := view } := by
  have evaluated : (process (.ofFork .berlin) context (.ofMessage message ∅ ∅)
      { base := view }).toOption.any (fun result => result.1.status == .completedSuccess) =
        true := by
    decide +kernel
  cases ran : process (.ofFork .berlin) context (.ofMessage message ∅ ∅) { base := view } with
  | error error =>
      rw [ran] at evaluated
      cases evaluated
  | ok result =>
      rw [ran] at evaluated
      obtain ⟨accounts, _, logs, _⟩ := process_readOnly rfl rfl rfl ran
      exact ⟨result.1, result.2, rfl, beq_iff_eq.mp evaluated, logs, accounts 10⟩

end ExecutionLayer
