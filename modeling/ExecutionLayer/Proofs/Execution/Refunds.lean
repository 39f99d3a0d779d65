import ExecutionLayer.Proofs.Execution.Gas
import ExecutionLayer.Proofs.Instruction.Stores
import ExecutionLayer.Proofs.World.Commitment

/-!
# Refunds over a run

A frame may take back a refund that another frame got, so its own counter can be negative.
The counters of the live frame and of all that wait together cover the slots that are emptied,
and no counter reaches the end of its range, since each unit of gas moves it by so much only.
-/

set_option autoImplicit false

namespace ExecutionLayer

open JournaledWorld (Alike)

namespace Gas

theorem natAbs_saturateRefund_le (refund : Int) : (saturateRefund refund).natAbs ≤ refund.natAbs := by
  unfold saturateRefund refundBound
  omega

theorem saturateRefund_of_lt {refund : Int} (small : refund.natAbs < 2 ^ 63) :
    saturateRefund refund = refund := by
  unfold saturateRefund refundBound
  omega

end Gas

/-- The refund for an emptied slot is one that a store's price bounds. -/
structure GasSchedule.Refundable (schedule : GasSchedule) : Prop where
  nonneg : 0 ≤ schedule.storeClearRefund
  atMost : schedule.storeClearRefund ≤ 19900

theorem GasSchedule.refundable_ofFork (fork : Fork) : (GasSchedule.ofFork fork).Refundable := by
  cases fork <;> exact ⟨by decide, by decide⟩

/-! ## Slots at the start and the settlement of a frame -/

namespace Frame

variable {frame : Frame} {world after : JournaledWorld}

theorem emptied_startCall {started : Frame} (ran : frame.startCall world = .ok started after) :
    after.readings.emptied ⊆ world.readings.emptied :=
  (Journaled.storageAlike_transfer (startCall_cases ran).1).emptied.le

theorem emptied_startCreation {started : Frame}
    (ran : frame.startCreation world = .ok started after) :
    after.readings.emptied ⊆ world.readings.emptied := by
  have asks {isTaken : Bool} {answered : JournaledWorld}
      (asked : Journaled.blocksDeployment frame.message.recipient world = .ok isTaken answered) :
      answered.readings = world.readings :=
    (Journaled.asks_question (fun account => account.any Account.blocksDeployment) _ _ _ _
      asked).1
  obtain ⟨asked, _⟩ | ⟨answered, created, asked, creation, transferred, _⟩ :=
    startCreation_cases ran
  · rw [asks asked]
  · rw [(Journaled.storageAlike_transfer transferred).emptied, ← asks asked]
    exact Journaled.emptied_createContract_subset creation

theorem emptied_start {started : Frame} (ran : frame.start world = .ok started after) :
    after.readings.emptied ⊆ world.readings.emptied := by
  cases kind : frame.message.kind with
  | messageCall =>
      rw [start_of_call kind] at ran
      exact emptied_startCall ran
  | contractCreation =>
      rw [start_of_creation kind] at ran
      exact emptied_startCreation ran

theorem storageAlike_commit {schedule : GasSchedule} {committed : Frame}
    (ran : frame.commit schedule world = .ok committed after) :
    world.readings.StorageAlike after.readings := by
  obtain ⟨rfl, _⟩ | ⟨_, _, payer, _, deploy, _⟩ := commit_cases ran
  · exact .refl _
  · exact Journaled.storageAlike_modifyAccount deploy

end Frame

namespace Configuration

/-! ## Counters of all frames -/

/-- The refund counters of frames together. -/
def refunds (frames : List Frame) : Int :=
  (frames.map (·.refund)).sum

/-- How far the counters are from zero, with how far the gas of all frames can move them. -/
def swing (configuration : Configuration) : Nat :=
  configuration.current.refund.natAbs + (configuration.parents.map (·.refund.natAbs)).sum +
    StoreCharge.swing * configuration.totalGas

/-- The counters of the frames cover the refund for each slot that is emptied. -/
def Covers (clearRefund : Int) (frames : List Frame) (world : JournaledWorld) : Prop :=
  clearRefund * world.readings.emptied.ncard ≤ refunds frames

section

variable {schedule : GasSchedule} {context : Context} {before after : Configuration}

theorem Covers.alike {clearRefund : Int} {frames : List Frame} {left right : JournaledWorld}
    (alike : Alike left right) (covers : Covers clearRefund frames right) :
    Covers clearRefund frames left := by
  unfold Covers
  rw [alike.readings]
  exact covers

/-- What a transition within one frame does to its counter: it drops it with what the frame
wrote, or moves it by an amount that was paid for and that covers what becomes of the slots. -/
inductive Adjusts (clearRefund : Int) (before after : Configuration) : Prop where
  | drops (failed : after.current.status.isFailed = true) (refund : after.current.refund = 0)
      (gas : after.current.heldGas ≤ before.current.heldGas)
  | moves (amount : Int) (live : before.current.status.isFailed = false)
      (refund : after.current.refund = before.current.refund + amount)
      (covers : clearRefund * after.world.readings.emptied.ncard ≤
        clearRefund * before.world.readings.emptied.ncard + amount)
      (paid : amount.natAbs + StoreCharge.swing * after.current.heldGas ≤
        StoreCharge.swing * before.current.heldGas)

theorem Adjusts.of_subset {clearRefund : Int} (nonneg : 0 ≤ clearRefund)
    (live : before.current.status.isFailed = false)
    (refund : after.current.refund = before.current.refund)
    (slots : after.world.readings.emptied ⊆ before.world.readings.emptied)
    (gas : after.current.heldGas ≤ before.current.heldGas) :
    Adjusts clearRefund before after := by
  have fewer : (after.world.readings.emptied.ncard : Int) ≤
      before.world.readings.emptied.ncard :=
    Int.ofNat_le.mpr (Set.ncard_le_ncard slots)
  have covers := Int.mul_le_mul_of_nonneg_left fewer nonneg
  have paid := Nat.mul_le_mul_left StoreCharge.swing gas
  exact .moves 0 live (by omega) (by omega) (by omega)

theorem Adjusts.of_settles {clearRefund : Int} (nonneg : 0 ≤ clearRefund)
    (live : before.current.status.isFailed = false)
    (settles : before.current.Settles after.current)
    (slots : after.world.readings.emptied ⊆ before.world.readings.emptied)
    (gas : after.current.heldGas ≤ before.current.heldGas) :
    Adjusts clearRefund before after := by
  cases failed : after.current.status.isFailed with
  | true => exact .drops failed (settles.failed failed).refund gas
  | false => exact .of_subset nonneg live (settles.refund failed) slots gas

theorem adjusts_store (refundable : schedule.Refundable)
    (room : before.current.refund.natAbs + StoreCharge.swing * before.current.heldGas < 2 ^ 63)
    (status : before.current.status = .codeExecuting)
    (stores : Machine.Stores schedule.storeClearRefund ⟨before.current, before.world⟩
      ⟨after.current, after.world⟩) :
    Adjusts schedule.storeClearRefund before after := by
  obtain ⟨amount, cost, refund, covers, small, paid⟩ :=
    stores.moves refundable.nonneg refundable.atMost (by rw [status]; rfl)
  obtain ⟨_, _, _, _, _, _, _, _, _, pendingChild, _⟩ := stores
  have held : after.current.heldGas + cost ≤ before.current.heldGas :=
    Frame.heldGas_add_le pendingChild paid
  have scaled := Nat.mul_le_mul_left StoreCharge.swing held
  rw [Nat.mul_add] at scaled
  have inRange : (before.current.refund + amount).natAbs < 2 ^ 63 := by omega
  rw [Gas.saturateRefund_of_lt inRange] at refund
  exact .moves amount (by rw [status]; rfl) refund covers (by omega)

theorem adjusts_step (refundable : schedule.Refundable)
    (room : before.current.refund.natAbs + StoreCharge.swing * before.current.heldGas < 2 ^ 63)
    (status : before.current.status = .codeExecuting)
    (ran : Machine.step schedule context ⟨before.current, before.world⟩ =
      .ok ⟨after.current, after.world⟩) :
    Adjusts schedule.storeClearRefund before after := by
  have gas : after.current.heldGas ≤ before.current.heldGas := by
    rcases heldGas_step schedule.charges_zero status ran with ⟨_, gas⟩ | ⟨_, gas⟩ <;> exact gas
  rcases Machine.turns_step ran with
    ⟨halted, reason, made, _⟩ | ⟨instruction, _, _, turns, count, moved, executed, made⟩
  · have current : after.current = halted.frame.halt reason := congrArg Machine.frame made
    exact .drops (by rw [current]; rfl) (by rw [current]; rfl) gas
  by_cases store : instruction = .sstore
  · subst store
    have stores := (Machine.stores_execute executed).advance count
    rw [← made] at stores
    exact adjusts_store refundable room status stores
  · have kept (going : after.current.status ≠ .revert) :
        Adjusts schedule.storeClearRefund before after :=
      .of_subset refundable.nonneg (by rw [status]; rfl) (turns.refund store going)
          (turns.slots store).emptied.le gas
    cases turns.turn with
    | goesOn same _ =>
        have executing : after.current.status = .codeExecuting := same.trans status
        exact kept (by simp [executing])
    | succeeds ended _ =>
        have ended : after.current.status = .codeSuccess := ended
        exact kept (by simp [ended])
    | reverts ended _ bare => exact .drops (by rw [ended]; rfl) bare.refund gas
    | waits _ ended _ _ _ _ _ =>
        have ended : after.current.status = .codeSuspended := ended
        exact kept (by simp [ended])

/-- A transition adjusts the counter of the live frame, hands over to a child with a fresh
counter, or gives the child's counter to the frame that waited. -/
theorem Transition.adjusts (refundable : schedule.Refundable) (orderly : Orderly schedule before)
    (handedOver : before.HandedOver)
    (room : before.current.refund.natAbs + StoreCharge.swing * before.current.heldGas < 2 ^ 63)
    (transition : Transition schedule context before after) :
    (after.parents = before.parents ∧ Adjusts schedule.storeClearRefund before after) ∨
      (before.current.status = .codeSuspended ∧ after.current.status = .notStarted ∧
        after.current.refund = 0 ∧ after.world = before.world ∧
        after.parents = { before.current with pendingChild := none } :: before.parents) ∨
      ∃ parent, before.parents = parent :: after.parents ∧ after.world = before.world ∧
        (before.current.status = .completedSuccess ∧
            after.current.refund = Gas.saturateRefund (parent.refund + before.current.refund) ∨
          before.current.status = .completedFailed ∧ after.current.refund = parent.refund) := by
  cases transition with
  | starts status ran parents =>
      obtain ⟨_, pendingChild, gas⟩ := (Frame.start_ok ran).ages
      exact .inl ⟨parents, .of_settles refundable.nonneg (by rw [status]; rfl) (Frame.settles_start ran).1
        (Frame.emptied_start ran) (Frame.heldGas_le pendingChild gas)⟩
  | steps status ran parents => exact .inl ⟨parents, adjusts_step refundable room status ran⟩
  | enters child status _ current parents world =>
      exact .inr (.inl ⟨status, by rw [current]; rfl, by rw [current]; rfl, world, parents⟩)
  | commits status ran parents =>
      obtain ⟨_, pendingChild, gas⟩ := (Frame.commit_ok ran).ages
      exact .inl ⟨parents, .of_settles refundable.nonneg (by rw [status]; rfl) (Frame.settles_commit ran).1
        (Frame.storageAlike_commit ran).emptied.le (Frame.heldGas_le pendingChild gas)⟩
  | rollsBack status ran parents =>
      have current := Frame.rollBack_ok ran
      have bare := orderly.failed (by rcases status with status | status <;> rw [status] <;> rfl)
      exact .inl ⟨parents, .drops (by rw [current]; rfl) (by rw [current]; exact bare.refund)
        (by rw [current]; exact Nat.le_refl _)⟩
  | leaves parent status parents current world =>
      obtain ⟨suspended, _⟩ := handedOver parent (by simp [parents])
      have receives :=
        (orderly.parents parent (by simp [parents])).receives before.current
      rw [← current] at receives
      refine .inr (.inr ⟨parent, parents, world, ?_⟩)
      cases ended : before.current.status with
      | completedSuccess =>
          refine .inl ⟨rfl, ?_⟩
          rw [receives.refund ended, Frame.addRefund, if_pos (by rw [suspended]; rfl)]
      | completedFailed =>
          exact .inr ⟨rfl, (receives.unchanged (by simp [ended])).refund⟩
      | _ =>
          rw [ended] at status
          cases status

theorem room_of_swing {configuration : Configuration} (bounded : configuration.swing < 2 ^ 63) :
    configuration.current.refund.natAbs + StoreCharge.swing * configuration.current.heldGas <
      2 ^ 63 := by
  rw [swing, totalGas_eq, Nat.mul_add] at bounded
  omega

theorem Transition.swing_le (refundable : schedule.Refundable) (orderly : Orderly schedule before)
    (handedOver : before.HandedOver) (bounded : before.swing < 2 ^ 63)
    (transition : Transition schedule context before after) : after.swing ≤ before.swing := by
  have gas := Nat.mul_le_mul_left StoreCharge.swing (transition.totalGas_le handedOver)
  rcases transition.adjusts refundable orderly handedOver (room_of_swing bounded) with
    ⟨parents, adjusts⟩ | ⟨_, _, refund, _, parents⟩ | ⟨parent, parents, _, refund⟩
  · cases adjusts with
    | drops _ refund _ =>
        rw [swing, swing, parents, refund]
        omega
    | moves amount _ refund _ paid =>
        rw [swing, swing, totalGas_eq, totalGas_eq, Nat.mul_add, Nat.mul_add, parents, refund]
        omega
  · rw [swing, swing, parents, refund, List.map_cons, List.sum_cons]
    dsimp only
    omega
  · rw [swing, swing, parents, List.map_cons, List.sum_cons]
    rcases refund with ⟨_, refund⟩ | ⟨_, refund⟩
    · have merged := Gas.natAbs_saturateRefund_le (parent.refund + before.current.refund)
      rw [← refund] at merged
      omega
    · rw [refund]
      omega

end

/-- The counters together cover the emptied slots, here and wherever a frame above the root
can go back to. The root need not go back: if it fails, nothing is left of its counter. -/
structure Metered (schedule : GasSchedule) (configuration : Configuration) : Prop where
  bounded : configuration.swing < 2 ^ 63
  live : configuration.current.status.isFailed = false →
    Covers schedule.storeClearRefund (configuration.current :: configuration.parents)
      configuration.world
  back : configuration.parents = [] ∨ ∃ root inner,
    Retraces (fun frames => Covers schedule.storeClearRefund (frames ++ [root])) [root] inner
      configuration

namespace Metered

variable {schedule : GasSchedule} {context : Context} {before after : Configuration}

theorem back_transition (metered : Metered schedule before) (orderly : Orderly schedule before)
    (transition : Transition schedule context before after) :
    after.parents = [] ∨ ∃ root inner,
      Retraces (fun frames => Covers schedule.storeClearRefund (frames ++ [root])) [root] inner
        after := by
  obtain ⟨_, live, back⟩ := metered
  rcases back with alone | ⟨root, inner, retraces⟩
  · cases transition with
    | starts _ _ parents => exact .inl (parents.trans alone)
    | steps _ _ parents => exact .inl (parents.trans alone)
    | commits _ _ parents => exact .inl (parents.trans alone)
    | rollsBack _ _ parents => exact .inl (parents.trans alone)
    | leaves _ _ parents _ _ =>
        rw [alone] at parents
        cases parents
    | enters child status _ current parents world =>
        -- The first child of the root: it takes its checkpoint here.
        refine .inr ⟨{ before.current with pendingChild := none }, [], ?_, trivial, ?_, fun _ => ?_⟩
        · rw [parents, alone]
          rfl
        · rw [current]
          exact nofun
        · have covers := live (by rw [status]; rfl)
          rw [alone] at covers
          rw [world]
          exact covers
  · by_cases deep : after.parents = []
    · exact .inl deep
    · refine .inr ⟨root, retraces.transition orderly Covers.alike ?_ transition
        (List.length_pos_iff.mpr deep)⟩
      intro status
      have covers := live (by rw [status]; rfl)
      rw [retraces.parents] at covers
      exact covers

theorem transition (metered : Metered schedule before) (refundable : schedule.Refundable)
    (orderly : Orderly schedule before) (handedOver : before.HandedOver)
    (transition : Transition schedule context before after) : Metered schedule after := by
  refine ⟨(transition.swing_le refundable orderly handedOver metered.bounded).trans_lt
    metered.bounded, fun fine => ?_, metered.back_transition orderly transition⟩
  unfold Covers refunds
  rw [List.map_cons, List.sum_cons]
  rcases transition.adjusts refundable orderly handedOver (room_of_swing metered.bounded) with
    ⟨parents, adjusts⟩ | ⟨status, _, refund, world, parents⟩ | ⟨parent, parents, world, refund⟩
  · cases adjusts with
    | drops failed _ _ =>
        rw [fine] at failed
        cases failed
    | moves amount live refund covers _ =>
        have earlier := metered.live live
        unfold Covers refunds at earlier
        rw [List.map_cons, List.sum_cons] at earlier
        rw [parents, refund]
        omega
  · have earlier := metered.live (by rw [status]; rfl)
    unfold Covers refunds at earlier
    rw [List.map_cons, List.sum_cons] at earlier
    rw [parents, refund, world, List.map_cons, List.sum_cons]
    dsimp only
    omega
  · rcases refund with ⟨status, refund⟩ | ⟨status, refund⟩
    · have earlier := metered.live (by rw [status]; rfl)
      unfold Covers refunds at earlier
      have bounded := metered.bounded
      rw [swing, parents, List.map_cons, List.sum_cons] at bounded
      rw [parents, List.map_cons, List.map_cons, List.sum_cons, List.sum_cons] at earlier
      rw [refund, world, Gas.saturateRefund_of_lt (by omega)]
      omega
    · -- Of a child that failed nothing is left, and the slots are as they were before it.
      rcases metered.back with alone | ⟨root, inner, retraces⟩
      · rw [alone] at parents
        cases parents
      · have settled := retraces.settled (.inr status)
        rw [← retraces.parents, parents] at settled
        unfold Covers refunds at settled
        rw [List.map_cons, List.sum_cons] at settled
        rw [refund, world]
        exact settled

theorem of_reaches {depth : Nat} {first last : Configuration} (metered : Metered schedule first)
    (refundable : schedule.Refundable) (orderly : Orderly schedule first)
    (handedOver : first.HandedOver) (reached : Reaches schedule context depth first last) :
    Metered schedule last := by
  induction reached with
  | start => exact metered
  | advance earlier advanced _ ih =>
      exact ih.transition refundable (earlier.orderly orderly) (earlier.handedOver handedOver)
        (transition_of_advance advanced)

theorem of_root {root : Frame} {world : JournaledWorld} (refund : root.refund = 0)
    (gas : root.gas.toNat ≤ 2 ^ 55) (pendingChild : root.pendingChild = none)
    (unwritten : world.readings.StorageUnwritten) : Metered schedule ⟨root, [], world⟩ := by
  refine ⟨?_, fun _ => ?_, .inl rfl⟩
  · rw [swing, totalGas_of_root pendingChild, refund, StoreCharge.swing]
    simp only [Int.natAbs_zero, List.map_nil, List.sum_nil]
    omega
  · unfold Covers refunds
    simp [unwritten.emptied, refund]

end Metered

/-! ## Roots that never run -/

/-- The root failed, or waits for a child that it never asked for. -/
structure Stuck (configuration : Configuration) : Prop where
  parents : configuration.parents = []
  refund : configuration.current.refund = 0
  pendingChild : configuration.current.pendingChild = none
  status : configuration.current.status.isFailed = true ∨
    configuration.current.status = .codeSuspended

theorem Stuck.transition {schedule : GasSchedule} {context : Context}
    {before after : Configuration} (stuck : before.Stuck)
    (transition : Transition schedule context before after) : after.Stuck := by
  obtain ⟨alone, refund, pendingChild, stopped⟩ := stuck
  cases transition with
  | starts status _ _ => simp [status, Frame.Status.isFailed] at stopped
  | steps status _ _ => simp [status, Frame.Status.isFailed] at stopped
  | commits status _ _ => simp [status, Frame.Status.isFailed] at stopped
  | enters child _ asked _ _ _ =>
      rw [pendingChild] at asked
      cases asked
  | rollsBack _ ran parents =>
      have current := Frame.rollBack_ok ran
      exact ⟨parents.trans alone, by rw [current]; exact refund, by rw [current]; exact pendingChild,
        .inl (by rw [current]; rfl)⟩
  | leaves _ _ parents _ _ =>
      rw [alone] at parents
      cases parents

theorem Reaches.stuck {schedule : GasSchedule} {context : Context} {depth : Nat}
    {first last : Configuration} (reached : Reaches schedule context depth first last)
    (stuck : first.Stuck) : last.Stuck := by
  induction reached with
  | start => exact stuck
  | advance _ advanced _ ih => exact ih.transition (transition_of_advance advanced)

end Configuration

/-! ## From the root to the end -/

theorem Readings.Coherent.storageUnwritten {readings : Readings} (coherent : readings.Coherent)
    (unwritten : ∀ address slot, readings.writtenSlot address slot = none) :
    readings.StorageUnwritten := by
  intro address slot
  rw [coherent.slot, unwritten]

open ExecutionLayer.Configuration in
/-- A root that begins without a refund and without a child, in a world in which no slot was
written yet, is never finished with a negative counter, whatever it and its descendants
store. -/
theorem process_refund_nonneg {fork : Fork} {context : Context} {root finished : Frame}
    {world after : JournaledWorld} (refund : root.refund = 0) (gas : root.gas.toNat ≤ 2 ^ 55)
    (pendingChild : root.pendingChild = none) (unwritten : world.readings.StorageUnwritten)
    (ran : process (.ofFork fork) context root world = .ok (finished, after)) :
    0 ≤ finished.refund := by
  obtain ⟨last, reached, ended⟩ := process_eq_ok ran
  obtain ⟨rfl, rfl, alone, completed⟩ := finished_of_advance ended
  by_cases stopped : root.status.isFailed = true ∨ root.status = .codeSuspended
  · have stuck := reached.stuck ⟨rfl, refund, pendingChild, stopped⟩
    exact stuck.refund.ge
  · rw [not_or, Bool.not_eq_true] at stopped
    have orderly : Orderly (.ofFork fork) ⟨root, [], world⟩ :=
      orderly_of_root stopped.1 stopped.2 world
    have refundable := GasSchedule.refundable_ofFork fork
    have metered := Metered.of_reaches (.of_root refund gas pendingChild unwritten) refundable
      orderly (handedOver_of_root root world) reached
    cases failed : last.current.status.isFailed with
    | true => exact ((reached.orderly orderly).failed failed).refund.ge
    | false =>
        have covers := metered.live failed
        have nonneg := Int.mul_nonneg refundable.nonneg
          (Int.natCast_nonneg last.world.readings.emptied.ncard)
        unfold Covers refunds at covers
        simp only [alone, List.map_cons, List.map_nil, List.sum_cons, List.sum_nil,
          add_zero] at covers
        exact nonneg.trans covers

namespace Refilled

/-- Fills its first slot. -/
def filler : Code :=
  .ofBytes [0x60, 5, 0x60, 0, 0x55]

/-- Empties its first slot, then runs the code of the account at eleven as its own. -/
def emptier : Code :=
  .ofBytes [0x60, 0, 0x60, 0, 0x55, 0x60, 0, 0x60, 0, 0x60, 0, 0x60, 0, 0x60, 11,
    0x61, 0xC3, 0x50, 0xF4]

def view : WorldView where
  account address := .ok (if address = 11 then some { code := filler } else none)
  storage address slot := .ok (if address = 10 ∧ slot = 0 then 1 else 0)

def context : Context :=
  ⟨{}, {}, fun _ => none⟩

def root : Frame :=
  .ofMessage { recipient := 10, contract := 10, code := emptier, gas := 100000 } ∅ ∅

end Refilled

open ExecutionLayer.Configuration Refilled in
/-- The child takes back what its caller got. -/
theorem refilled_refund :
    ∃ last finished after, Reaches (.ofFork .berlin) context 0 ⟨root, [], { base := view }⟩ last ∧
      last.current.refund = -15000 ∧
      process (.ofFork .berlin) context root { base := view } = .ok (finished, after) ∧
      finished.status = .completedSuccess ∧ 0 ≤ finished.refund := by
  have evaluated : (iterate (.ofFork .berlin) context 16 ⟨root, [], { base := view }⟩).any
      (fun last => last.current.refund == -15000) = true := by
    decide +kernel
  have ends : (process (.ofFork .berlin) context root { base := view }).toOption.any
      (fun result => result.1.status == .completedSuccess) = true := by
    decide +kernel
  obtain ⟨last, reached, negative⟩ := (Option.any_eq_true _ _).mp evaluated
  have unwritten : (JournaledWorld.readings { base := view }).StorageUnwritten :=
    (JournaledWorld.coherent_ofView view).readings.storageUnwritten fun _ _ => by
      rw [JournaledWorld.readings_ofView, Readings.ofView]
  cases ran : process (.ofFork .berlin) context root { base := view } with
  | error error =>
      rw [ran] at ends
      cases ends
  | ok result =>
      rw [ran] at ends
      exact ⟨last, result.1, result.2, .of_iterate reached, beq_iff_eq.mp negative, rfl,
        beq_iff_eq.mp ends, process_refund_nonneg rfl (by decide) rfl unwritten ran⟩

end ExecutionLayer
