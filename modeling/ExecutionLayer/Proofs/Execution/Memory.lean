import ExecutionLayer.Proofs.Execution.Shapes
import ExecutionLayer.Proofs.Execution.Transitions
import ExecutionLayer.Proofs.Instruction.Billing

/-!
# Paid memory across a run

Every frame of a run has a bill that starts empty and that only its own steps write on. Through
starts, settlements and the returns of children each bill stays settled: the charges for memory
amount to what the memory costs, and they added every byte that there is.
-/

set_option autoImplicit false

namespace ExecutionLayer

/-! ## Starts, ends and returns -/

namespace Frame

theorem memory_runPrecompile (frame : Frame) (contract : Precompile) :
    (frame.runPrecompile contract).memory = frame.memory := by
  rcases frame.runPrecompile_cases contract with ⟨reason, ended⟩ | ⟨_, payer, _, paid, ended⟩
  · rw [ended]
    rfl
  · have same := Action.memory_useGas paid
    rw [ended]
    exact same

theorem memory_startCall {frame started : Frame} {world after : JournaledWorld}
    (ran : frame.startCall world = .ok started after) : started.memory = frame.memory := by
  obtain ⟨_, ⟨contract, rfl⟩ | rfl | ⟨_, rfl⟩⟩ := startCall_cases ran
  · exact frame.memory_runPrecompile contract
  · rfl
  · rfl

theorem memory_startCreation {frame started : Frame} {world after : JournaledWorld}
    (ran : frame.startCreation world = .ok started after) : started.memory = frame.memory := by
  obtain ⟨_, rfl⟩ | ⟨_, _, _, _, _, rfl⟩ := startCreation_cases ran
  · rfl
  · rfl

theorem memory_start {frame started : Frame} {world after : JournaledWorld}
    (ran : frame.start world = .ok started after) : started.memory = frame.memory := by
  cases kind : frame.message.kind with
  | messageCall =>
      rw [start_of_call kind] at ran
      exact (memory_startCall ran).trans rfl
  | contractCreation =>
      rw [start_of_creation kind] at ran
      exact (memory_startCreation ran).trans rfl

theorem memory_commit {schedule : GasSchedule} {frame committed : Frame}
    {world after : JournaledWorld} (ran : frame.commit schedule world = .ok committed after) :
    committed.memory = frame.memory := by
  obtain ⟨_, rfl | ⟨_, rfl⟩⟩ | ⟨_, _, payer, paid, _, rfl⟩ := commit_cases ran
  · rfl
  · rfl
  · have same := Action.memory_useGas paid
    exact same

theorem memory_takeBack (frame child : Frame) : (frame.takeBack child).memory = frame.memory := by
  unfold takeBack
  split
  · exact Action.memory_addRefund _ child.refund
  · rfl

theorem memory_answer {frame child pushed : Frame} {stack : Stack} {memory : Memory}
    {returnData : Bytes} {word : Word}
    (pushing : Frame.push { takeBack { frame with stack, memory } child with returnData } word =
      .ok pushed) : pushed.memory = memory := by
  obtain ⟨top, _, finished⟩ := bind_eq_ok pushing
  cases finished
  exact memory_takeBack _ child

/-- The child's output goes to the window that the call named, as far as it fits there. -/
theorem memory_resumeCall {frame child after : Frame} {kind : CallKind}
    (resumed : frame.resumeCall kind child = .ok after) :
    ∃ ranges, kind.memoryRanges frame.stack = .ok ranges ∧
      after.memory = frame.memory.write ranges.2.offset (child.output.take ranges.2.length) := by
  obtain ⟨ranges, named, resumed⟩ := bind_eq_ok resumed
  obtain ⟨rest, _, resumed⟩ := bind_eq_ok resumed
  obtain ⟨pushed, pushing, resumed⟩ := bind_eq_ok resumed
  cases resumed
  exact ⟨ranges, named, @memory_answer frame child pushed rest _ _ _ pushing⟩

theorem memory_resumeCreate {frame child after : Frame} {kind : CreateKind}
    (resumed : frame.resumeCreate kind child = .ok after) : after.memory = frame.memory := by
  obtain ⟨rest, _, resumed⟩ := bind_eq_ok resumed
  obtain ⟨pushed, pushing, resumed⟩ := bind_eq_ok resumed
  cases resumed
  exact @memory_answer frame child pushed rest frame.memory _ _ pushing

/-- If the frame is at a call, the window of the call's output is there. -/
def Prepared (schedule : GasSchedule) (frame : Frame) : Prop :=
  ∀ kind ranges, Instruction.ofOpcode? schedule frame.currentOpcode = some (.call kind) →
    kind.memoryRanges frame.stack = .ok ranges → frame.memory.Covers ranges.2

/-- What a child leaves in the memory of its parent was paid for before the child ran. -/
theorem Prepared.size_resume {schedule : GasSchedule} {frame : Frame}
    (prepared : frame.Prepared schedule) (child : Frame) :
    (frame.resume schedule child).memory.size = frame.memory.size := by
  unfold resume
  cases decoded : Instruction.ofOpcode? schedule frame.currentOpcode with
  | none => rfl
  | some instruction =>
      dsimp only
      cases instruction with
      | call kind =>
          dsimp only [resumeBy]
          cases resumed : frame.resumeCall kind child with
          | error reason => rfl
          | ok after =>
              obtain ⟨ranges, named, memory⟩ := memory_resumeCall resumed
              have covers := prepared kind ranges decoded named
              have short : (child.output.take ranges.2.length).length ≤ ranges.2.length :=
                List.length_take_le ..
              dsimp only
              rw [memory]
              exact (covers.shorter short).size_write
      | create kind =>
          dsimp only [resumeBy]
          cases resumed : frame.resumeCreate kind child with
          | error reason => rfl
          | ok after => exact congrArg Memory.size (memory_resumeCreate resumed)
      | _ => rfl

end Frame

/-! ## Requests -/

/-- A frame that comes to wait for a call paid for the window of the call's output. -/
theorem Machine.prepared_step {schedule : GasSchedule} {context : Context}
    {machine after : Machine} (stepped : machine.step schedule context = .ok after)
    (awake : machine.frame.status ≠ .codeSuspended)
    (waits : after.frame.status = .codeSuspended) : after.frame.Prepared schedule := by
  rcases turns_step stepped with
    ⟨halted, reason, rfl, _⟩ | ⟨instruction, decoded, fits, turns, count, moved, ran, rfl⟩
  · cases waits
  · obtain ⟨stack, requested, _⟩ := turns.resumable decoded fits awake waits
    intro kind ranges called
    rw [requested] at called
    cases called
    intro named
    have leads : Action.Leads ((Instruction.call kind).execute schedule context) machine
        (fun _ => True) fun _ after => ∀ ranges,
          kind.memoryRanges machine.frame.stack = .ok ranges →
            after.frame.memory.Covers ranges.2 :=
      .bind (Action.covers_call kind machine)
    unfold Action.Leads at leads
    rw [ran] at leads
    rw [stack] at named
    rw [Machine.memory_advance]
    exact leads ranges named

/-! ## Bills of a run -/

namespace Configuration

/-- A frame by the number of those that wait for it, the root first. -/
def frameAt? (configuration : Configuration) (level : Nat) : Option Frame :=
  (configuration.current :: configuration.parents).reverse[level]?

/-- How a transition changes the bills of the live frame and of those that wait for it. Only a
step of the live frame writes on a bill, and a child begins with an empty one. -/
def Rebills (schedule : GasSchedule) (context : Context) (before after : Configuration)
    (bills rebilled : List MemoryBill) : Prop :=
  match before.current.status with
  | .codeExecuting => ∃ bill next waiting, bills = bill :: waiting ∧ rebilled = next :: waiting ∧
      Billed.step schedule context ⟨⟨before.current, before.world⟩, bill⟩ =
        .ok ⟨⟨after.current, after.world⟩, next⟩
  | .codeSuspended => rebilled = {} :: bills
  | .completedSuccess | .completedFailed => rebilled = bills.tail
  | .notStarted | .codeSuccess | .revert | .exceptionalHalt => rebilled = bills

/-- The bills that a run from the first configuration leads to. -/
inductive Tallies (schedule : GasSchedule) (context : Context) (first : Configuration) :
    Configuration → List MemoryBill → Prop where
  | start : Tallies schedule context first first [{}]
  | advance {middle next : Configuration} {bills rebilled : List MemoryBill}
      (tallied : Tallies schedule context first middle bills)
      (advanced : middle.advance schedule context = .ok (.running next))
      (rebills : Rebills schedule context middle next bills rebilled) :
      Tallies schedule context first next rebilled

/-- Every frame has a bill, and it is settled. -/
def Paid (configuration : Configuration) (bills : List MemoryBill) : Prop :=
  List.Forall₂ (fun frame bill => bill.Settles frame.memory)
    (configuration.current :: configuration.parents) bills

/-- Whoever waits for a call has the window of its output. -/
structure Poised (schedule : GasSchedule) (configuration : Configuration) : Prop
    extends Orderly schedule configuration where
  prepared : configuration.current.status = .codeSuspended →
    configuration.current.Prepared schedule
  waiting : ∀ parent ∈ configuration.parents, parent.Prepared schedule

section

variable {schedule : GasSchedule} {context : Context} {before after : Configuration}
  {bills : List MemoryBill}

theorem Poised.transition (poised : Poised schedule before)
    (transition : Transition schedule context before after) : Poised schedule after := by
  have orderly := poised.toOrderly.transition transition
  cases transition with
  | starts _ ran parents =>
      refine ⟨orderly, fun waits => ?_, parents ▸ poised.waiting⟩
      rcases (Frame.start_ok ran).status with status | status | status <;>
        simp [status] at waits
  | steps status ran parents =>
      refine ⟨orderly, Machine.prepared_step ran ?_, parents ▸ poised.waiting⟩
      dsimp only
      rw [status]
      decide
  | enters child status _ current parents _ =>
      refine ⟨orderly, by simp [current, Frame.ofMessage], ?_⟩
      rw [parents]
      intro parent member
      rcases List.mem_cons.mp member with rfl | earlier
      · exact poised.prepared status
      · exact poised.waiting parent earlier
  | commits _ ran parents =>
      refine ⟨orderly, fun waits => ?_, parents ▸ poised.waiting⟩
      rcases (Frame.commit_ok ran).status with status | status <;> simp [status] at waits
  | rollsBack _ ran parents =>
      exact ⟨orderly, by simp [Frame.rollBack_ok ran], parents ▸ poised.waiting⟩
  | leaves parent _ parents current _ =>
      have resumable := poised.parents parent (by simp [parents])
      refine ⟨orderly, fun waits => ?_, fun other member => ?_⟩
      · rw [current, (resumable.receives before.current).status] at waits
        cases waits
      · exact poised.waiting other (by simp [parents, member])

/-- A transition leads from settled bills to settled bills. -/
theorem Paid.transition (paid : Paid before bills) (poised : Poised schedule before)
    (transition : Transition schedule context before after) :
    (∃ rebilled, Rebills schedule context before after bills rebilled) ∧
      ∀ rebilled, Rebills schedule context before after bills rebilled → Paid after rebilled := by
  cases paid with
  | @cons _ bill _ waiting settles paidWaiting =>
  cases transition with
  | starts status ran parents =>
      have memory := Frame.memory_start ran
      simp only [Rebills, status, exists_eq, forall_eq, true_and]
      refine .cons (memory ▸ settles) (parents ▸ paidWaiting)
  | steps status ran parents =>
      obtain ⟨next, stepped⟩ :=
        Billed.exists_step ⟨⟨before.current, before.world⟩, bill⟩ settles ran
      simp only [Rebills, status]
      refine ⟨⟨_, bill, next, waiting, rfl, rfl, stepped⟩, ?_⟩
      rintro _ ⟨_, next, _, same, rfl, stepped⟩
      cases same
      obtain ⟨_, onward⟩ := Billed.onward_step settles stepped
      exact .cons onward.settles (parents ▸ paidWaiting)
  | enters child status _ current parents _ =>
      simp only [Rebills, status, exists_eq, forall_eq, true_and]
      rw [Paid, parents, current]
      exact .cons MemoryBill.settles_empty (.cons settles paidWaiting)
  | commits status ran parents =>
      have memory := Frame.memory_commit ran
      simp only [Rebills, status, exists_eq, forall_eq, true_and]
      exact .cons (memory ▸ settles) (parents ▸ paidWaiting)
  | rollsBack status ran parents =>
      have memory : after.current.memory = before.current.memory := by
        rw [Frame.rollBack_ok ran]
      rcases status with status | status
      all_goals
        simp only [Rebills, status, exists_eq, forall_eq, true_and]
        exact .cons (memory ▸ settles) (parents ▸ paidWaiting)
  | leaves parent completed parents current _ =>
      have prepared := poised.waiting parent (by simp [parents])
      have size : after.current.memory.size = parent.memory.size := by
        rw [current]
        exact prepared.size_resume before.current
      have rebills (rebilled : List MemoryBill) :
          Rebills schedule context before after (bill :: waiting) rebilled ↔
            rebilled = waiting := by
        unfold Rebills
        cases status : before.current.status <;> rw [status] at completed <;>
          first | exact Iff.rfl | cases completed
      simp only [rebills, exists_eq, forall_eq, true_and]
      rw [parents] at paidWaiting
      cases paidWaiting with
      | cons settlesParent rest => exact .cons (settlesParent.of_size size) rest

/-! ## Growth -/

theorem frameAt?_cons {configuration : Configuration} {top : Frame} {rest : List Frame}
    (parents : configuration.parents = top :: rest) {level : Nat} (deep : level ≤ rest.length) :
    configuration.frameAt? level = (top :: rest).reverse[level]? := by
  rw [frameAt?, parents, List.reverse_cons, List.getElem?_append_left]
  rw [List.length_reverse, List.length_cons]
  omega

/-- Another top frame changes nothing below. -/
theorem frameAt?_top {top other frame : Frame} {rest : List Frame} {level : Nat}
    (found : (top :: rest).reverse[level]? = some frame)
    (grows : top.memory.size ≤ other.memory.size) :
    ∃ grown, (other :: rest).reverse[level]? = some grown ∧
      frame.memory.size ≤ grown.memory.size := by
  rw [List.reverse_cons] at found ⊢
  by_cases below : level < rest.reverse.length
  · rw [List.getElem?_append_left below] at found ⊢
    exact ⟨frame, found, Nat.le_refl _⟩
  · rw [List.getElem?_append_right (Nat.le_of_not_lt below)] at found ⊢
    obtain ⟨rfl, first⟩ : frame = top ∧ level - rest.reverse.length = 0 := by
      simpa [List.getElem?_singleton, and_comm, eq_comm] using found
    exact ⟨other, by rw [first]; rfl, grows⟩

/-- A frame that is still there has lost no memory. -/
theorem Paid.grows (paid : Paid before bills) (poised : Poised schedule before)
    (transition : Transition schedule context before after) {level : Nat}
    (deep : level ≤ after.parents.length) {frame : Frame}
    (found : before.frameAt? level = some frame) :
    ∃ grown, after.frameAt? level = some grown ∧ frame.memory.size ≤ grown.memory.size := by
  have stays (parents : after.parents = before.parents)
      (grows : before.current.memory.size ≤ after.current.memory.size) :
      ∃ grown, after.frameAt? level = some grown ∧ frame.memory.size ≤ grown.memory.size := by
    rw [frameAt?, parents]
    exact frameAt?_top found grows
  cases transition with
  | starts status ran parents =>
      exact stays parents (by rw [Frame.memory_start ran])
  | steps status ran parents =>
      cases paid with
      | @cons _ bill _ _ settles _ =>
      obtain ⟨next, stepped⟩ :=
        Billed.exists_step ⟨⟨before.current, before.world⟩, bill⟩ settles ran
      obtain ⟨_, onward⟩ := Billed.onward_step settles stepped
      exact stays parents onward.grows
  | enters child status _ current parents _ =>
      have within : level ≤ before.parents.length := by
        have bound := (List.getElem?_eq_some_iff.mp found).1
        rw [List.length_reverse, List.length_cons] at bound
        omega
      rw [frameAt?_cons parents within]
      exact frameAt?_top found (Nat.le_refl _)
  | commits status ran parents =>
      exact stays parents (by rw [Frame.memory_commit ran])
  | rollsBack status ran parents =>
      exact stays parents (by rw [Frame.rollBack_ok ran])
  | leaves parent _ parents current _ =>
      have prepared := poised.waiting parent (by simp [parents])
      rw [frameAt?_cons parents deep] at found
      rw [frameAt?, current]
      exact frameAt?_top found (Nat.le_of_eq (prepared.size_resume before.current).symm)

end

/-! ## Runs -/

section

variable {schedule : GasSchedule} {context : Context} {first last : Configuration}
  {bills : List MemoryBill}

theorem poised_of_notStarted {root : Frame} (status : root.status = .notStarted)
    (world : JournaledWorld) : Poised schedule ⟨root, [], world⟩ :=
  ⟨orderly_of_notStarted status world, by simp [status], by simp⟩

theorem Reaches.poised {depth : Nat} (reached : Reaches schedule context depth first last)
    (poised : Poised schedule first) : Poised schedule last := by
  induction reached with
  | start => exact poised
  | advance _ advanced _ ih => exact ih.transition (transition_of_advance advanced)

theorem Reaches.paid {depth : Nat} (reached : Reaches schedule context depth first last)
    (poised : Poised schedule first) (paid : Paid first bills) :
    ∃ rebilled, Paid last rebilled := by
  induction reached with
  | start => exact ⟨bills, paid⟩
  | advance earlier advanced _ ih =>
      obtain ⟨_, paidMiddle⟩ := ih
      obtain ⟨⟨rebilled, rebills⟩, settled⟩ :=
        paidMiddle.transition (earlier.poised poised) (transition_of_advance advanced)
      exact ⟨rebilled, settled rebilled rebills⟩

/-- As long as a frame is there it loses no memory. -/
theorem Reaches.grows {level : Nat} (reached : Reaches schedule context level first last)
    (poised : Poised schedule first) (paid : Paid first bills) {frame : Frame}
    (found : first.frameAt? level = some frame) :
    ∃ grown, last.frameAt? level = some grown ∧ frame.memory.size ≤ grown.memory.size := by
  induction reached with
  | start => exact ⟨frame, found, Nat.le_refl _⟩
  | advance earlier advanced deep ih =>
      obtain ⟨middle, foundMiddle, grows⟩ := ih
      obtain ⟨_, paidMiddle⟩ := earlier.paid poised paid
      obtain ⟨grown, foundLast, growsAgain⟩ := paidMiddle.grows (earlier.poised poised)
        (transition_of_advance advanced) deep foundMiddle
      exact ⟨grown, foundLast, Nat.le_trans grows growsAgain⟩

theorem Tallies.reaches (tallied : Tallies schedule context first last bills) :
    Reaches schedule context 0 first last := by
  induction tallied with
  | start => exact .start
  | advance _ advanced _ ih => exact ih.advance advanced (Nat.zero_le _)

theorem Tallies.paid (tallied : Tallies schedule context first last bills)
    (poised : Poised schedule first) (paid : Paid first [{}]) : Paid last bills := by
  induction tallied with
  | start => exact paid
  | advance earlier advanced rebills ih =>
      have poisedMiddle := earlier.reaches.poised poised
      exact (ih.transition poisedMiddle (transition_of_advance advanced)).2 _ rebills

/-- Every run can be billed. -/
theorem Reaches.tallies {depth : Nat} (reached : Reaches schedule context depth first last)
    (poised : Poised schedule first) (paid : Paid first [{}]) :
    ∃ bills, Tallies schedule context first last bills := by
  induction reached with
  | start => exact ⟨_, .start⟩
  | advance earlier advanced _ ih =>
      obtain ⟨bills, tallied⟩ := ih
      obtain ⟨⟨rebilled, rebills⟩, _⟩ := (tallied.paid poised paid).transition
        (earlier.poised poised) (transition_of_advance advanced)
      exact ⟨rebilled, tallied.advance advanced rebills⟩

/-- Memory never grows unpaid. In every run each frame has a bill that begins empty when the
frame does and that only charges for memory write on. The bills account for every byte, and
they amount to what the memory costs. Memory is whole words, and while a frame is there it loses
none. -/
theorem memory_paid {message : Message} {warmAddresses : Std.ExtTreeSet Address}
    {warmSlots : Std.ExtTreeSet SlotId} {world : JournaledWorld}
    (reached : Reaches schedule context 0
      ⟨Frame.ofMessage message warmAddresses warmSlots, [], world⟩ last) :
    (∃ bills, Tallies schedule context
        ⟨Frame.ofMessage message warmAddresses warmSlots, [], world⟩ last bills) ∧
      (∀ bills, Tallies schedule context
          ⟨Frame.ofMessage message warmAddresses warmSlots, [], world⟩ last bills →
        List.Forall₂ (fun frame bill => frame.memory.size % 32 = 0 ∧
            bill.bytes = frame.memory.size ∧
            bill.gas = (Gas.memoryCost frame.memory.wordSize).toNat)
          (last.current :: last.parents) bills) ∧
      ∀ (level : Nat) (frame : Frame) (later : Configuration),
        last.frameAt? level = some frame → Reaches schedule context level last later →
          ∃ grown, later.frameAt? level = some grown ∧
            frame.memory.size ≤ grown.memory.size := by
  have poised : Poised schedule ⟨Frame.ofMessage message warmAddresses warmSlots, [], world⟩ :=
    poised_of_notStarted rfl world
  have paid : Paid ⟨Frame.ofMessage message warmAddresses warmSlots, [], world⟩ [{}] :=
    .cons MemoryBill.settles_empty .nil
  refine ⟨reached.tallies poised paid, fun bills tallied => ?_, ?_⟩
  · have settled := tallied.paid poised paid
    exact settled.imp fun frame bill settles => ⟨frame.memory.size_mod, settles.bytes, settles.gas⟩
  · intro level frame later found onward
    obtain ⟨_, paidLast⟩ := reached.paid poised paid
    exact onward.grows (reached.poised poised) paidLast found

end

namespace Windows

/-- Stores a word, then calls account 11 and names the second word for its output. -/
def caller : Code :=
  .ofBytes [0x60, 7, 0x60, 0, 0x52, 0x60, 32, 0x60, 32, 0x60, 32, 0x60, 0, 0x60, 0, 0x60, 11,
    0x61, 0xC3, 0x50, 0xF1, 0x00]

/-- Stores a byte in the ninth word, then returns the first. -/
def callee : Code :=
  .ofBytes [0x60, 0xAA, 0x61, 1, 0, 0x53, 0x60, 32, 0x60, 0, 0xF3]

def view : WorldView where
  account address := .ok (if address = 11 then some { code := callee } else none)
  storage _ _ := .ok 0

def context : Context :=
  ⟨{}, {}, fun _ => none⟩

def message : Message :=
  { recipient := 10, contract := 10, code := caller, gas := 100000 }

end Windows

open Windows in
/-- The caller paid for two words before its child ran and the child for nine of its own. What
the child returns takes no more. -/
theorem call_window_paid :
    ∃ during bills after grown,
      Reaches (.ofFork .berlin) context 0 ⟨.ofMessage message ∅ ∅, [], { base := view }⟩ during ∧
      Tallies (.ofFork .berlin) context ⟨.ofMessage message ∅ ∅, [], { base := view }⟩ during
        bills ∧
      bills.map (·.bytes) = [288, 64] ∧ bills.map (·.gas) = [27, 6] ∧
      Reaches (.ofFork .berlin) context 0 during after ∧ after.parents = [] ∧
      after.frameAt? 0 = some grown ∧ 64 ≤ grown.memory.size := by
  have evaluated : (iterate (.ofFork .berlin) context 17
      ⟨.ofMessage message ∅ ∅, [], { base := view }⟩).any (fun during =>
        (during.current :: during.parents).map (·.memory.size) == [288, 64] &&
        (iterate (.ofFork .berlin) context 5 during).any (·.parents.isEmpty)) = true := by
    decide +kernel
  obtain ⟨during, ranDuring, holds⟩ := (Option.any_eq_true _ _).mp evaluated
  simp only [Bool.and_eq_true, beq_iff_eq] at holds
  obtain ⟨sizes, finishes⟩ := holds
  obtain ⟨after, ranAfter, alone⟩ := (Option.any_eq_true _ _).mp finishes
  obtain ⟨⟨bills, tallied⟩, settled, keeps⟩ := memory_paid (.of_iterate ranDuring)
  simp only [List.map_cons, List.cons.injEq, List.map_eq_cons_iff, List.map_eq_nil_iff] at sizes
  obtain ⟨childSize, parent, _, parents, parentSize, rfl⟩ := sizes
  have totals := settled bills tallied
  rw [parents] at totals
  rcases totals with _ | ⟨⟨_, childBytes, childGas⟩, _ | ⟨⟨_, parentBytes, parentGas⟩, _ | _⟩⟩
  rw [Memory.wordSize, childSize] at childGas
  rw [Memory.wordSize, parentSize] at parentGas
  have found : during.frameAt? 0 = some parent := by
    rw [frameAt?, parents]
    rfl
  have later := Reaches.of_iterate ranAfter
  obtain ⟨grown, foundAfter, grows⟩ := keeps 0 parent after found later
  refine ⟨during, _, after, grown, .of_iterate ranDuring, tallied, ?_, ?_, later,
    List.isEmpty_iff.mp alone, foundAfter, parentSize ▸ grows⟩
  · simp only [List.map_cons, List.map_nil, childBytes, childSize, parentBytes, parentSize]
  · simp only [List.map_cons, List.map_nil, childGas, parentGas]
    decide

end Configuration

end ExecutionLayer
