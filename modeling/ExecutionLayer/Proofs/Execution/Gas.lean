import ExecutionLayer.Proofs.Execution.Transitions

/-!
# Gas over a run

The gas of the live frame, of the child it asked for and of the frames that wait never grows
in sum. So nothing is lost where gas comes back, and a finished frame has no more than it
began with.
-/

set_option autoImplicit false

namespace ExecutionLayer

/-- The gas of a frame and of the child it asked for. -/
def Frame.heldGas (frame : Frame) : Nat :=
  frame.gas.toNat + frame.pendingChild.elim 0 (·.gas.toNat)

namespace Frame

theorem heldGas_of_none {frame : Frame} (pendingChild : frame.pendingChild = none) :
    frame.heldGas = frame.gas.toNat := by
  rw [heldGas, pendingChild]
  rfl

theorem heldGas_of_some {frame : Frame} {child : Message}
    (pendingChild : frame.pendingChild = some child) :
    frame.heldGas = frame.gas.toNat + child.gas.toNat := by
  rw [heldGas, pendingChild]
  rfl

theorem heldGas_add_le {before after : Frame} {paid : Nat}
    (pendingChild : after.pendingChild = before.pendingChild)
    (gas : after.gas.toNat + paid ≤ before.gas.toNat) : after.heldGas + paid ≤ before.heldGas := by
  unfold heldGas
  rw [pendingChild]
  omega

theorem heldGas_le {before after : Frame} (pendingChild : after.pendingChild = before.pendingChild)
    (gas : after.gas.toNat ≤ before.gas.toNat) : after.heldGas ≤ before.heldGas :=
  @heldGas_add_le before after 0 pendingChild gas

theorem gas_le_heldGas (frame : Frame) : frame.gas.toNat ≤ frame.heldGas :=
  Nat.le_add_right _ _

/-- Gas that both frames together can hold comes back whole. -/
theorem returnGas_eq {frame : Frame} {amount : UInt64}
    (room : frame.gas.toNat + amount.toNat < UInt64.size) :
    (frame.returnGas amount).gas.toNat = frame.gas.toNat + amount.toNat := by
  have whole : min (frame.gas.toNat + amount.toNat) (UInt64.size - 1) =
      frame.gas.toNat + amount.toNat := Nat.min_eq_left (by omega)
  unfold returnGas
  dsimp only
  rw [whole, UInt64.toNat_ofNat']
  exact Nat.mod_eq_of_lt room

theorem heldGas_resume {schedule : GasSchedule} {parent : Frame}
    (pendingChild : parent.pendingChild = none) (child : Frame) :
    (parent.resume schedule child).heldGas ≤ parent.gas.toNat + child.gas.toNat := by
  rcases resume_cases schedule parent child with resumed | ⟨_, unchanged⟩
  · rw [heldGas_of_none (resumed.pendingChild.trans pendingChild)]
    exact resumed.gas
  · rw [unchanged, heldGas_of_none pendingChild]
    exact Nat.le_add_right _ _

end Frame

/-- A call can give back what it set aside. -/
theorem Action.reserve_fits {kind : CallKind} {machine after : Machine}
    {reservation : Action.Reservation}
    (reserved : Action.reserve kind machine = .ok reservation after) :
    after.frame.gas.toNat + reservation.forwarded.toNat + (stipend reservation.value).toNat <
      UInt64.size := by
  obtain ⟨_, reached, _⟩ := (Action.Yields.of_ok reserved).mp (Action.yields_reserve kind machine)
  have paid := reached.paid
  have bound := machine.frame.gas.toNat_lt
  have size : UInt64.size = 2 ^ 64 := rfl
  omega

namespace Configuration

def waitingGas (parents : List Frame) : Nat :=
  (parents.map (·.gas.toNat)).foldr (· + ·) 0

theorem waitingGas_cons (parent : Frame) (parents : List Frame) :
    waitingGas (parent :: parents) = parent.gas.toNat + waitingGas parents := rfl

theorem totalGas_eq (configuration : Configuration) :
    configuration.totalGas =
      configuration.current.heldGas + waitingGas configuration.parents := rfl

/-- Every waiting frame is suspended and handed its child over. -/
def HandedOver (configuration : Configuration) : Prop :=
  ∀ parent ∈ configuration.parents, parent.status = .codeSuspended ∧ parent.pendingChild = none

section

variable {schedule : GasSchedule} {context : Context} {before after : Configuration}

/-- A step that lets the code go on or asks for a child takes gas, and any other takes none
back. -/
theorem heldGas_step {least : Nat} (charges : schedule.Charges least)
    (status : before.current.status = .codeExecuting)
    (ran : Machine.step schedule context ⟨before.current, before.world⟩ =
      .ok ⟨after.current, after.world⟩) :
    ((after.current.status = .codeExecuting ∨ after.current.status = .codeSuspended) ∧
        after.current.heldGas + least ≤ before.current.heldGas) ∨
      (after.current.status = .codeSuccess ∨ after.current.status = .revert ∨
          after.current.status = .exceptionalHalt) ∧
        after.current.heldGas ≤ before.current.heldGas := by
  let machine : Machine := ⟨before.current, before.world⟩
  have executing : machine.frame.status = .codeExecuting := status
  rcases Machine.step_cases charges context executing with
    ⟨instruction, _, _, stepped, moves⟩ | ⟨halted, reason, stepped, kept⟩ |
      ⟨error, failed, _⟩
  · cases ran.symm.trans stepped
    rcases moves.course with
      ⟨executing, pendingChild, paid⟩ | ⟨ended, pendingChild, paid⟩ |
        ⟨child, _, suspended, asked, _, paid, _⟩
    · exact .inl ⟨.inl executing, Frame.heldGas_add_le pendingChild paid⟩
    · refine .inr ⟨?_, Frame.heldGas_le pendingChild paid⟩
      rcases ended with success | reverted
      · exact .inl success
      · exact .inr (.inl reverted)
    · refine .inl ⟨.inr suspended, ?_⟩
      rw [Frame.heldGas_of_some asked]
      exact paid.trans before.current.gas_le_heldGas
  · have made := Except.ok.inj (ran.symm.trans stepped)
    have current : after.current = halted.frame.halt reason := congrArg Machine.frame made
    rw [current]
    exact .inr ⟨.inr (.inr rfl), Frame.heldGas_le kept.frame.pendingChild (Nat.zero_le _)⟩
  · rw [ran] at failed
    cases failed

theorem HandedOver.transition (handedOver : before.HandedOver)
    (transition : Transition schedule context before after) : after.HandedOver := by
  unfold HandedOver at *
  cases transition with
  | starts _ _ parents => exact parents ▸ handedOver
  | steps _ _ parents => exact parents ▸ handedOver
  | enters _ status _ _ parents _ =>
      rw [parents]
      intro parent member
      rcases List.mem_cons.mp member with rfl | earlier
      · exact ⟨status, rfl⟩
      · exact handedOver parent earlier
  | commits _ _ parents => exact parents ▸ handedOver
  | rollsBack _ _ parents => exact parents ▸ handedOver
  | leaves _ _ parents _ _ =>
      intro parent member
      exact handedOver parent (by simp [parents, member])

theorem Transition.totalGas_le (transition : Transition schedule context before after)
    (handedOver : before.HandedOver) : after.totalGas ≤ before.totalGas := by
  rw [totalGas_eq, totalGas_eq]
  cases transition with
  | starts _ ran parents =>
      obtain ⟨_, pendingChild, gas⟩ := (Frame.start_ok ran).ages
      have held := Frame.heldGas_le pendingChild gas
      rw [parents]
      omega
  | steps status ran parents =>
      have held : after.current.heldGas ≤ before.current.heldGas := by
        rcases heldGas_step schedule.charges_zero status ran with ⟨_, gas⟩ | ⟨_, gas⟩ <;> exact gas
      rw [parents]
      omega
  | enters child _ pendingChild current parents _ =>
      have held := Frame.heldGas_of_some pendingChild
      have entered : after.current.heldGas = child.gas.toNat := by
        rw [current]
        rfl
      rw [parents, waitingGas_cons]
      dsimp only
      omega
  | commits _ ran parents =>
      obtain ⟨_, pendingChild, gas⟩ := (Frame.commit_ok ran).ages
      have held := Frame.heldGas_le pendingChild gas
      rw [parents]
      omega
  | rollsBack _ ran parents =>
      have held : after.current.heldGas = before.current.heldGas := by
        rw [Frame.rollBack_ok ran]
        rfl
      rw [parents]
      omega
  | leaves parent _ parents current _ =>
      obtain ⟨_, pendingChild⟩ := handedOver parent (by simp [parents])
      have held : (parent.resume schedule before.current).heldGas ≤ _ :=
        Frame.heldGas_resume pendingChild before.current
      have returned := before.current.gas_le_heldGas
      rw [parents, waitingGas_cons, current]
      omega

theorem Reaches.handedOver {depth : Nat} {first last : Configuration}
    (reached : Reaches schedule context depth first last) (handedOver : first.HandedOver) :
    last.HandedOver := by
  induction reached with
  | start => exact handedOver
  | advance _ advanced _ ih => exact ih.transition (transition_of_advance advanced)

theorem Reaches.totalGas_le {depth : Nat} {first last : Configuration}
    (reached : Reaches schedule context depth first last) (handedOver : first.HandedOver) :
    last.totalGas ≤ first.totalGas := by
  induction reached with
  | start => exact Nat.le_refl _
  | advance earlier advanced _ ih =>
      exact ((transition_of_advance advanced).totalGas_le (earlier.handedOver handedOver)).trans ih

theorem handedOver_of_root (root : Frame) (world : JournaledWorld) :
    HandedOver ⟨root, [], world⟩ :=
  fun _ member => nomatch member

theorem totalGas_of_root {root : Frame} (pendingChild : root.pendingChild = none)
    (world : JournaledWorld) : totalGas ⟨root, [], world⟩ = root.gas.toNat :=
  Frame.heldGas_of_none pendingChild

theorem Reaches.finished_gas_le {depth : Nat} {first last : Configuration} {finished : Frame}
    {world : JournaledWorld} (reached : Reaches schedule context depth first last)
    (handedOver : first.HandedOver)
    (ended : last.advance schedule context = .ok (.finished finished world)) :
    finished.gas.toNat ≤ first.totalGas := by
  obtain ⟨rfl, _⟩ := finished_of_advance ended
  have held := last.current.gas_le_heldGas
  have total := last.totalGas_eq
  have bound := reached.totalGas_le handedOver
  omega

end

/-- Under any prices, no transition of a run raises the gas of all its frames. From a root
that asked for no child yet, gas comes back whole to a frame that waited, and no more than
the root's is left at the end. What a call gives back after it was paid comes back whole as
well, with its stipend. -/
theorem gas_never_created {schedule : GasSchedule} {context : Context} (root : Frame)
    (world : JournaledWorld) :
    (∀ earlier later, Reaches schedule context 0 ⟨root, [], world⟩ earlier →
        Reaches schedule context 0 earlier later → later.totalGas ≤ earlier.totalGas) ∧
      (root.pendingChild = none →
        (∀ last parent parents, Reaches schedule context 0 ⟨root, [], world⟩ last →
            last.parents = parent :: parents →
            (parent.returnGas last.current.gas).gas.toNat =
              parent.gas.toNat + last.current.gas.toNat) ∧
          ∀ finished after, process schedule context root world = .ok (finished, after) →
            finished.gas ≤ root.gas) ∧
      ∀ kind, Action.call kind = Action.reserve kind >>= Action.requestChild kind ∧
        ∀ machine reservation reserved,
          Action.reserve kind machine = .ok reservation reserved →
            reservation.gas.toNat =
                reservation.forwarded.toNat + (Action.stipend reservation.value).toNat ∧
              (reserved.frame.returnGas reservation.gas).gas.toNat =
                reserved.frame.gas.toNat + reservation.gas.toNat := by
  have handedOver := handedOver_of_root root world
  refine ⟨?_, fun pendingChild => ⟨?_, ?_⟩, fun kind => ⟨Action.call_eq kind, ?_⟩⟩
  · intro earlier later reached onward
    exact onward.totalGas_le (reached.handedOver handedOver)
  · intro last parent parents reached waiting
    have bound := reached.totalGas_le handedOver
    rw [totalGas_of_root pendingChild, totalGas_eq, waiting, waitingGas_cons] at bound
    have held := last.current.gas_le_heldGas
    have limit := root.gas.toNat_lt_size
    exact Frame.returnGas_eq (by omega)
  · intro finished after ran
    obtain ⟨last, reached, ended⟩ := process_eq_ok ran
    have left := reached.finished_gas_le handedOver ended
    rw [totalGas_of_root pendingChild] at left
    exact UInt64.le_iff_toNat_le.mpr left
  · intro machine reservation reserved ran
    have fits := Action.reserve_fits ran
    have size : UInt64.size = 2 ^ 64 := rfl
    have whole : reservation.gas.toNat =
        reservation.forwarded.toNat + (Action.stipend reservation.value).toNat :=
      Action.toNat_add_of_lt (by omega)
    exact ⟨whole, Frame.returnGas_eq (by omega)⟩

namespace Payment

/-- Pays one unit to the account at eleven, with a thousand units of gas. -/
def payer : Code :=
  .ofBytes [0x60, 0, 0x60, 0, 0x60, 0, 0x60, 0, 0x60, 1, 0x60, 11, 0x61, 0x03, 0xE8, 0xF1]

def view : WorldView where
  account address :=
    .ok (if address = 10 then some { balance := 5, code := payer }
      else if address = 11 then some { code := .ofBytes [0x5B, 0x00] } else none)
  storage _ _ := .ok 0

def context : Context :=
  ⟨{}, {}, fun _ => none⟩

def root : Frame :=
  .ofMessage { recipient := 10, contract := 10, code := payer, gas := 20000 } ∅ ∅

end Payment

open Payment in
/-- The child has the stipend on top of what its caller set aside, and all that is left of
both goes back. -/
theorem payment_gas :
    ∃ calling reservation reserved last parent finished after,
      Reaches (.ofFork .berlin) context 0 ⟨root, [], { base := view }⟩ calling ∧
      Action.reserve .call ⟨calling.current, calling.world⟩ = .ok reservation reserved ∧
      reservation.gas = 3300 ∧
      (reserved.frame.returnGas reservation.gas).gas.toNat =
        reserved.frame.gas.toNat + reservation.gas.toNat ∧
      Reaches (.ofFork .berlin) context 0 calling last ∧
      last.current.status = .completedSuccess ∧ last.totalGas ≤ calling.totalGas ∧
      last.parents = [parent] ∧
      (parent.returnGas last.current.gas).gas.toNat =
        parent.gas.toNat + last.current.gas.toNat ∧
      process (.ofFork .berlin) context root { base := view } = .ok (finished, after) ∧
      finished.gas ≤ root.gas := by
  have evaluated : (iterate (.ofFork .berlin) context 8 ⟨root, [], { base := view }⟩).any
      (fun calling =>
        (match Action.reserve .call ⟨calling.current, calling.world⟩ with
          | .ok reservation _ => reservation.gas == 3300
          | .error _ _ => false) &&
        (iterate (.ofFork .berlin) context 6 calling).any (fun last =>
          last.current.status == .completedSuccess && last.parents.length == 1)) = true := by
    decide +kernel
  have ends : (process (.ofFork .berlin) context root { base := view }).toOption.isSome = true := by
    decide +kernel
  obtain ⟨steps, bounds, calls⟩ :=
    @gas_never_created (.ofFork .berlin) context root { base := view }
  obtain ⟨returns, finishes⟩ := bounds rfl
  obtain ⟨calling, toCalling, holds⟩ := (Option.any_eq_true _ _).mp evaluated
  rw [Bool.and_eq_true] at holds
  obtain ⟨asked, holds⟩ := holds
  obtain ⟨last, toLast, holds⟩ := (Option.any_eq_true _ _).mp holds
  simp only [Bool.and_eq_true, beq_iff_eq] at holds
  obtain ⟨completed, nested⟩ := holds
  obtain ⟨parent, waiting⟩ := List.length_eq_one_iff.mp nested
  have reached := Reaches.of_iterate toCalling
  have onward := Reaches.of_iterate toLast
  cases reserving : Action.reserve .call ⟨calling.current, calling.world⟩ with
  | error fault halted =>
      rw [reserving] at asked
      cases asked
  | ok reservation reserved =>
      rw [reserving] at asked
      obtain ⟨_, whole⟩ := (calls .call).2 _ reservation reserved reserving
      cases ran : process (.ofFork .berlin) context root { base := view } with
      | error error =>
          rw [ran] at ends
          cases ends
      | ok result =>
          exact ⟨calling, reservation, reserved, last, parent, result.1, result.2, reached, reserving,
            beq_iff_eq.mp asked, whole, onward, completed, steps calling last reached onward,
            waiting, returns last parent [] (reached.trans onward) waiting, rfl,
            finishes _ _ ran⟩

end Configuration

end ExecutionLayer
