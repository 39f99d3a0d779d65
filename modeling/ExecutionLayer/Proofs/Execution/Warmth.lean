import ExecutionLayer.Proofs.Execution.Accesses
import ExecutionLayer.Proofs.Instruction.Edits

/-!
# Warmth over a run

What is warm for a frame that ends with success, as do all frames that wait for it, stays warm
for whatever runs later: a child begins with the warm sets of its parent, and only a child that
succeeds gives back its own. So no account and no slot is paid for as a cold one twice.
-/

set_option autoImplicit false

namespace ExecutionLayer

theorem Frame.RecordsAlike.warms {left right : Frame} (alike : left.RecordsAlike right) :
    left.Warms right := by
  intro access warm
  cases access with
  | account address => exact (congrArg (address ∈ ·) alike.warmAddresses).mpr warm
  | slot id => exact (congrArg (id ∈ ·) alike.warmSlots).mpr warm

namespace Configuration

section

variable {schedule : GasSchedule} {context : Context}

/-! ## One way to go -/

section

variable {depth : Nat} {first last left right : Configuration}

theorem Reaches.shallower {least : Nat} (reached : Reaches schedule context depth first last)
    (le : least ≤ depth) : Reaches schedule context least first last := by
  induction reached with
  | start => exact .start
  | advance _ advanced deep ih => exact ih.advance advanced (le.trans deep)

theorem Reaches.cases_head (reached : Reaches schedule context depth first last) :
    last = first ∨ ∃ next, first.advance schedule context = .ok (.running next) ∧
      depth ≤ next.parents.length ∧ Reaches schedule context depth next last := by
  induction reached with
  | start => exact .inl rfl
  | advance _ advanced deep ih =>
      rcases ih with rfl | ⟨next, began, deepNext, later⟩
      · exact .inr ⟨_, advanced, deep, .start⟩
      · exact .inr ⟨next, began, deepNext, later.advance advanced deep⟩

/-- What follows a transition lies on the one way that goes on from it. -/
theorem Reaches.tail {next : Configuration} (reached : Reaches schedule context depth first last)
    (other : last ≠ first) (advanced : first.advance schedule context = .ok (.running next)) :
    Reaches schedule context depth next last := by
  rcases reached.cases_head with same | ⟨_, began, _, later⟩
  · exact absurd same other
  · cases advanced.symm.trans began
    exact later

theorem Reaches.meets (toLeft : Reaches schedule context depth first left)
    (toRight : Reaches schedule context depth first right) :
    Reaches schedule context depth left right ∨ Reaches schedule context depth right left := by
  induction toRight with
  | start => exact .inr toLeft
  | advance _ advanced deep ih =>
      rcases ih with onward | back
      · exact .inl (onward.advance advanced deep)
      · rcases back.cases_head with rfl | ⟨_, began, _, later⟩
        · exact .inl (.advance .start advanced deep)
        · cases advanced.symm.trans began
          exact .inr later

/-- A frame that is completed goes nowhere while the frames that wait for it wait. -/
theorem Reaches.eq_of_completed (reached : Reaches schedule context depth first last)
    (completed : first.current.status.isCompleted = true) (length : first.parents.length = depth) :
    last = first := by
  rcases reached.cases_head with same | ⟨next, advanced, deep, _⟩
  · exact same
  rw [advance_of_completed context completed] at advanced
  obtain ⟨parent, parents, _⟩ := leave_running (Except.ok.inj advanced)
  rw [parents, List.length_cons] at length
  omega

end

/-! ## Frames that survive -/

/-- The live frame and all frames that wait for it end with success. -/
def Survives (schedule : GasSchedule) (context : Context) (configuration : Configuration) : Prop :=
  ∀ depth ≤ configuration.parents.length, ∃ ended,
    Reaches schedule context depth configuration ended ∧ ended.parents.length = depth ∧
      ended.current.status = .completedSuccess

theorem Survives.succeeds {early late : Configuration} (survives : early.Survives schedule context)
    (le : late.parents.length ≤ early.parents.length)
    (reached : Reaches schedule context late.parents.length early late)
    (completed : late.current.status.isCompleted = true) :
    late.current.status = .completedSuccess := by
  obtain ⟨ended, ends, length, succeeded⟩ := survives late.parents.length le
  rcases reached.meets ends with later | later
  · rw [← later.eq_of_completed completed rfl]
    exact succeeded
  · rw [later.eq_of_completed (by rw [succeeded]; rfl) length]
    exact succeeded

/-- A survivor's next instruction neither fails the run nor halts the frame, which survives. -/
theorem Survives.step {early : Configuration} (survives : early.Survives schedule context)
    (executing : early.current.status = .codeExecuting) :
    ∃ next, early.advance schedule context = .ok (.running next) ∧
      Machine.step schedule context ⟨early.current, early.world⟩ =
        .ok ⟨next.current, next.world⟩ ∧
      next.Survives schedule context ∧ next.current.status ≠ .exceptionalHalt := by
  have unfinished {ended : Configuration} (succeeded : ended.current.status = .completedSuccess) :
      ended ≠ early := by
    rintro rfl
    cases executing.symm.trans succeeded
  obtain ⟨ended, ends, _, succeeded⟩ := survives _ (Nat.le_refl _)
  obtain ⟨next, advanced, _, _⟩ := ends.cases_head.resolve_left (unfinished succeeded)
  have stepped := advanced
  rw [advance_of_executing context executing] at stepped
  obtain ⟨machine, ran, made⟩ := bind_eq_ok stepped
  cases made
  have onward : Survives schedule context
      { early with current := machine.frame, world := machine.world } := by
    intro depth le
    obtain ⟨ended, ends, length, succeeded⟩ := survives depth le
    exact ⟨ended, ends.tail (unfinished succeeded) advanced, length, succeeded⟩
  refine ⟨_, advanced, ran, onward, fun halted => ?_⟩
  -- A halted frame is rolled back next, and that is not a success.
  obtain ⟨ended, ends, length, succeeded⟩ := onward _ (Nat.le_refl _)
  rcases ends.cases_head with rfl | ⟨rolled, rolling, _, later⟩
  · cases halted.symm.trans succeeded
  · rw [advance_of_failed context (.inr halted)] at rolling
    obtain ⟨back, parents⟩ := withWorld_running rolling
    have failed : rolled.current.status = .completedFailed := by rw [Frame.rollBack_ok back]
    have same := later.eq_of_completed (by rw [failed]; rfl) (congrArg List.length parents)
    rw [same, failed] at succeeded
    cases succeeded

/-! ## Warmth -/

/-- Since an earlier configuration at least the outer frames waited, and the access is warm for
every frame inside of them. -/
structure WarmWithin (schedule : GasSchedule) (context : Context) (access : Access)
    (early : Configuration) (outer inner : List Frame) (late : Configuration) : Prop where
  parents : late.parents = inner ++ outer
  reaches : Reaches schedule context outer.length early late
  shallow : outer.length ≤ early.parents.length
  warm : ∀ frame ∈ late.current :: inner, frame.IsWarm access

namespace WarmWithin

variable {access : Access} {early before after : Configuration} {outer inner : List Frame}

theorem length_outer_le (parents : after.parents = inner ++ outer) :
    outer.length ≤ after.parents.length := by
  rw [parents, List.length_append]
  exact Nat.le_add_left _ _

theorem start (warm : early.current.IsWarm access) :
    WarmWithin schedule context access early early.parents [] early :=
  ⟨rfl, .start, Nat.le_refl _, by simpa using warm⟩

theorem onward (within : WarmWithin schedule context access early outer inner before)
    (advanced : before.advance schedule context = .ok (.running after))
    (parents : after.parents = before.parents) (warms : before.current.Warms after.current) :
    WarmWithin schedule context access early outer inner after := by
  obtain ⟨split, reaches, shallow, warm⟩ := within
  have same := parents.trans split
  refine ⟨same, reaches.advance advanced (length_outer_le same), shallow,
    fun frame member => ?_⟩
  rcases List.mem_cons.mp member with rfl | waits
  · exact warms access (warm _ List.mem_cons_self)
  · exact warm frame (List.mem_cons_of_mem _ waits)

theorem transition (within : WarmWithin schedule context access early outer inner before)
    (survives : early.Survives schedule context) (orderly : Orderly schedule before)
    (advanced : before.advance schedule context = .ok (.running after)) :
    ∃ outer inner, WarmWithin schedule context access early outer inner after := by
  cases transition_of_advance advanced with
  | starts _ ran parents =>
      exact ⟨outer, inner, within.onward advanced parents (Frame.settles_start ran).1.warms⟩
  | steps _ ran parents =>
      exact ⟨outer, inner, within.onward advanced parents (Machine.edits_step ran).warms⟩
  | commits _ ran parents =>
      exact ⟨outer, inner, within.onward advanced parents (Frame.settles_commit ran).1.warms⟩
  | rollsBack _ ran parents =>
      refine ⟨outer, inner, within.onward advanced parents ?_⟩
      rw [Frame.rollBack_ok ran]
      exact fun _ => id
  | enters child _ _ current parents _ =>
      -- The child begins with the warm sets of the frame that now waits for it.
      obtain ⟨split, reaches, shallow, warm⟩ := within
      have here : before.current.IsWarm access := warm _ List.mem_cons_self
      have deeper : after.parents =
          { before.current with pendingChild := none } :: inner ++ outer := by
        rw [parents, split]
        rfl
      refine ⟨outer, _, deeper, reaches.advance advanced (length_outer_le deeper), shallow,
        fun frame member => ?_⟩
      rw [current] at member
      rcases List.mem_cons.mp member with rfl | waits
      · exact here
      rcases List.mem_cons.mp waits with rfl | waits
      · exact here
      · exact warm frame (List.mem_cons_of_mem _ waits)
  | leaves parent completed parents current _ =>
      obtain ⟨split, reaches, shallow, warm⟩ := within
      have here : before.current.IsWarm access := warm _ List.mem_cons_self
      have receives := (orderly.parents parent (by simp [parents])).receives before.current
      rw [← current] at receives
      cases inner with
      | nil =>
          -- The frame is one that survives, and hands its warm sets to the one outside of it.
          have length : outer.length = before.parents.length := by rw [split, List.nil_append]
          have succeeded := survives.succeeds (length ▸ shallow) (length ▸ reaches) completed
          rw [length, parents, List.length_cons] at reaches shallow
          refine ⟨after.parents, [], rfl, (reaches.shallower (Nat.le_succ _)).advance advanced
            (Nat.le_refl _), (Nat.le_succ _).trans shallow, ?_⟩
          simpa using receives.warms succeeded access here
      | cons waiting inner =>
          have same := parents.symm.trans split
          rw [List.cons_append, List.cons.injEq] at same
          obtain ⟨rfl, rest⟩ := same
          refine ⟨outer, inner, rest, reaches.advance advanced (length_outer_le rest), shallow,
            fun frame member => ?_⟩
          rcases List.mem_cons.mp member with rfl | waits
          · by_cases succeeded : before.current.status = .completedSuccess
            · exact receives.warms succeeded access here
            · have waited : parent.IsWarm access := warm parent (by simp)
              exact (receives.unchanged succeeded).warms access waited
          · exact warm frame (by simp [waits])

end WarmWithin

/-- What is warm for a survivor is warm for every frame that runs later. -/
theorem Survives.warms {access : Access} {early late : Configuration}
    (survives : early.Survives schedule context) (orderly : Orderly schedule early)
    (reached : Reaches schedule context 0 early late) (warm : early.current.IsWarm access) :
    late.current.IsWarm access := by
  have within : ∃ outer inner, WarmWithin schedule context access early outer inner late := by
    induction reached with
    | start => exact ⟨_, _, .start warm⟩
    | advance earlier advanced _ ih =>
        obtain ⟨_, _, within⟩ := ih
        exact within.transition survives (earlier.orderly orderly) advanced
  obtain ⟨_, _, within⟩ := within
  exact within.warm _ List.mem_cons_self

/-! ## Cold accesses -/

end

namespace Twice

/-- Asks for the balance of the account at twelve. -/
def asker : Code :=
  .ofBytes [0x60, 12, 0x31, 0x00]

/-- Loads its first slot and calls the account at eleven, then asks for the balance of the
account at twelve and loads its first slot again. -/
def caller : Code :=
  .ofBytes [0x60, 0, 0x54, 0x50, 0x60, 0, 0x60, 0, 0x60, 0, 0x60, 0, 0x60, 0, 0x60, 11, 0x61, 0xC3,
    0x50, 0xF1, 0x50, 0x60, 12, 0x31, 0x60, 0, 0x54, 0x00]

def view : WorldView where
  account address := .ok (if address = 11 then some { code := asker } else none)
  storage _ _ := .ok 0

def context : Context :=
  ⟨{}, {}, fun _ => none⟩

def root : Frame :=
  .ofMessage { recipient := 10, contract := 10, code := caller, gas := 100000 } ∅ ∅

end Twice

end Configuration

end ExecutionLayer
