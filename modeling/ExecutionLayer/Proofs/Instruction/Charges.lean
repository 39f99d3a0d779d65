import ExecutionLayer.Instruction.Action
import ExecutionLayer.Proofs.World.Conservation

/-!
# What actions keep and charge

Whatever an instruction does until it ends or suspends the frame leaves the message, the
status, the program counter and the checkpoint alone, makes no value appear or vanish, and
pays at least a certain amount of gas if it does not halt.
-/

set_option autoImplicit false

namespace ExecutionLayer

/-- What the parts of an instruction leave as it was. -/
structure Frame.Keeps (before after : Frame) : Prop where
  message : after.message = before.message
  status : after.status = before.status
  pc : after.pc = before.pc
  pendingChild : after.pendingChild = before.pendingChild
  checkpoint : after.checkpoint = before.checkpoint

theorem Frame.Keeps.refl (frame : Frame) : Frame.Keeps frame frame :=
  ⟨rfl, rfl, rfl, rfl, rfl⟩

theorem Frame.Keeps.trans {before middle after : Frame} (first : Frame.Keeps before middle)
    (second : Frame.Keeps middle after) : Frame.Keeps before after :=
  ⟨second.message.trans first.message, second.status.trans first.status,
    second.pc.trans first.pc, second.pendingChild.trans first.pendingChild,
    second.checkpoint.trans first.checkpoint⟩

theorem Frame.useGas_eq_ok {frame after : Frame} {amount : UInt64}
    (paid : frame.useGas amount = .ok after) :
    frame.Keeps after ∧ after.gas.toNat + amount.toNat = frame.gas.toNat := by
  unfold Frame.useGas at paid
  split at paid
  · rename_i enough
    cases paid
    refine ⟨⟨rfl, rfl, rfl, rfl, rfl⟩, ?_⟩
    rw [UInt64.toNat_sub_of_le _ _ enough]
    rw [UInt64.le_iff_toNat_le] at enough
    omega
  · cases paid

/-- The frame is kept, and no value appears in the world or vanishes. -/
structure Machine.Keeps (before after : Machine) : Prop where
  frame : before.frame.Keeps after.frame
  world : before.world.Conserves after.world

theorem Machine.Keeps.refl (machine : Machine) : Machine.Keeps machine machine :=
  ⟨.refl _, .refl _⟩

theorem Machine.Keeps.trans {before middle after : Machine} (first : Machine.Keeps before middle)
    (second : Machine.Keeps middle after) : Machine.Keeps before after :=
  ⟨first.frame.trans second.frame, first.world.trans second.world⟩

namespace Action

variable {Value Result : Type}

/-- What an action leads to from a machine if it does not halt. A halt keeps the machine,
and the only fault over a view without faults is that a balance overflows. -/
def Yields (action : Action Value) (machine : Machine) (post : Value → Machine → Prop) : Prop :=
  match action machine with
  | .ok value after => post value after
  | .error (.halt _) after => machine.Keeps after
  | .error (.state error) _ =>
      machine.world.readings.Lawful → Overflows machine.world.readings.supply error

namespace Yields

variable {action : Action Value} {next : Value → Action Result} {machine : Machine}

theorem of_ok {post : Value → Machine → Prop} {value : Value} {after : Machine}
    (ran : action machine = .ok value after) :
    Yields action machine post ↔ post value after := by
  rw [Yields, ran]

theorem of_halt {post : Value → Machine → Prop} {reason : Halt} {after : Machine}
    (ran : action machine = .error (.halt reason) after) :
    Yields action machine post ↔ machine.Keeps after := by
  rw [Yields, ran]

theorem of_state {post : Value → Machine → Prop} {error : StateError} {after : Machine}
    (ran : action machine = .error (.state error) after) :
    Yields action machine post ↔
      (machine.world.readings.Lawful → Overflows machine.world.readings.supply error) := by
  rw [Yields, ran]

theorem mono {post weaker : Value → Machine → Prop} (yields : Yields action machine post)
    (weaken : ∀ value after, post value after → weaker value after) :
    Yields action machine weaker := by
  cases ran : action machine with
  | ok value after => exact (of_ok ran).mpr (weaken value after ((of_ok ran).mp yields))
  | error fault after =>
      cases fault with
      | halt reason => exact (of_halt ran).mpr ((of_halt ran).mp yields)
      | state error => exact (of_state ran).mpr ((of_state ran).mp yields)

theorem bind {post : Result → Machine → Prop}
    (first : Yields action machine fun value middle =>
      machine.Keeps middle ∧ Yields (next value) middle post) :
    Yields (action >>= next) machine post := by
  cases ran : action machine with
  | error fault after =>
      have stopped : (action >>= next) machine = .error fault after := by
        simp only [Bind.bind, EStateM.bind, ran]
      cases fault with
      | halt reason => exact (of_halt stopped).mpr ((of_halt ran).mp first)
      | state error => exact (of_state stopped).mpr ((of_state ran).mp first)
  | ok value middle =>
      obtain ⟨kept, later⟩ := (of_ok ran).mp first
      have start : (action >>= next) machine = next value middle := by
        simp only [Bind.bind, EStateM.bind, ran]
      cases finished : next value middle with
      | ok result after => exact (of_ok (start.trans finished)).mpr ((of_ok finished).mp later)
      | error fault after =>
          cases fault with
          | halt reason =>
              exact (of_halt (start.trans finished)).mpr
                (kept.trans ((of_halt finished).mp later))
          | state error =>
              apply (of_state (start.trans finished)).mpr
              intro lawful
              exact ((of_state finished).mp later (kept.world.lawful lawful)).mono
                (kept.world.supply lawful).le

theorem map {change : Value → Result} {post : Result → Machine → Prop}
    (yields : Yields action machine fun value after => post (change value) after) :
    Yields (action >>= fun value => pure (change value)) machine post := by
  cases ran : action machine with
  | ok value after =>
      have done : (action >>= fun value => pure (change value)) machine =
          .ok (change value) after := by
        simp only [Bind.bind, EStateM.bind, ran]
        rfl
      exact (of_ok done).mpr ((of_ok ran).mp yields)
  | error fault after =>
      have stopped : (action >>= fun value => pure (change value)) machine =
          .error fault after := by
        simp only [Bind.bind, EStateM.bind, ran]
      cases fault with
      | halt reason => exact (of_halt stopped).mpr ((of_halt ran).mp yields)
      | state error => exact (of_state stopped).mpr ((of_state ran).mp yields)

theorem ite {condition : Prop} [Decidable condition] {left right : Action Value}
    {post : Value → Machine → Prop} (whenTrue : condition → Yields left machine post)
    (whenFalse : ¬condition → Yields right machine post) :
    Yields (if condition then left else right) machine post := by
  by_cases holds : condition
  · rw [if_pos holds]
    exact whenTrue holds
  · rw [if_neg holds]
    exact whenFalse holds

theorem modifyFrame {change : Frame → Frame} {post : Unit → Machine → Prop}
    (holds : post () { machine with frame := change machine.frame }) :
    Yields (modifyFrame change) machine post :=
  holds

theorem tryFrame {change : Frame → Except Halt Frame} {post : Unit → Machine → Prop}
    (holds : ∀ frame, change machine.frame = .ok frame → post () { machine with frame }) :
    Yields (tryFrame change) machine post := by
  cases changed : change machine.frame with
  | error reason =>
      have ran : Action.tryFrame change machine = .error (.halt reason) machine := by
        change (ofExcept (change machine.frame) >>= _ : Action Unit) machine = _
        rw [changed]
        rfl
      exact (of_halt ran).mpr (.refl machine)
  | ok frame =>
      have ran : Action.tryFrame change machine = .ok () { machine with frame } := by
        change (ofExcept (change machine.frame) >>= _ : Action Unit) machine = _
        rw [changed]
        rfl
      exact (of_ok ran).mpr (holds frame changed)

theorem onWorld {operation : Journaled Value} {post : Value → Machine → Prop}
    (safe : Journaled.SafeAt operation machine.world)
    (holds : ∀ value world, operation machine.world = .ok value world →
      machine.world.Conserves world → post value { machine with world }) :
    Yields (onWorld operation) machine post := by
  cases ran : operation machine.world with
  | ok value world =>
      have done : Action.onWorld operation machine = .ok value { machine with world } := by
        simp only [Action.onWorld, ran]
      exact (of_ok done).mpr (holds value world ran (safe.conserves ran))
  | error error world =>
      have failed : Action.onWorld operation machine =
          .error (.state error) { machine with world } := by
        simp only [Action.onWorld, ran]
      exact (of_state failed).mpr (safe.overflows ran)

end Yields

/-- The action keeps the machine and pays at least the cost, unless it halts. What it
returns has the property. -/
def Charges (cost : Nat) (returns : Value → Prop) (action : Action Value) : Prop :=
  ∀ machine, Yields action machine fun value after =>
    machine.Keeps after ∧ after.frame.gas.toNat + cost ≤ machine.frame.gas.toNat ∧ returns value

def Any (_ : Value) : Prop := True

namespace Charges

variable {cost : Nat} {returns : Value → Prop} {returnsNext : Result → Prop}

theorem mono {action : Action Value} {weaker : Value → Prop}
    (charges : Charges cost returns action) (weaken : ∀ value, returns value → weaker value) :
    Charges cost weaker action := by
  intro machine
  apply (charges machine).mono
  rintro value after ⟨kept, paid, returned⟩
  exact ⟨kept, paid, weaken value returned⟩

theorem any {action : Action Value} (charges : Charges cost returns action) :
    Charges cost Any action :=
  charges.mono fun _ _ => trivial

theorem pure {value : Value} (holds : returns value) : Charges 0 returns (Pure.pure value) :=
  fun machine => ⟨.refl machine, Nat.le_refl _, holds⟩

theorem bind {later : Nat} {action : Action Value} {next : Value → Action Result}
    (charges : Charges cost returns action)
    (chargesNext : ∀ value, returns value → Charges later returnsNext (next value)) :
    Charges (cost + later) returnsNext (action >>= next) := by
  intro machine
  apply Yields.bind
  apply (charges machine).mono
  rintro value middle ⟨kept, paid, returned⟩
  refine ⟨kept, ?_⟩
  apply (chargesNext value returned middle).mono
  rintro result after ⟨keptNext, paidNext, returnedNext⟩
  exact ⟨kept.trans keptNext, by omega, returnedNext⟩

theorem bind_paid {action : Action Value} {next : Value → Action Result}
    (charges : Charges cost returns action)
    (chargesNext : ∀ value, returns value → Charges 0 returnsNext (next value)) :
    Charges cost returnsNext (action >>= next) :=
  charges.bind chargesNext

theorem bind_free {action : Action Value} {next : Value → Action Result}
    (charges : Charges 0 returns action)
    (chargesNext : ∀ value, returns value → Charges cost returnsNext (next value)) :
    Charges cost returnsNext (action >>= next) := by
  rw [← Nat.zero_add cost]
  exact charges.bind chargesNext

theorem ite {condition : Prop} [Decidable condition] {left right : Action Value}
    (whenTrue : condition → Charges cost returns left)
    (whenFalse : ¬condition → Charges cost returns right) :
    Charges cost returns (if condition then left else right) := by
  intro machine
  apply Yields.ite
  · exact fun holds => whenTrue holds machine
  · exact fun fails => whenFalse fails machine

end Charges

/-! ## Parts of instructions -/

theorem charges_halt {cost : Nat} {returns : Value → Prop} (reason : Halt) :
    Charges cost returns (halt reason) :=
  fun machine => .refl machine

theorem charges_ofExcept (result : Except Halt Value) :
    Charges 0 (fun value => result = .ok value) (ofExcept result) := by
  cases result with
  | ok value => exact .pure rfl
  | error reason => exact charges_halt reason

theorem charges_frame : Charges 0 Any frame :=
  fun machine => ⟨.refl machine, Nat.le_refl _, trivial⟩

theorem charges_modifyFrame {change : Frame → Frame} (kept : ∀ frame, Frame.Keeps frame (change frame))
    (gas : ∀ frame, (change frame).gas = frame.gas) : Charges 0 Any (modifyFrame change) := by
  intro machine
  refine ⟨⟨kept machine.frame, .refl _⟩, ?_, trivial⟩
  simp only [gas]
  exact Nat.le_refl _

theorem charges_tryFrame {cost : Nat} {change : Frame → Except Halt Frame}
    (changes : ∀ frame changed, change frame = .ok changed →
      Frame.Keeps frame changed ∧ changed.gas.toNat + cost ≤ frame.gas.toNat) :
    Charges cost Any (tryFrame change) := by
  intro machine
  apply Yields.tryFrame
  intro frame changed
  obtain ⟨kept, paid⟩ := changes machine.frame frame changed
  exact ⟨⟨kept, .refl _⟩, paid, trivial⟩

theorem charges_useGas {cost : Nat} {amount : UInt64} (least : cost ≤ amount.toNat) :
    Charges cost Any (useGas amount) := by
  apply charges_tryFrame
  intro frame changed paid
  obtain ⟨kept, exactly⟩ := Frame.useGas_eq_ok paid
  exact ⟨kept, by omega⟩

theorem charges_chargeMemory (range : MemoryRange) : Charges 0 Any (chargeMemory range) := by
  apply charges_tryFrame
  intro frame changed paid
  unfold Frame.chargeMemory at paid
  cases charged : frame.useGas (frame.memory.expansionCost range) with
  | error reason =>
      rw [charged] at paid
      cases paid
  | ok payer =>
      rw [charged] at paid
      cases paid
      obtain ⟨kept, exactly⟩ := Frame.useGas_eq_ok charged
      refine ⟨⟨kept.message, kept.status, kept.pc, kept.pendingChild, kept.checkpoint⟩, ?_⟩
      dsimp only
      omega

theorem charges_tryStack (change : Stack → Except Halt Stack) :
    Charges 0 Any (tryFrame fun frame => do return { frame with stack := ← change frame.stack }) := by
  apply charges_tryFrame
  intro frame changed made
  cases moved : change frame.stack with
  | error reason =>
      rw [moved] at made
      cases made
  | ok stack =>
      rw [moved] at made
      cases made
      exact ⟨⟨rfl, rfl, rfl, rfl, rfl⟩, Nat.le_refl _⟩

theorem charges_push (word : Word) : Charges 0 Any (push word) :=
  charges_tryStack (·.push word)

theorem charges_dropWords (count : Nat) : Charges 0 Any (dropWords count) :=
  charges_tryStack (·.drop count)

theorem charges_pop : Charges 0 Any pop := by
  intro machine
  cases top : machine.frame.pop with
  | error reason =>
      have ran : pop machine = .error (.halt reason) machine := by
        change (ofExcept machine.frame.pop >>= _ : Action Word) machine = _
        rw [top]
        rfl
      exact (Yields.of_halt ran).mpr (.refl machine)
  | ok result =>
      obtain ⟨word, popped⟩ := result
      have ran : pop machine = .ok word { machine with frame := popped } := by
        change (ofExcept machine.frame.pop >>= _ : Action Word) machine = _
        rw [top]
        rfl
      have taken : ∃ stack, popped = { machine.frame with stack } := by
        unfold Frame.pop at top
        cases head : machine.frame.stack.pop with
        | error reason =>
            rw [head] at top
            cases top
        | ok split =>
            rw [head] at top
            cases top
            exact ⟨split.2, rfl⟩
      obtain ⟨stack, rfl⟩ := taken
      exact (Yields.of_ok ran).mpr ⟨⟨⟨rfl, rfl, rfl, rfl, rfl⟩, .refl _⟩, Nat.le_refl _, trivial⟩

theorem charges_peek (depth : Nat) : Charges 0 Any (peek depth) :=
  charges_frame.bind_free fun frame _ => (charges_ofExcept (frame.stack.peek depth)).any

theorem charges_warmAddress (address : Address) : Charges 0 Any (warmAddress address) :=
  fun _ => ⟨⟨⟨rfl, rfl, rfl, rfl, rfl⟩, .refl _⟩, Nat.le_refl _, trivial⟩

theorem charges_warmSlot (address : Address) (slot : Word) :
    Charges 0 Any (warmSlot address slot) :=
  fun _ => ⟨⟨⟨rfl, rfl, rfl, rfl, rfl⟩, .refl _⟩, Nat.le_refl _, trivial⟩

theorem length_le_of_ofWords {offset length : Word} {range : MemoryRange}
    (named : MemoryRange.ofWords offset length = .ok range) : range.length ≤ MemoryRange.limit := by
  unfold MemoryRange.ofWords at named
  split at named
  · cases named
    exact Nat.zero_le _
  · split at named
    · cases named
    · rename_i fits
      cases named
      dsimp only
      omega

theorem charges_rangeOf (offset length : Word) :
    Charges 0 (fun range => range.length ≤ MemoryRange.limit) (rangeOf offset length) :=
  (charges_ofExcept _).mono fun _ => length_le_of_ofWords

theorem charges_readMemory (range : MemoryRange) : Charges 0 Any (readMemory range) :=
  charges_frame.bind_free fun _ _ => .pure trivial

theorem charges_writeMemory (offset : Nat) (data : Bytes) :
    Charges 0 Any (writeMemory offset data) :=
  charges_modifyFrame (fun _ => ⟨rfl, rfl, rfl, rfl, rfl⟩) fun _ => rfl

theorem charges_requireWritable : Charges 0 Any requireWritable :=
  charges_frame.bind_free fun _ _ => .ite (fun _ => charges_halt _) fun _ => .pure trivial

theorem charges_onWorld {operation : Journaled Value}
    (safe : ∀ world, Journaled.SafeAt operation world) : Charges 0 Any (onWorld operation) := by
  intro machine
  apply Yields.onWorld (safe machine.world)
  intro value world _ conserves
  exact ⟨⟨.refl _, conserves⟩, Nat.le_refl _, trivial⟩

end Action

end ExecutionLayer
