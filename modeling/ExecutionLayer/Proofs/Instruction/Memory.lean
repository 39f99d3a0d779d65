import ExecutionLayer.Proofs.Instruction.Calls
import ExecutionLayer.Proofs.Instruction.Observation
import ExecutionLayer.Proofs.Machine.Memory

/-!
# Instructions that leave the memory as it is

Of all that code does, only charges for memory and writes to it touch the memory of its frame.
-/

set_option autoImplicit false

namespace ExecutionLayer

/-- The memory is as it was. -/
def Machine.Rests (before after : Machine) : Prop :=
  after.frame.memory = before.frame.memory

instance : IsPreorder Machine Machine.Rests where
  refl _ := rfl
  trans _ _ _ first second := second.trans first

theorem Machine.memory_advance (machine : Machine) (count : Nat) :
    (machine.advance count).frame.memory = machine.frame.memory := by
  unfold advance
  split <;> rfl

/-- The instruction charges for memory, and most of these write to it. -/
def Instruction.TouchesMemory : Instruction → Prop
  | .keccak | .copy _ | .extCodeCopy | .mload | .mstore | .mstore8 => True
  | .log _ | .create _ | .call _ | .return | .revert => True
  | _ => False

namespace Action

variable {Value Result : Type}

open Maintains

/-! ## Parts -/

theorem rests_frame : Maintains Machine.Rests frame :=
  fun _ => rfl

theorem rests_modifyFrame {change : Frame → Frame}
    (memory : ∀ frame : Frame, (change frame).memory = frame.memory) :
    Maintains Machine.Rests (modifyFrame change) :=
  fun machine => memory machine.frame

theorem rests_ofExcept (result : Except Halt Value) :
    Maintains Machine.Rests (ofExcept result) := by
  cases result with
  | ok value => exact .pure value
  | error reason => exact .halt reason

theorem rests_tryFrame {change : Frame → Except Halt Frame}
    (memory : ∀ frame changed, change frame = .ok changed → changed.memory = frame.memory) :
    Maintains Machine.Rests (tryFrame change) :=
  fun machine => .tryFrame rfl fun changed made => memory machine.frame changed made

theorem memory_useGas {frame after : Frame} {amount : UInt64}
    (paid : frame.useGas amount = .ok after) : after.memory = frame.memory := by
  unfold Frame.useGas at paid
  split at paid
  · cases paid
    rfl
  · cases paid

theorem rests_useGas (amount : UInt64) : Maintains Machine.Rests (useGas amount) :=
  rests_tryFrame fun _ _ => memory_useGas

theorem rests_tryStack (change : Stack → Except Halt Stack) :
    Maintains Machine.Rests
      (tryFrame fun frame => do return { frame with stack := ← change frame.stack }) := by
  apply rests_tryFrame
  intro frame moved changed
  obtain ⟨stack, _, made⟩ := bind_eq_ok changed
  cases made
  rfl

theorem rests_push (word : Word) : Maintains Machine.Rests (push word) :=
  rests_tryStack (·.push word)

theorem rests_dropWords (count : Nat) : Maintains Machine.Rests (dropWords count) :=
  rests_tryStack (·.drop count)

theorem rests_pop : Maintains Machine.Rests pop := by
  intro machine
  have leads : Leads (ofExcept machine.frame.pop >>= fun taken => do
      modifyFrame fun _ => taken.2
      return taken.1) machine machine.Rests fun _ => machine.Rests := by
    refine .ofExcept rfl fun taken popped => ?_
    obtain ⟨top, _, made⟩ := bind_eq_ok popped
    cases made
    rfl
  exact leads

theorem rests_peek (depth : Nat) : Maintains Machine.Rests (peek depth) :=
  .bind rests_frame fun _ => rests_ofExcept _

theorem rests_popWords (count : Nat) : Maintains Machine.Rests (popWords count) := by
  induction count with
  | zero => exact .pure []
  | succ count ih => exact .bind rests_pop fun _ => .bind ih fun _ => .pure _

theorem rests_warmAddress (address : Address) : Maintains Machine.Rests (warmAddress address) :=
  fun _ => rfl

theorem rests_warmSlot (address : Address) (slot : Word) :
    Maintains Machine.Rests (warmSlot address slot) :=
  fun _ => rfl

theorem rests_onWorld (operation : Journaled Value) : Maintains Machine.Rests (onWorld operation) :=
  fun _ => .onWorld fun _ _ _ => rfl

theorem rests_readMemory (range : MemoryRange) : Maintains Machine.Rests (readMemory range) :=
  .bind rests_frame fun _ => .pure _

theorem rests_requireWritable : Maintains Machine.Rests requireWritable :=
  .bind rests_frame fun _ => .ite (.halt _) (.pure ())

theorem rests_holdsLess (address : Address) (amount : Word) :
    Maintains Machine.Rests (holdsLess address amount) :=
  .bind (rests_onWorld _) fun _ => .pure _

theorem rests_requireReturnData : Maintains Machine.Rests requireReturnData :=
  .bind (rests_peek _) fun _ => .bind (rests_peek _) fun _ => .bind rests_frame fun _ =>
    .ite (.halt _) (.pure ())

theorem rests_abandon (operands : Nat) : Maintains Machine.Rests (abandon operands) :=
  .bind (rests_modifyFrame fun _ => rfl) fun _ => .bind (rests_dropWords operands)
    fun _ => rests_push 0

/-! ## Instructions -/

theorem rests_unary (op : UnaryOp) : Maintains Machine.Rests (unary op) :=
  .bind (rests_useGas _) fun _ => .bind rests_pop fun _ => rests_push _

theorem rests_binary (op : BinaryOp) : Maintains Machine.Rests (binary op) :=
  .bind (rests_useGas _) fun _ => .bind rests_pop fun _ => .bind rests_pop fun _ => rests_push _

theorem rests_ternary (op : TernaryOp) : Maintains Machine.Rests (ternary op) :=
  .bind (rests_useGas _) fun _ => .bind rests_pop fun _ => .bind rests_pop fun _ =>
    .bind rests_pop fun _ => rests_push _

theorem rests_exp : Maintains Machine.Rests exp :=
  .bind rests_pop fun _ => .bind rests_pop fun _ => .bind (rests_useGas _) fun _ => rests_push _

theorem rests_queryValue (context : Context) (what : Query) :
    Maintains Machine.Rests (queryValue context what) := by
  refine .bind rests_frame fun frame => ?_
  cases what with
  | selfBalance => exact rests_onWorld _
  | _ => exact .pure _

theorem rests_query (context : Context) (what : Query) :
    Maintains Machine.Rests (query context what) :=
  .bind (rests_useGas _) fun _ => .bind (rests_queryValue context what) fun _ => rests_push _

theorem rests_accountAnswer (address : Address) (what : AccountQuery) :
    Maintains Machine.Rests (accountAnswer address what) := by
  cases what with
  | balance => exact rests_onWorld _
  | codeSize => exact .bind (rests_onWorld _) fun _ => .pure _
  | codeHash =>
      refine .bind (rests_onWorld _) fun found => ?_
      cases found <;> exact .pure _

theorem rests_accountQuery (what : AccountQuery) : Maintains Machine.Rests (accountQuery what) :=
  .bind rests_pop fun _ => .bind (rests_warmAddress _) fun _ => .bind (rests_useGas _)
    fun _ => .bind (rests_accountAnswer _ what) fun _ => rests_push _

theorem rests_callDataLoad : Maintains Machine.Rests callDataLoad := by
  refine .bind (rests_useGas _) fun _ => .bind rests_pop fun offset => .bind rests_frame
    fun _ => ?_
  cases offset.toIndex? <;> exact rests_push _

theorem rests_blockHash (context : Context) : Maintains Machine.Rests (blockHash context) :=
  .bind (rests_useGas _) fun _ => .bind rests_pop fun _ => rests_push _

theorem rests_discardTop : Maintains Machine.Rests discardTop :=
  .bind (rests_useGas _) fun _ => .bind rests_pop fun _ => .pure _

theorem rests_sload : Maintains Machine.Rests sload :=
  .bind rests_pop fun _ => .bind rests_frame fun _ => .bind (rests_warmSlot _ _) fun _ =>
    .bind (rests_useGas _) fun _ => .bind (rests_onWorld _) fun _ => rests_push _

theorem memory_addRefund (frame : Frame) (amount : Int) :
    (frame.addRefund amount).memory = frame.memory := by
  unfold Frame.addRefund
  split <;> rfl

theorem rests_sstore (clearRefund : Int) : Maintains Machine.Rests (sstore clearRefund) :=
  .bind rests_requireWritable fun _ => .bind rests_frame fun _ => .ite (.halt _) <|
    .bind rests_pop fun _ => .bind rests_pop fun _ => .bind rests_frame fun _ =>
      .bind (rests_warmSlot _ _) fun _ => .bind (rests_onWorld _) fun _ =>
        .bind (rests_onWorld _) fun _ => .bind (rests_useGas _) fun _ =>
          .bind (rests_modifyFrame (memory_addRefund · _)) fun _ => rests_onWorld _

theorem rests_jumpTo (destination : Word) : Maintains Machine.Rests (jumpTo destination) := by
  apply rests_tryFrame
  intro frame changed moved
  obtain ⟨pc, _, made⟩ := bind_eq_ok moved
  cases made
  rfl

theorem rests_jump : Maintains Machine.Rests jump :=
  .bind (rests_useGas _) fun _ => .bind rests_pop fun _ => .bind (rests_jumpTo _) fun _ => .pure _

theorem rests_jumpIf : Maintains Machine.Rests jumpIf :=
  .bind (rests_useGas _) fun _ => .bind rests_pop fun _ => .bind rests_pop fun _ =>
    .ite (.pure _) (.bind (rests_jumpTo _) fun _ => .pure _)

theorem rests_pushImmediate (size : Fin 33) : Maintains Machine.Rests (pushImmediate size) :=
  .bind (rests_useGas _) fun _ => .bind rests_frame fun _ => rests_push _

theorem rests_dup (depth : Fin 16) : Maintains Machine.Rests (dup depth) :=
  .bind (rests_useGas _) fun _ => rests_tryStack (·.dup depth)

theorem rests_swap (depth : Fin 16) : Maintains Machine.Rests (swap depth) :=
  .bind (rests_useGas _) fun _ => rests_tryStack (·.swap (depth + 1))

theorem memory_addSelfDestruct (frame : Frame) (address : Address) :
    (frame.addSelfDestruct address).memory = frame.memory := by
  unfold Frame.addSelfDestruct
  split <;> rfl

theorem memory_addLog (frame : Frame) (log : Log) : (frame.addLog log).memory = frame.memory := by
  unfold Frame.addLog
  split <;> rfl

theorem rests_selfDestruct : Maintains Machine.Rests selfDestruct :=
  .bind rests_requireWritable fun _ => .bind rests_pop fun _ => .bind rests_frame fun _ =>
    .bind (rests_onWorld _) fun _ => .bind (rests_warmAddress _) fun _ =>
      .join (rests_onWorld _) (.pure false) fun _ => .bind (rests_useGas _) fun _ =>
        .bind (rests_onWorld _) fun _ => .bind (rests_onWorld _) fun _ =>
          rests_modifyFrame fun _ => memory_addSelfDestruct _ _

theorem rests_execute (schedule : GasSchedule) (context : Context) {instruction : Instruction}
    (rests : ¬instruction.TouchesMemory) :
    Maintains Machine.Rests (instruction.execute schedule context) := by
  have ordinary {action : Action Unit} (rests : Maintains Machine.Rests action) :
      Maintains Machine.Rests (do action; return instruction.size) :=
    .bind rests fun _ => .pure _
  cases instruction with
  | jump => exact rests_jump
  | jumpIf => exact rests_jumpIf
  | stop => exact ordinary (rests_modifyFrame fun _ => rfl)
  | unary op => exact ordinary (rests_unary op)
  | binary op => exact ordinary (rests_binary op)
  | ternary op => exact ordinary (rests_ternary op)
  | exp => exact ordinary rests_exp
  | query what => exact ordinary (rests_query context what)
  | accountQuery what => exact ordinary (rests_accountQuery what)
  | callDataLoad => exact ordinary rests_callDataLoad
  | blockHash => exact ordinary (rests_blockHash context)
  | pop => exact ordinary rests_discardTop
  | sload => exact ordinary rests_sload
  | sstore => exact ordinary (rests_sstore _)
  | jumpDest => exact ordinary (rests_useGas _)
  | push size => exact ordinary (rests_pushImmediate size)
  | dup depth => exact ordinary (rests_dup depth)
  | swap depth => exact ordinary (rests_swap depth)
  | invalid => exact ordinary (.halt _)
  | selfDestruct => exact ordinary rests_selfDestruct
  | _ => exact absurd trivial rests

/-! ## Windows of calls -/

theorem fits_memoryRanges {kind : CallKind} {stack : Stack} {ranges : MemoryRange × MemoryRange}
    (named : kind.memoryRanges stack = .ok ranges) : ranges.1.Fits ∧ ranges.2.Fits := by
  obtain ⟨_, _, rest⟩ := bind_eq_ok named
  obtain ⟨_, _, rest⟩ := bind_eq_ok rest
  obtain ⟨input, inputNamed, rest⟩ := bind_eq_ok rest
  obtain ⟨_, _, rest⟩ := bind_eq_ok rest
  obtain ⟨_, _, rest⟩ := bind_eq_ok rest
  obtain ⟨output, outputNamed, rest⟩ := bind_eq_ok rest
  cases rest
  exact ⟨MemoryRange.fits_ofWords inputNamed, MemoryRange.fits_ofWords outputNamed⟩

theorem rests_requestChild (kind : CallKind) (reservation : Reservation) :
    Maintains Machine.Rests (requestChild kind reservation) := by
  refine .bind rests_frame fun caller => .join (rests_holdsLess _ _) (.pure _) fun _ => .ite ?_ ?_
  · exact .bind (rests_modifyFrame fun _ => rfl) fun _ => rests_abandon _
  · exact .bind (rests_readMemory _) fun _ => .bind (rests_onWorld _) fun _ =>
      rests_modifyFrame fun _ => rfl

theorem covers_chargeMemory (range : MemoryRange) (machine : Machine) :
    Leads (chargeMemory range) machine (fun _ => True)
      fun _ after => after.frame.memory.Covers range := by
  refine .tryFrame trivial fun payer charged => ?_
  obtain ⟨paid, _, made⟩ := bind_eq_ok charged
  cases made
  exact Memory.covers_expand ..

/-- What a call pays for covers the window of its output, though it pays only for the further of
its two windows. -/
theorem covers_reserve (kind : CallKind) (machine : Machine) :
    Leads (reserve kind) machine (fun _ => True) fun _ after => ∀ ranges,
      kind.memoryRanges machine.frame.stack = .ok ranges →
        after.frame.memory.Covers ranges.2 := by
  apply (peeks_peek 0).reach (refl_of Machine.Peeks machine) fun _ _ => trivial
  intro requestedGas _ reached
  apply (peeks_peek 1).reach reached fun _ _ => trivial
  intro target _ reached
  apply Leads.join fun _ => machine.Peeks
  · exact fun _ => (peeks_peek 2).reaches reached fun _ _ => trivial
  · exact fun _ => reached
  intro value _ reached
  apply Leads.frame
  apply Leads.ofExcept trivial
  intro ranges named
  rw [reached.stack] at named
  apply Leads.frame
  apply Leads.ite fun _ => Leads.halt trivial
  intro _
  apply (rests_warmAddress _).reach (refl_of Machine.Rests _) fun _ _ => trivial
  intro isCold _ _
  apply Leads.join fun _ _ => True
  · exact fun _ => ((rests_onWorld _).reaches (refl_of Machine.Rests _) fun _ _ => trivial).mono
      fun _ _ _ => trivial
  · exact fun _ => trivial
  intro createsAccount _ _
  apply (rests_useGas _).reach (refl_of Machine.Rests _) fun _ _ => trivial
  intro _ payer _
  apply Leads.bind
  apply (covers_chargeMemory _ payer).mono
  intro _ charged covers
  apply Leads.frame
  apply (rests_useGas _).reach (refl_of Machine.Rests charged) fun _ _ => trivial
  intro _ after rests found again
  rw [named] at again
  cases again
  have same : after.frame.memory = charged.frame.memory := rests
  rw [same]
  exact covers.of_furthest.2

theorem covers_call (kind : CallKind) (machine : Machine) :
    Leads (call kind) machine (fun _ => True) fun _ after => ∀ ranges,
      kind.memoryRanges machine.frame.stack = .ok ranges →
        after.frame.memory.Covers ranges.2 := by
  rw [call_eq]
  apply Leads.bind
  apply (covers_reserve kind machine).mono
  intro reservation reserved covers
  apply ((rests_requestChild kind reservation).reaches (refl_of Machine.Rests reserved)
    fun _ _ => trivial).mono
  intro _ after rests ranges named
  have same : after.frame.memory = reserved.frame.memory := rests
  rw [same]
  exact covers ranges named

end Action

end ExecutionLayer
