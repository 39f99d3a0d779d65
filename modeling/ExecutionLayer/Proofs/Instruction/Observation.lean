import ExecutionLayer.Instruction.Step
import ExecutionLayer.Proofs.Instruction.Access
import ExecutionLayer.Proofs.Instruction.Ordinary
import Mathlib.Order.Defs.Unbundled

/-!
# Instructions that only look

Most instructions work on operands, memory, gas and warm sets and ask the world questions.
They leave every reading of the world and everything the frame recorded as it was, also
where they halt.
-/

set_option autoImplicit false

namespace ExecutionLayer

open JournaledWorld (Continues)

/-- The frame has no logs, destroys no account and counts no refund. -/
structure Frame.Bare (frame : Frame) : Prop where
  logs : frame.logs = []
  selfDestructs : frame.selfDestructs = ∅
  refund : frame.refund = 0

theorem Frame.Bare.congr {before after : Frame} (bare : before.Bare)
    (logs : after.logs = before.logs) (selfDestructs : after.selfDestructs = before.selfDestructs)
    (refund : after.refund = before.refund) : after.Bare :=
  ⟨logs.trans bare.logs, selfDestructs.trans bare.selfDestructs, refund.trans bare.refund⟩

/-- What work on operands, memory, gas and warm sets leaves of a frame as it was. The warm
sets lose nothing. -/
structure Frame.Works (before after : Frame) : Prop extends before.Keeps after where
  logs : after.logs = before.logs
  selfDestructs : after.selfDestructs = before.selfDestructs
  refund : after.refund = before.refund
  warms : before.Warms after

theorem Frame.Works.refl (frame : Frame) : frame.Works frame :=
  ⟨.refl frame, rfl, rfl, rfl, fun _ => id⟩

theorem Frame.Works.trans {before middle after : Frame} (first : before.Works middle)
    (second : middle.Works after) : before.Works after :=
  ⟨first.toKeeps.trans second.toKeeps, second.logs.trans first.logs,
    second.selfDestructs.trans first.selfDestructs, second.refund.trans first.refund,
    first.warms.trans second.warms⟩

theorem Frame.Works.bare {before after : Frame} (works : before.Works after)
    (bare : before.Bare) : after.Bare :=
  bare.congr works.logs works.selfDestructs works.refund

theorem Frame.refund_addRefund_congr {before after : Frame}
    (status : after.status = before.status) (refund : after.refund = before.refund)
    (amount : Int) : (after.addRefund amount).refund = (before.addRefund amount).refund := by
  unfold addRefund
  rw [status, refund]
  split
  · rfl
  · exact refund

theorem Frame.stack_addRefund (frame : Frame) (amount : Int) :
    (frame.addRefund amount).stack = frame.stack := by
  unfold addRefund
  split <;> rfl

theorem Frame.works_useGas {frame after : Frame} {amount : UInt64}
    (paid : frame.useGas amount = .ok after) : frame.Works after ∧ after.stack = frame.stack := by
  unfold Frame.useGas at paid
  split at paid
  · cases paid
    exact ⟨⟨⟨rfl, rfl, rfl, rfl, rfl⟩, rfl, rfl, rfl, fun _ => id⟩, rfl⟩
  · cases paid

theorem Frame.works_returnGas (frame : Frame) (amount : UInt64) :
    frame.Works (frame.returnGas amount) :=
  ⟨⟨rfl, rfl, rfl, rfl, rfl⟩, rfl, rfl, rfl, fun _ => id⟩

/-- The instruction neither moves the program counter by itself nor ends the code, asks for a
child, or writes anything but operands and memory. -/
def Instruction.OnlyLooks : Instruction → Prop
  | .jump | .jumpIf | .stop | .return | .revert | .invalid | .selfDestruct => False
  | .call _ | .create _ | .sstore | .log _ => False
  | _ => True

/-! ## What a machine keeps -/

namespace Machine

/-- The frame is where it was, and what the world wrote can be undone. A frame that may
only read wrote nothing. -/
structure Reversible (before after : Machine) : Prop where
  frame : before.frame.Keeps after.frame
  continues : Continues before.world after.world
  readings : before.frame.message.isStatic = true → after.world.readings = before.world.readings

/-- The frame recorded nothing, and the world was only asked. -/
structure Observes (before after : Machine) : Prop where
  frame : before.frame.Works after.frame
  readings : after.world.readings = before.world.readings
  continues : Continues before.world after.world

/-- As `Observes`, with the operands where they were. -/
structure Peeks (before after : Machine) : Prop extends before.Observes after where
  stack : after.frame.stack = before.frame.stack

theorem Reversible.trans {before middle after : Machine} (first : before.Reversible middle)
    (second : middle.Reversible after) : before.Reversible after := by
  refine ⟨first.frame.trans second.frame, first.continues.trans second.continues, ?_⟩
  intro isStatic
  have isStaticMiddle : middle.frame.message.isStatic = true := by
    rw [first.frame.message, isStatic]
  exact (second.readings isStaticMiddle).trans (first.readings isStatic)

instance : IsPreorder Machine Observes where
  refl _ := ⟨.refl _, rfl, .refl _⟩
  trans _ _ _ first second :=
    ⟨first.frame.trans second.frame, second.readings.trans first.readings,
      first.continues.trans second.continues⟩

instance : IsPreorder Machine Peeks where
  refl machine := ⟨refl_of Observes machine, rfl⟩
  trans _ _ _ first second :=
    ⟨trans_of Observes first.toObserves second.toObserves, second.stack.trans first.stack⟩

theorem Observes.reversible {before after : Machine} (observes : before.Observes after) :
    before.Reversible after :=
  ⟨observes.frame.toKeeps, observes.continues, fun _ => observes.readings⟩

end Machine

/-! ## Questions to the world -/

namespace Journaled

variable {Value Result : Type}

/-- The operation changes no reading, and what it wrote can be undone. -/
def Asks (operation : Journaled Value) : Prop :=
  ∀ world value after, operation world = .ok value after →
    after.readings = world.readings ∧ Continues world after

theorem Follows.asks {operation : Journaled Value} {question : Readings → Except StateError Value}
    (follows : Follows operation (.ask question)) : Asks operation :=
  fun _ _ _ ran => (follows.ask_eq_ok ran).2

theorem asks_question (question : Option Account → Value) (address : Address) :
    Asks (do return question (← account address)) := by
  intro world value after ran
  obtain ⟨found, middle, read, answered⟩ := bind_eq_ok ran
  cases answered
  exact (follows_account address).asks world found after read

theorem Follows.continues {operation : Journaled Value} {model : Observed Value}
    (follows : Follows operation model) {world after : JournaledWorld} {value : Value}
    (ran : operation world = .ok value after) : Continues world after :=
  (follows.run_ok ran).2

end Journaled

/-! ## Where actions lead -/

namespace Action

variable {Value Result : Type}

/-- Where an action leads if it halts the frame and if it ends. Nothing is said of a fault of
the world, which no frame survives. -/
def Leads (action : Action Value) (machine : Machine) (halted : Machine → Prop)
    (ended : Value → Machine → Prop) : Prop :=
  match action machine with
  | .ok value after => ended value after
  | .error (.halt _) after => halted after
  | .error (.state _) _ => True

namespace Leads

variable {action : Action Value} {next : Value → Action Result} {machine : Machine}
  {halted : Machine → Prop}

theorem mono {ended weaker : Value → Machine → Prop} (leads : Leads action machine halted ended)
    (weaken : ∀ value after, ended value after → weaker value after) :
    Leads action machine halted weaker := by
  unfold Leads at *
  split at leads
  · exact weaken _ _ leads
  · exact leads
  · trivial

theorem bind {ended : Result → Machine → Prop}
    (leads : Leads action machine halted fun value after => Leads (next value) after halted ended) :
    Leads (action >>= next) machine halted ended := by
  unfold Leads at leads
  cases ran : action machine with
  | ok value after =>
      rw [ran] at leads
      simpa only [Leads, Bind.bind, EStateM.bind, ran] using leads
  | error fault after =>
      rw [ran] at leads
      cases fault with
      | halt reason => simpa only [Leads, Bind.bind, EStateM.bind, ran] using leads
      | state error => simp only [Leads, Bind.bind, EStateM.bind, ran]

theorem ite {condition : Prop} [Decidable condition] {left right : Action Value}
    {ended : Value → Machine → Prop} (whenTrue : condition → Leads left machine halted ended)
    (whenFalse : ¬condition → Leads right machine halted ended) :
    Leads (if condition then left else right) machine halted ended := by
  split
  case isTrue holds => exact whenTrue holds
  case isFalse fails => exact whenFalse fails

theorem halt {reason : Halt} {next : Value → Action Result} {ended : Result → Machine → Prop}
    (holds : halted machine) : Leads (Action.halt reason >>= next) machine halted ended :=
  holds

theorem frame {next : Frame → Action Result} {ended : Result → Machine → Prop}
    (later : Leads (next machine.frame) machine halted ended) :
    Leads (Action.frame >>= next) machine halted ended :=
  later

/-- Goes on from either of two beginnings that meet. -/
theorem join {condition : Prop} [Decidable condition] {first second : Action Value}
    {ended : Result → Machine → Prop} (meet : Value → Machine → Prop)
    (whenTrue : condition → Leads first machine halted meet)
    (whenFalse : ¬condition → Leads second machine halted meet)
    (later : ∀ value after, meet value after → Leads (next value) after halted ended) :
    Leads (if condition then first >>= next else second >>= next) machine halted ended := by
  apply ite
  · exact fun holds => bind ((whenTrue holds).mono later)
  · exact fun fails => bind ((whenFalse fails).mono later)

theorem ofExcept {result : Except Halt Value} {next : Value → Action Result}
    {ended : Result → Machine → Prop} (holds : halted machine)
    (later : ∀ value, result = .ok value → Leads (next value) machine halted ended) :
    Leads (Action.ofExcept result >>= next) machine halted ended := by
  cases result with
  | ok value => exact later value rfl
  | error reason => exact holds

theorem tryFrame {change : Frame → Except Halt Frame} {ended : Unit → Machine → Prop}
    (holds : halted machine)
    (changes : ∀ frame, change machine.frame = .ok frame → ended () { machine with frame }) :
    Leads (Action.tryFrame change) machine halted ended := by
  have leads : Leads (Action.ofExcept (change machine.frame) >>= fun frame =>
      Action.modifyFrame fun _ => frame) machine halted ended :=
    ofExcept holds changes
  exact leads

theorem onWorld {operation : Journaled Value} {ended : Value → Machine → Prop}
    (holds : ∀ value world, operation machine.world = .ok value world →
      ended value { machine with world }) :
    Leads (Action.onWorld operation) machine halted ended := by
  cases ran : operation machine.world with
  | ok value world =>
      simpa only [Leads, Action.onWorld, ran] using holds value world ran
  | error error world => simp only [Leads, Action.onWorld, ran]

end Leads

/-- The action keeps a machine in the relation to where it began, whether it halts or ends. -/
def Maintains (relation : Machine → Machine → Prop) (action : Action Value) : Prop :=
  ∀ machine, Leads action machine (relation machine) fun _ => relation machine

namespace Maintains

variable {relation : Machine → Machine → Prop} {action : Action Value}
  {next : Value → Action Result}

theorem mono {weaker : Machine → Machine → Prop} (maintains : Maintains relation action)
    (weaken : ∀ before after, relation before after → weaker before after) :
    Maintains weaker action := by
  intro machine
  have leads := maintains machine
  unfold Leads at *
  split at leads
  · exact weaken _ _ leads
  · exact weaken _ _ leads
  · trivial

theorem observes {action : Action Value} (peeks : Maintains Machine.Peeks action) :
    Maintains Machine.Observes action :=
  peeks.mono fun _ _ => Machine.Peeks.toObserves

theorem ite {condition : Prop} [Decidable condition] {left right : Action Value}
    (whenTrue : Maintains relation left) (whenFalse : Maintains relation right) :
    Maintains relation (if condition then left else right) := by
  split
  · exact whenTrue
  · exact whenFalse

variable [IsPreorder Machine relation]

/-- Goes on from a machine in the relation to where an instruction began. -/
theorem reach (maintains : Maintains relation action) {start machine : Machine}
    {halted : Machine → Prop} {ended : Result → Machine → Prop} (reached : relation start machine)
    (halts : ∀ after, relation start after → halted after)
    (later : ∀ value after, relation start after → Leads (next value) after halted ended) :
    Leads (action >>= next) machine halted ended := by
  apply Leads.bind
  have leads := maintains machine
  unfold Leads at leads ⊢
  split at leads
  · exact later _ _ (trans_of relation reached leads)
  · exact halts _ (trans_of relation reached leads)
  · trivial

theorem reaches (maintains : Maintains relation action) {start machine : Machine}
    {halted : Machine → Prop} (reached : relation start machine)
    (halts : ∀ after, relation start after → halted after) :
    Leads action machine halted fun _ => relation start := by
  have leads := maintains machine
  unfold Leads at leads ⊢
  split at leads
  · exact trans_of relation reached leads
  · exact halts _ (trans_of relation reached leads)
  · trivial

theorem pure (value : Value) : Maintains relation (Pure.pure value) :=
  fun machine => refl_of relation machine

theorem bind (first : Maintains relation action)
    (second : ∀ value, Maintains relation (next value)) : Maintains relation (action >>= next) :=
  fun machine => first.reach (refl_of relation machine) (fun _ => id) fun value _ reached =>
    (second value).reaches reached fun _ => id

theorem join {condition : Prop} [Decidable condition] {other : Action Value}
    (whenTrue : Maintains relation action) (whenFalse : Maintains relation other)
    (later : ∀ value, Maintains relation (next value)) :
    Maintains relation (if condition then action >>= next else other >>= next) :=
  .ite (.bind whenTrue later) (.bind whenFalse later)

theorem halt (reason : Halt) : Maintains relation (Action.halt reason : Action Value) :=
  fun machine => refl_of relation machine

end Maintains

open Maintains

/-! ## Parts that leave the operands where they are -/

theorem peeks_ofExcept (result : Except Halt Value) :
    Maintains Machine.Peeks (ofExcept result) := by
  cases result with
  | ok value => exact .pure value
  | error reason => exact .halt reason

theorem peeks_frame : Maintains Machine.Peeks frame :=
  refl_of Machine.Peeks

theorem peeks_peek (depth : Nat) : Maintains Machine.Peeks (peek depth) :=
  .bind peeks_frame fun frame => peeks_ofExcept (frame.stack.peek depth)

theorem peeks_rangeOf (offset length : Word) : Maintains Machine.Peeks (rangeOf offset length) :=
  peeks_ofExcept _

theorem peeks_tryFrame {change : Frame → Except Halt Frame}
    (works : ∀ frame changed : Frame, change frame = .ok changed →
      frame.Works changed ∧ changed.stack = frame.stack) :
    Maintains Machine.Peeks (tryFrame change) := by
  intro machine
  refine .tryFrame (refl_of Machine.Peeks machine) fun frame changed => ?_
  obtain ⟨works, stack⟩ := works machine.frame frame changed
  exact ⟨⟨works, rfl, .refl _⟩, stack⟩

theorem peeks_useGas (amount : UInt64) : Maintains Machine.Peeks (useGas amount) :=
  peeks_tryFrame fun _ _ => Frame.works_useGas

theorem peeks_chargeMemory (range : MemoryRange) :
    Maintains Machine.Peeks (chargeMemory range) := by
  apply peeks_tryFrame
  intro frame changed charged
  obtain ⟨payer, paid, expanded⟩ := bind_eq_ok charged
  obtain ⟨⟨kept, logs, selfDestructs, refund, warms⟩, stack⟩ := Frame.works_useGas paid
  cases expanded
  exact ⟨⟨⟨kept.message, kept.status, kept.pc, kept.pendingChild, kept.checkpoint⟩, logs,
    selfDestructs, refund, warms⟩, stack⟩

theorem peeks_warmAddress (address : Address) : Maintains Machine.Peeks (warmAddress address) :=
  fun machine => ⟨⟨⟨⟨rfl, rfl, rfl, rfl, rfl⟩, rfl, rfl, rfl,
    machine.frame.warms_warmAddress address⟩, rfl, .refl _⟩, rfl⟩

theorem peeks_warmSlot (address : Address) (slot : Word) :
    Maintains Machine.Peeks (warmSlot address slot) :=
  fun machine => ⟨⟨⟨⟨rfl, rfl, rfl, rfl, rfl⟩, rfl, rfl, rfl,
    machine.frame.warms_warmSlot address slot⟩, rfl, .refl _⟩, rfl⟩

theorem peeks_readMemory (range : MemoryRange) : Maintains Machine.Peeks (readMemory range) :=
  .bind peeks_frame fun _ => .pure _

theorem peeks_onWorld {operation : Journaled Value} (asks : Journaled.Asks operation) :
    Maintains Machine.Peeks (onWorld operation) := by
  refine fun machine => .onWorld fun value world ran => ?_
  obtain ⟨same, continues⟩ := asks machine.world value world ran
  exact ⟨⟨.refl _, same, continues⟩, rfl⟩

theorem peeks_question (question : Option Account → Value) (address : Address) :
    Maintains Machine.Peeks (onWorld (do return question (← Journaled.account address))) :=
  peeks_onWorld (Journaled.asks_question question address)

theorem peeks_balance (address : Address) :
    Maintains Machine.Peeks (onWorld (Journaled.balance address)) :=
  peeks_question (fun account => (account.getD {}).balance) address

theorem peeks_code (address : Address) :
    Maintains Machine.Peeks (onWorld (Journaled.code address)) :=
  peeks_question (fun account => (account.getD {}).code) address

theorem peeks_holdsLess (address : Address) (amount : Word) :
    Maintains Machine.Peeks (holdsLess address amount) :=
  .bind (peeks_balance address) fun _ => .pure _

/-! ## Parts that move operands or memory -/

theorem observes_modifyFrame {change : Frame → Frame}
    (works : ∀ frame : Frame, frame.Works (change frame)) :
    Maintains Machine.Observes (modifyFrame change) :=
  fun machine => ⟨works machine.frame, rfl, .refl _⟩

theorem observes_writeMemory (offset : Nat) (data : Bytes) :
    Maintains Machine.Observes (writeMemory offset data) :=
  observes_modifyFrame fun _ => ⟨⟨rfl, rfl, rfl, rfl, rfl⟩, rfl, rfl, rfl, fun _ => id⟩

theorem observes_tryStack (change : Stack → Except Halt Stack) :
    Maintains Machine.Observes
      (tryFrame fun frame => do return { frame with stack := ← change frame.stack }) := by
  intro machine
  refine .tryFrame (refl_of Machine.Observes machine) fun frame moved => ?_
  obtain ⟨stack, _, made⟩ := bind_eq_ok moved
  cases made
  exact ⟨⟨⟨rfl, rfl, rfl, rfl, rfl⟩, rfl, rfl, rfl, fun _ => id⟩, rfl, .refl _⟩

theorem observes_push (word : Word) : Maintains Machine.Observes (push word) :=
  observes_tryStack (·.push word)

theorem observes_dropWords (count : Nat) : Maintains Machine.Observes (dropWords count) :=
  observes_tryStack (·.drop count)

theorem observes_pop : Maintains Machine.Observes pop := by
  intro machine
  have leads : Leads (ofExcept machine.frame.pop >>= fun taken => do
      modifyFrame fun _ => taken.2
      return taken.1) machine (machine.Observes) fun _ => machine.Observes := by
    refine .ofExcept (refl_of Machine.Observes machine) fun taken popped => ?_
    obtain ⟨top, _, made⟩ := bind_eq_ok popped
    cases made
    exact ⟨⟨⟨rfl, rfl, rfl, rfl, rfl⟩, rfl, rfl, rfl, fun _ => id⟩, rfl, .refl _⟩
  exact leads

theorem observes_abandon (operands : Nat) : Maintains Machine.Observes (abandon operands) :=
  .bind (observes_modifyFrame fun _ => ⟨⟨rfl, rfl, rfl, rfl, rfl⟩, rfl, rfl, rfl, fun _ => id⟩)
    fun _ => .bind (observes_dropWords operands) fun _ => observes_push 0

theorem observes_popOutput : Maintains Machine.Observes popOutput :=
  .bind observes_pop fun _ => .bind observes_pop fun _ => .bind (peeks_rangeOf _ _).observes
    fun range => .bind (peeks_chargeMemory range).observes
      fun _ => (peeks_readMemory range).observes

/-! ## Computation -/

theorem observes_unary (op : UnaryOp) : Maintains Machine.Observes (unary op) :=
  .bind (peeks_useGas _).observes fun _ => .bind observes_pop fun _ => observes_push _

theorem observes_binary (op : BinaryOp) : Maintains Machine.Observes (binary op) :=
  .bind (peeks_useGas _).observes fun _ => .bind observes_pop fun _ => .bind observes_pop
    fun _ => observes_push _

theorem observes_ternary (op : TernaryOp) : Maintains Machine.Observes (ternary op) :=
  .bind (peeks_useGas _).observes fun _ => .bind observes_pop fun _ => .bind observes_pop
    fun _ => .bind observes_pop fun _ => observes_push _

theorem observes_exp : Maintains Machine.Observes exp :=
  .bind observes_pop fun _ => .bind observes_pop fun _ => .bind (peeks_useGas _).observes
    fun _ => observes_push _

theorem observes_keccak : Maintains Machine.Observes keccak :=
  .bind observes_pop fun _ => .bind observes_pop fun _ => .bind (peeks_rangeOf _ _).observes
    fun range => .bind (peeks_useGas _).observes fun _ => .bind (peeks_chargeMemory range).observes
      fun _ => .bind (peeks_readMemory range).observes fun _ => observes_push _

theorem observes_pushImmediate (size : Fin 33) : Maintains Machine.Observes (pushImmediate size) :=
  .bind (peeks_useGas _).observes fun _ => .bind peeks_frame.observes fun _ => observes_push _

theorem observes_dup (depth : Fin 16) : Maintains Machine.Observes (dup depth) :=
  .bind (peeks_useGas _).observes fun _ => observes_tryStack (·.dup depth)

theorem observes_swap (depth : Fin 16) : Maintains Machine.Observes (swap depth) :=
  .bind (peeks_useGas _).observes fun _ => observes_tryStack (·.swap (depth + 1))

theorem observes_discardTop : Maintains Machine.Observes discardTop :=
  .bind (peeks_useGas _).observes fun _ => .bind observes_pop fun _ => .pure ()

theorem observes_mload : Maintains Machine.Observes mload :=
  .bind observes_pop fun _ => .bind (peeks_ofExcept _).observes fun range =>
    .bind (peeks_useGas _).observes fun _ => .bind (peeks_chargeMemory range).observes
      fun _ => .bind peeks_frame.observes fun _ => observes_push _

theorem observes_mstore : Maintains Machine.Observes mstore :=
  .bind observes_pop fun _ => .bind observes_pop fun _ => .bind (peeks_ofExcept _).observes
    fun range => .bind (peeks_useGas _).observes fun _ => .bind (peeks_chargeMemory range).observes
      fun _ => observes_writeMemory _ _

theorem observes_mstore8 : Maintains Machine.Observes mstore8 :=
  .bind observes_pop fun _ => .bind observes_pop fun _ => .bind (peeks_ofExcept _).observes
    fun range => .bind (peeks_useGas _).observes fun _ => .bind (peeks_chargeMemory range).observes
      fun _ => observes_writeMemory _ _

/-! ## The environment -/

theorem observes_queryValue (context : Context) (what : Query) :
    Maintains Machine.Observes (queryValue context what) := by
  refine .bind peeks_frame.observes fun frame => ?_
  cases what with
  | selfBalance => exact (peeks_balance frame.message.recipient).observes
  | _ => exact .pure _

theorem observes_query (context : Context) (what : Query) :
    Maintains Machine.Observes (query context what) :=
  .bind (peeks_useGas _).observes fun _ => .bind (observes_queryValue context what)
    fun _ => observes_push _

theorem observes_accountAnswer (address : Address) (what : AccountQuery) :
    Maintains Machine.Observes (accountAnswer address what) := by
  cases what with
  | balance => exact (peeks_balance address).observes
  | codeSize => exact .bind (peeks_code address).observes fun _ => .pure _
  | codeHash =>
      have asks := (Journaled.follows_account address).asks
      refine .bind (peeks_onWorld asks).observes fun found => ?_
      cases found <;> exact .pure _

theorem observes_accountQuery (what : AccountQuery) :
    Maintains Machine.Observes (accountQuery what) :=
  .bind observes_pop fun _ => .bind (peeks_warmAddress _).observes fun _ =>
    .bind (peeks_useGas _).observes fun _ => .bind (observes_accountAnswer _ what)
      fun _ => observes_push _

theorem observes_callDataLoad : Maintains Machine.Observes callDataLoad := by
  refine .bind (peeks_useGas _).observes fun _ => .bind observes_pop fun offset =>
    .bind peeks_frame.observes fun _ => ?_
  cases offset.toIndex? <;> exact observes_push _

theorem observes_chargeCopy (base : UInt64) : Maintains Machine.Observes (chargeCopy base) :=
  .bind observes_pop fun _ => .bind observes_pop fun _ => .bind observes_pop fun _ =>
    .bind (peeks_rangeOf _ _).observes fun range => .bind (peeks_useGas _).observes
      fun _ => .bind (peeks_chargeMemory range).observes fun _ => .pure _

theorem peeks_requireReturnData : Maintains Machine.Peeks requireReturnData :=
  .bind (peeks_peek 1) fun _ => .bind (peeks_peek 2) fun _ => .bind peeks_frame fun _ =>
    .ite (.halt _) (.pure ())

theorem observes_fillMemory (range : MemoryRange) (source : Frame → Bytes) (offset : Nat) :
    Maintains Machine.Observes (modifyFrame fun frame =>
      { frame with memory := frame.memory.writePadded range (source frame) offset }) :=
  observes_modifyFrame fun _ => ⟨⟨rfl, rfl, rfl, rfl, rfl⟩, rfl, rfl, rfl, fun _ => id⟩

theorem observes_copy (source : CopySource) : Maintains Machine.Observes (copy source) :=
  .ite
    (.bind peeks_requireReturnData.observes fun _ => .bind (observes_chargeCopy _)
      fun _ => observes_fillMemory _ _ _)
    (.bind (observes_chargeCopy _) fun _ => observes_fillMemory _ _ _)

theorem observes_extCodeCopy : Maintains Machine.Observes extCodeCopy :=
  .bind observes_pop fun _ => .bind (peeks_warmAddress _).observes fun _ =>
    .bind (observes_chargeCopy _) fun _ => .bind (peeks_code _).observes
      fun _ => observes_fillMemory _ _ _

theorem observes_blockHash (context : Context) : Maintains Machine.Observes (blockHash context) :=
  .bind (peeks_useGas _).observes fun _ => .bind observes_pop fun _ => observes_push _

theorem observes_sload : Maintains Machine.Observes sload :=
  .bind observes_pop fun slot => .bind peeks_frame.observes fun frame =>
    .bind (peeks_warmSlot _ slot).observes fun _ => .bind (peeks_useGas _).observes fun _ =>
      .bind (peeks_onWorld (Journaled.follows_storage frame.message.recipient slot).asks).observes
        fun _ => observes_push _

/-! ## All of them -/

theorem observes_execute (schedule : GasSchedule) (context : Context) (instruction : Instruction)
    (looks : instruction.OnlyLooks) :
    Maintains Machine.Observes (instruction.execute schedule context) := by
  have ordinary {action : Action Unit} (observes : Maintains Machine.Observes action) :
      Maintains Machine.Observes (do action; return instruction.size) :=
    .bind observes fun _ => .pure _
  cases instruction with
  | unary op => exact ordinary (observes_unary op)
  | binary op => exact ordinary (observes_binary op)
  | ternary op => exact ordinary (observes_ternary op)
  | exp => exact ordinary observes_exp
  | keccak => exact ordinary observes_keccak
  | query what => exact ordinary (observes_query context what)
  | accountQuery what => exact ordinary (observes_accountQuery what)
  | callDataLoad => exact ordinary observes_callDataLoad
  | copy source => exact ordinary (observes_copy source)
  | extCodeCopy => exact ordinary observes_extCodeCopy
  | blockHash => exact ordinary (observes_blockHash context)
  | pop => exact ordinary observes_discardTop
  | mload => exact ordinary observes_mload
  | mstore => exact ordinary observes_mstore
  | mstore8 => exact ordinary observes_mstore8
  | sload => exact ordinary observes_sload
  | jumpDest => exact ordinary (peeks_useGas _).observes
  | push size => exact ordinary (observes_pushImmediate size)
  | dup depth => exact ordinary (observes_dup depth)
  | swap depth => exact ordinary (observes_swap depth)
  | _ => exact looks.elim

end Action

end ExecutionLayer
