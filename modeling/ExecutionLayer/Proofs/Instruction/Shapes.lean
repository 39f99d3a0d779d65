import ExecutionLayer.Proofs.Instruction.Calls
import ExecutionLayer.Proofs.Instruction.Observation

/-!
# Stack shapes

Every instruction takes from the stack what it declares and puts back what it declares. It
never reaches for words that are not there or beyond the limit, and it leaves the words below
its operands alone, also where it halts.
-/

set_option autoImplicit false

namespace ExecutionLayer

/-- The halt says that the stack has too few words or too many. -/
def Halt.blamesStack : Halt → Bool
  | .insufficientStackItems | .tooManyStackItems => true
  | _ => false

/-- The stack has `count` words above the given ones. -/
def Stack.Holds (count : Nat) (below : List Word) (stack : Stack) : Prop :=
  ∃ top, stack.words = top ++ below ∧ top.length = count

namespace Stack.Holds

variable {stack : Stack} {count : Nat} {below : List Word}

theorem height (holds : stack.Holds count below) : stack.height = count + below.length := by
  obtain ⟨top, words, length⟩ := holds
  rw [Stack.height, words, List.length_append, length]

theorem of_le (enough : count ≤ stack.height) : stack.Holds count (stack.words.drop count) :=
  ⟨stack.words.take count, (List.take_append_drop ..).symm, List.length_take_of_le enough⟩

theorem push (holds : stack.Holds count below) (room : below.length + (count + 1) ≤ limit)
    (word : Word) : ∃ pushed, stack.push word = .ok pushed ∧ pushed.Holds (count + 1) below := by
  have height := holds.height
  obtain ⟨top, words, length⟩ := holds
  have fits : stack.words.length < limit := by
    rw [Stack.height] at height
    omega
  refine ⟨_, dif_pos fits, word :: top, congrArg (word :: ·) words, ?_⟩
  rw [List.length_cons, length]

theorem pop (holds : stack.Holds (count + 1) below) :
    ∃ word popped, stack.pop = .ok (word, popped) ∧ popped.Holds count below := by
  obtain ⟨top, words, length⟩ := holds
  cases top with
  | nil => cases length
  | cons word rest =>
      refine ⟨word, stack.removeTop 1, ?_, rest, congrArg (List.drop 1) words,
        Nat.succ.inj length⟩
      rw [Stack.pop, words]
      rfl

theorem drop {dropped : Nat} (holds : stack.Holds (count + dropped) below) :
    ∃ after, stack.drop dropped = .ok after ∧ after.Holds count below := by
  have enough : dropped ≤ stack.height := by
    rw [holds.height]
    omega
  obtain ⟨top, words, length⟩ := holds
  refine ⟨stack.removeTop dropped, if_pos enough, top.drop dropped, ?_, ?_⟩
  · have shorter := congrArg (List.drop dropped) words
    exact shorter.trans (List.drop_append_of_le_length (by omega))
  · rw [List.length_drop]
    omega

theorem peek {depth : Nat} (holds : stack.Holds count below) (within : depth < count) :
    ∃ word, stack.peek depth = .ok word := by
  have inside : depth < stack.words.length := by
    rw [← Stack.height, holds.height]
    omega
  refine ⟨stack.words[depth], ?_⟩
  rw [Stack.peek, List.getElem?_eq_getElem inside]

theorem dup {depth : Nat} (holds : stack.Holds count below) (within : depth < count)
    (room : below.length + (count + 1) ≤ limit) :
    ∃ after, stack.dup depth = .ok after ∧ after.Holds (count + 1) below := by
  obtain ⟨word, found⟩ := holds.peek within
  obtain ⟨pushed, pushing, after⟩ := holds.push room word
  refine ⟨pushed, ?_, after⟩
  rw [Stack.dup, found]
  exact pushing

theorem swap {depth : Nat} (holds : stack.Holds count below) (positive : 0 < depth)
    (within : depth < count) :
    ∃ after, stack.swap depth = .ok after ∧ after.Holds count below := by
  obtain ⟨top, words, length⟩ := holds
  rw [← length] at within
  have nonempty : 0 < top.length := Nat.lt_trans positive within
  have first : stack.words[0]? = some top[0] := by
    rw [words, List.getElem?_append_left nonempty, List.getElem?_eq_getElem nonempty]
  have other : stack.words[depth]? = some top[depth] := by
    rw [words, List.getElem?_append_left within, List.getElem?_eq_getElem within]
  unfold Stack.swap
  simp only [first, other, if_neg (Nat.ne_of_gt positive)]
  refine ⟨_, rfl, (top.set 0 top[depth]).set depth top[0], ?_, ?_⟩
  · dsimp only
    rw [words, List.set_append_left _ _ (by omega),
      List.set_append_left _ _ (by rw [List.length_set]; omega)]
  · rw [List.length_set, List.length_set, length]

end Stack.Holds

/-- A machine whose frame has `count` words above the given ones. -/
def Machine.Holds (count : Nat) (below : List Word) (machine : Machine) : Prop :=
  machine.frame.stack.Holds count below

namespace Action

variable {Value Result : Type} {room before middle after : Nat}

/-- Where an action leads by `ended` if it does not halt. If it halts, the stack is not to
blame, and the words below are still there. -/
def Leaves (below : List Word) (action : Action Value) (machine : Machine)
    (ended : Value → Machine → Prop) : Prop :=
  match action machine with
  | .ok value after => ended value after
  | .error (.halt reason) after => reason.blamesStack = false ∧ ∃ count, after.Holds count below
  | .error (.state _) _ => True

/-- Begun with a number of words above others that leave some room, the action never blames the
stack and leads to `ended`. -/
def Shapes (room before : Nat) (ended : List Word → Machine → Prop) (action : Action Value) :
    Prop :=
  ∀ (machine : Machine) (below : List Word), below.length + room ≤ Stack.limit →
    machine.Holds before below → Leaves below action machine fun _ => ended below

/-! ## Sequences -/

namespace Leaves

variable {below : List Word} {action : Action Value} {next : Value → Action Result}
  {machine : Machine}

theorem bind {ended : Result → Machine → Prop}
    (leaves : Leaves below action machine
      fun value after => Leaves below (next value) after ended) :
    Leaves below (action >>= next) machine ended := by
  unfold Leaves at leaves
  cases ran : action machine with
  | ok value after =>
      rw [ran] at leaves
      simpa only [Leaves, Bind.bind, EStateM.bind, ran] using leaves
  | error fault after =>
      rw [ran] at leaves
      cases fault with
      | halt reason => simpa only [Leaves, Bind.bind, EStateM.bind, ran] using leaves
      | state error => simp only [Leaves, Bind.bind, EStateM.bind, ran]

theorem ofExcept {result : Except Halt Value} {ended : Result → Machine → Prop} {count : Nat}
    (holds : machine.Holds count below)
    (blameless : ∀ reason, result = .error reason → reason.blamesStack = false)
    (later : ∀ value, result = .ok value → Leaves below (next value) machine ended) :
    Leaves below (Action.ofExcept result >>= next) machine ended := by
  cases result with
  | ok value => exact later value rfl
  | error reason => exact ⟨blameless reason rfl, count, holds⟩

theorem mono {ended weaker : Value → Machine → Prop} (leaves : Leaves below action machine ended)
    (weaken : ∀ value after, ended value after → weaker value after) :
    Leaves below action machine weaker := by
  unfold Leaves at *
  split at leaves
  · exact weaken _ _ leaves
  · exact leaves
  · trivial

end Leaves

namespace Shapes

variable {ended : List Word → Machine → Prop} {action : Action Value}
  {next : Value → Action Result}

theorem bind (first : Shapes room before (Machine.Holds middle) action)
    (second : ∀ value, Shapes room middle ended (next value)) :
    Shapes room before ended (action >>= next) := by
  intro machine below fits holds
  apply Leaves.bind
  apply (first machine below fits holds).mono
  intro value between reached
  exact second value between below fits reached

theorem mono {weaker : List Word → Machine → Prop} (shapes : Shapes room before ended action)
    (weaken : ∀ below machine, ended below machine → weaker below machine) :
    Shapes room before weaker action :=
  fun machine below fits holds => (shapes machine below fits holds).mono fun _ => weaken below

theorem map {change : Value → Result} (shapes : Shapes room before ended action) :
    Shapes room before ended (action >>= fun value => Pure.pure (change value)) :=
  fun machine below fits holds => Leaves.bind (shapes machine below fits holds)

theorem pure (value : Value) :
    Shapes room before (Machine.Holds before) (Pure.pure value : Action Value) :=
  fun _ _ _ holds => holds

theorem halt {reason : Halt} (blameless : reason.blamesStack = false) :
    Shapes room before ended (Action.halt reason : Action Value) :=
  fun _ _ _ holds => ⟨blameless, before, holds⟩

theorem ite {condition : Prop} [Decidable condition] {other : Action Value}
    (whenTrue : Shapes room before ended action) (whenFalse : Shapes room before ended other) :
    Shapes room before ended (if condition then action else other) := by
  split
  · exact whenTrue
  · exact whenFalse

theorem guard {condition : Prop} [Decidable condition] {reason : Halt} {rest : Action Result}
    {failed : Value → Action Result} (blameless : reason.blamesStack = false)
    (shapes : Shapes room before ended rest) :
    Shapes room before ended (if condition then Action.halt reason >>= failed else rest) :=
  .ite (fun _ _ _ holds => ⟨blameless, before, holds⟩) shapes

/-- Goes on from either of two beginnings. -/
theorem join {condition : Prop} [Decidable condition] {other : Action Value}
    (whenTrue : condition → Shapes room before (Machine.Holds middle) action)
    (whenFalse : Shapes room before (Machine.Holds middle) other)
    (later : ∀ value, Shapes room middle ended (next value)) :
    Shapes room before ended (if condition then action >>= next else other >>= next) := by
  split
  case isTrue holds => exact .bind (whenTrue holds) later
  case isFalse => exact .bind whenFalse later

end Shapes

/-! ## Parts that leave the stack as it is -/

section

variable {count : Nat}

theorem shapes_frame : Shapes room count (Machine.Holds count) frame :=
  fun _ _ _ holds => holds

theorem shapes_modifyFrame {change : Frame → Frame}
    (stack : ∀ frame : Frame, (change frame).stack = frame.stack) :
    Shapes room count (Machine.Holds count) (modifyFrame change) := by
  intro machine below _ holds
  have same := stack machine.frame
  change (change machine.frame).stack.Holds count below
  rw [same]
  exact holds

theorem shapes_ofExcept {result : Except Halt Value}
    (blameless : ∀ reason, result = .error reason → reason.blamesStack = false) :
    Shapes room count (Machine.Holds count) (ofExcept result) := by
  cases result with
  | ok value => exact .pure value
  | error reason => exact .halt (blameless reason rfl)

theorem shapes_tryFrame {change : Frame → Except Halt Frame}
    (blameless : ∀ frame reason, change frame = .error reason → reason.blamesStack = false)
    (stack : ∀ frame changed, change frame = .ok changed → changed.stack = frame.stack) :
    Shapes room count (Machine.Holds count) (tryFrame change) := by
  intro machine below _ holds
  have leaves : Leaves below (ofExcept (change machine.frame) >>= fun frame =>
      modifyFrame fun _ => frame) machine fun _ => Machine.Holds count below := by
    apply Leaves.ofExcept holds (blameless machine.frame)
    intro changed made
    change changed.stack.Holds count below
    rw [stack machine.frame changed made]
    exact holds
  exact leaves

theorem useGas_blameless {frame : Frame} {amount : UInt64} {reason : Halt}
    (failed : frame.useGas amount = .error reason) : reason.blamesStack = false := by
  unfold Frame.useGas at failed
  split at failed
  · cases failed
  · cases failed
    rfl

theorem shapes_useGas (amount : UInt64) :
    Shapes room count (Machine.Holds count) (useGas amount) :=
  shapes_tryFrame (fun _ _ => useGas_blameless) fun _ _ paid => (Frame.works_useGas paid).2

theorem shapes_chargeMemory (range : MemoryRange) :
    Shapes room count (Machine.Holds count) (chargeMemory range) := by
  apply shapes_tryFrame
  · intro frame reason failed
    rcases bind_eq_error failed with unpaid | ⟨_, _, failed⟩
    · exact useGas_blameless unpaid
    · cases failed
  · intro frame changed charged
    obtain ⟨payer, paid, expanded⟩ := bind_eq_ok charged
    cases expanded
    exact (Frame.works_useGas paid).2

theorem ofWords_blameless {offset length : Word} {reason : Halt}
    (failed : MemoryRange.ofWords offset length = .error reason) : reason.blamesStack = false := by
  unfold MemoryRange.ofWords at failed
  split at failed
  · cases failed
  · split at failed
    · cases failed
      rfl
    · cases failed

theorem shapes_rangeOf (offset length : Word) :
    Shapes room count (Machine.Holds count) (rangeOf offset length) :=
  shapes_ofExcept fun _ => ofWords_blameless

theorem shapes_sized (offset : Word) (length : Nat) :
    Shapes room count (Machine.Holds count) (ofExcept (MemoryRange.sized offset length)) :=
  shapes_ofExcept fun _ => ofWords_blameless

theorem shapes_warmAddress (address : Address) :
    Shapes room count (Machine.Holds count) (warmAddress address) :=
  fun _ _ _ holds => holds

theorem shapes_warmSlot (address : Address) (slot : Word) :
    Shapes room count (Machine.Holds count) (warmSlot address slot) :=
  fun _ _ _ holds => holds

theorem shapes_onWorld (operation : Journaled Value) :
    Shapes room count (Machine.Holds count) (onWorld operation) := by
  intro machine below _ holds
  cases ran : operation machine.world with
  | ok value world =>
      simp only [Leaves, onWorld, ran]
      exact holds
  | error error world => simp only [Leaves, onWorld, ran]

theorem shapes_readMemory (range : MemoryRange) :
    Shapes room count (Machine.Holds count) (readMemory range) :=
  .bind shapes_frame fun _ => .pure _

theorem shapes_writeMemory (offset : Nat) (data : Bytes) :
    Shapes room count (Machine.Holds count) (writeMemory offset data) :=
  shapes_modifyFrame fun _ => rfl

theorem shapes_requireWritable : Shapes room count (Machine.Holds count) requireWritable :=
  .bind shapes_frame fun _ => .ite (.halt rfl) (.pure ())

theorem shapes_holdsLess (address : Address) (amount : Word) :
    Shapes room count (Machine.Holds count) (holdsLess address amount) :=
  .bind (shapes_onWorld _) fun _ => .pure _

/-! ## Parts that move words -/

theorem shapes_tryStack (change : Stack → Except Halt Stack)
    (moves : ∀ (stack : Stack) (below : List Word), below.length + room ≤ Stack.limit →
      stack.Holds before below →
        ∃ changed, change stack = .ok changed ∧ changed.Holds after below) :
    Shapes room before (Machine.Holds after)
      (tryFrame fun frame => do return { frame with stack := ← change frame.stack }) := by
  intro machine below fits holds
  obtain ⟨changed, made, reached⟩ := moves machine.frame.stack below fits holds
  have leaves : Leaves below (ofExcept (do
      return { machine.frame with stack := ← change machine.frame.stack }) >>= fun frame =>
        modifyFrame fun _ => frame) machine fun _ => Machine.Holds after below := by
    rw [made]
    exact reached
  exact leaves

theorem shapes_push (within : count + 1 ≤ room) (word : Word) :
    Shapes room count (Machine.Holds (count + 1)) (push word) :=
  shapes_tryStack (·.push word) fun _ _ fits holds => holds.push (by omega) word

theorem shapes_dropWords (dropped : Nat) :
    Shapes room (count + dropped) (Machine.Holds count) (dropWords dropped) :=
  shapes_tryStack (·.drop dropped) fun _ _ _ holds => holds.drop

theorem shapes_pop : Shapes room (count + 1) (Machine.Holds count) pop := by
  intro machine below _ holds
  obtain ⟨word, popped, taken, reached⟩ := Stack.Holds.pop holds
  have leaves : Leaves below (ofExcept machine.frame.pop >>= fun taken => do
      modifyFrame fun _ => taken.2
      return taken.1) machine fun _ => Machine.Holds count below := by
    rw [Frame.pop, taken]
    exact reached
  exact leaves

theorem shapes_peek {depth : Nat} (within : depth < count) :
    Shapes room count (Machine.Holds count) (peek depth) := by
  intro machine below _ holds
  obtain ⟨word, found⟩ := Stack.Holds.peek holds within
  have leaves : Leaves below (ofExcept (machine.frame.stack.peek depth)) machine
      fun _ => Machine.Holds count below := by
    rw [found]
    exact holds
  exact leaves

theorem shapes_popWords (words : Nat) :
    Shapes room (count + words) (Machine.Holds count) (popWords words) := by
  induction words with
  | zero => exact .pure []
  | succ words ih => exact .bind shapes_pop fun _ => .map ih

theorem shapes_abandon {operands : Nat} (within : 1 ≤ room) :
    Shapes room operands (Machine.Holds 1) (abandon operands) := by
  have dropped : Shapes room (0 + operands) (Machine.Holds 0) (dropWords operands) :=
    shapes_dropWords operands
  rw [Nat.zero_add] at dropped
  exact .bind (shapes_modifyFrame fun _ => rfl) fun _ => .bind dropped fun _ =>
    shapes_push within 0

end

/-! ## Computation -/

theorem shapes_unary (op : UnaryOp) : Shapes 1 1 (Machine.Holds 1) (unary op) :=
  .bind (shapes_useGas _) fun _ => .bind shapes_pop fun _ => shapes_push (by decide) _

theorem shapes_binary (op : BinaryOp) : Shapes 1 2 (Machine.Holds 1) (binary op) :=
  .bind (shapes_useGas _) fun _ => .bind shapes_pop fun _ => .bind shapes_pop
    fun _ => shapes_push (by decide) _

theorem shapes_ternary (op : TernaryOp) : Shapes 1 3 (Machine.Holds 1) (ternary op) :=
  .bind (shapes_useGas _) fun _ => .bind shapes_pop fun _ => .bind shapes_pop
    fun _ => .bind shapes_pop fun _ => shapes_push (by decide) _

theorem shapes_exp : Shapes 1 2 (Machine.Holds 1) exp :=
  .bind shapes_pop fun _ => .bind shapes_pop fun _ => .bind (shapes_useGas _)
    fun _ => shapes_push (by decide) _

theorem shapes_keccak : Shapes 1 2 (Machine.Holds 1) keccak :=
  .bind shapes_pop fun _ => .bind shapes_pop fun _ => .bind (shapes_rangeOf _ _)
    fun range => .bind (shapes_useGas _) fun _ => .bind (shapes_chargeMemory range)
      fun _ => .bind (shapes_readMemory range) fun _ => shapes_push (by decide) _

theorem shapes_pushImmediate (size : Fin 33) :
    Shapes 1 0 (Machine.Holds 1) (pushImmediate size) :=
  .bind (shapes_useGas _) fun _ => .bind shapes_frame fun _ => shapes_push (by decide) _

theorem shapes_dup (depth : Fin 16) :
    Shapes (depth + 2) (depth + 1) (Machine.Holds (depth + 2)) (dup depth) := by
  refine .bind (shapes_useGas _) fun _ => shapes_tryStack (·.dup depth) ?_
  exact fun _ _ fits holds => holds.dup (Nat.lt_succ_self _) fits

theorem shapes_swap (depth : Fin 16) :
    Shapes (depth + 2) (depth + 2) (Machine.Holds (depth + 2)) (swap depth) := by
  refine .bind (shapes_useGas _) fun _ => shapes_tryStack (·.swap (depth + 1)) ?_
  exact fun _ _ _ holds => holds.swap (Nat.succ_pos _) (Nat.lt_succ_self _)

theorem shapes_discardTop : Shapes 0 1 (Machine.Holds 0) discardTop :=
  .bind (shapes_useGas _) fun _ => .map shapes_pop

theorem shapes_mload : Shapes 1 1 (Machine.Holds 1) mload :=
  .bind shapes_pop fun _ => .bind (shapes_sized _ _) fun range => .bind (shapes_useGas _)
    fun _ => .bind (shapes_chargeMemory range) fun _ => .bind shapes_frame
      fun _ => shapes_push (by decide) _

theorem shapes_mstore : Shapes 0 2 (Machine.Holds 0) mstore :=
  .bind shapes_pop fun _ => .bind shapes_pop fun _ => .bind (shapes_sized _ _) fun range =>
    .bind (shapes_useGas _) fun _ => .bind (shapes_chargeMemory range)
      fun _ => shapes_writeMemory _ _

theorem shapes_mstore8 : Shapes 0 2 (Machine.Holds 0) mstore8 :=
  .bind shapes_pop fun _ => .bind shapes_pop fun _ => .bind (shapes_sized _ _) fun range =>
    .bind (shapes_useGas _) fun _ => .bind (shapes_chargeMemory range)
      fun _ => shapes_writeMemory _ _

/-! ## The environment -/

theorem shapes_queryValue (context : Context) (what : Query) {count : Nat} :
    Shapes room count (Machine.Holds count) (queryValue context what) := by
  refine .bind shapes_frame fun frame => ?_
  cases what with
  | selfBalance => exact shapes_onWorld _
  | _ => exact .pure _

theorem shapes_query (context : Context) (what : Query) :
    Shapes 1 0 (Machine.Holds 1) (query context what) :=
  .bind (shapes_useGas _) fun _ => .bind (shapes_queryValue context what)
    fun _ => shapes_push (by decide) _

theorem shapes_accountAnswer (address : Address) (what : AccountQuery) {count : Nat} :
    Shapes room count (Machine.Holds count) (accountAnswer address what) := by
  cases what with
  | balance => exact shapes_onWorld _
  | codeSize => exact .map (shapes_onWorld _)
  | codeHash =>
      refine .bind (shapes_onWorld _) fun found => ?_
      cases found <;> exact .pure _

theorem shapes_accountQuery (what : AccountQuery) :
    Shapes 1 1 (Machine.Holds 1) (accountQuery what) :=
  .bind shapes_pop fun _ => .bind (shapes_warmAddress _) fun _ => .bind (shapes_useGas _)
    fun _ => .bind (shapes_accountAnswer _ what) fun _ => shapes_push (by decide) _

theorem shapes_callDataLoad : Shapes 1 1 (Machine.Holds 1) callDataLoad := by
  refine .bind (shapes_useGas _) fun _ => .bind shapes_pop fun offset =>
    .bind shapes_frame fun _ => ?_
  cases offset.toIndex? <;> exact shapes_push (by decide) _

theorem shapes_chargeCopy (base : UInt64) {count : Nat} :
    Shapes room (count + 3) (Machine.Holds count) (chargeCopy base) :=
  .bind shapes_pop fun _ => .bind shapes_pop fun _ => .bind shapes_pop fun _ =>
    .bind (shapes_rangeOf _ _) fun range => .bind (shapes_useGas _)
      fun _ => .map (shapes_chargeMemory range)

theorem shapes_requireReturnData : Shapes room 3 (Machine.Holds 3) requireReturnData :=
  .bind (shapes_peek (by decide)) fun _ => .bind (shapes_peek (by decide)) fun _ =>
    .bind shapes_frame fun _ => .ite (.halt rfl) (.pure ())

theorem shapes_copy (source : CopySource) : Shapes 0 3 (Machine.Holds 0) (copy source) :=
  .ite
    (.bind shapes_requireReturnData fun _ => .bind (shapes_chargeCopy _)
      fun _ => shapes_modifyFrame fun _ => rfl)
    (.bind (shapes_chargeCopy _) fun _ => shapes_modifyFrame fun _ => rfl)

theorem shapes_extCodeCopy : Shapes 0 4 (Machine.Holds 0) extCodeCopy :=
  .bind shapes_pop fun _ => .bind (shapes_warmAddress _) fun _ => .bind (shapes_chargeCopy _)
    fun _ => .bind (shapes_onWorld _) fun _ => shapes_modifyFrame fun _ => rfl

theorem shapes_blockHash (context : Context) : Shapes 1 1 (Machine.Holds 1) (blockHash context) :=
  .bind (shapes_useGas _) fun _ => .bind shapes_pop fun _ => shapes_push (by decide) _

/-! ## Storage and logs -/

theorem shapes_sload : Shapes 1 1 (Machine.Holds 1) sload :=
  .bind shapes_pop fun _ => .bind shapes_frame fun _ => .bind (shapes_warmSlot _ _) fun _ =>
    .bind (shapes_useGas _) fun _ => .bind (shapes_onWorld _) fun _ => shapes_push (by decide) _

theorem shapes_sstore (clearRefund : Int) : Shapes 0 2 (Machine.Holds 0) (sstore clearRefund) :=
  .bind shapes_requireWritable fun _ => .bind shapes_frame fun _ => .guard rfl <|
    .bind shapes_pop fun _ => .bind shapes_pop fun _ => .bind shapes_frame fun _ =>
      .bind (shapes_warmSlot _ _) fun _ => .bind (shapes_onWorld _) fun _ =>
        .bind (shapes_onWorld _) fun _ => .bind (shapes_useGas _) fun _ =>
          .bind (shapes_modifyFrame (Frame.stack_addRefund · _)) fun _ => shapes_onWorld _

theorem stack_addLog (frame : Frame) (log : Log) : (frame.addLog log).stack = frame.stack := by
  unfold Frame.addLog
  split <;> rfl

theorem shapes_log (topics : Fin 5) :
    Shapes 0 (topics + 2) (Machine.Holds 0) (log topics) := by
  have taken : Shapes 0 (0 + topics) (Machine.Holds 0) (popWords topics) := shapes_popWords topics
  rw [Nat.zero_add] at taken
  refine .bind shapes_requireWritable fun _ => .bind shapes_pop fun _ => .bind shapes_pop fun _ =>
    .bind (shapes_rangeOf _ _) fun range => .bind taken fun _ => .bind (shapes_useGas _)
      fun _ => .bind (shapes_chargeMemory range) fun _ => .bind (shapes_readMemory range)
        fun _ => shapes_modifyFrame fun frame => ?_
  exact stack_addLog frame _

/-! ## Flow of control -/

theorem jumpTarget_blameless {frame : Frame} {destination : Word} {reason : Halt}
    (failed : jumpTarget frame destination = .error reason) : reason.blamesStack = false := by
  unfold jumpTarget at failed
  split at failed
  · cases failed
  · cases failed
    rfl

theorem shapes_jumpTo (destination : Word) {count : Nat} :
    Shapes room count (Machine.Holds count) (jumpTo destination) := by
  apply shapes_tryFrame
  · intro frame reason failed
    rcases bind_eq_error failed with missed | ⟨_, _, failed⟩
    · exact jumpTarget_blameless missed
    · cases failed
  · intro frame changed moved
    obtain ⟨_, _, made⟩ := bind_eq_ok moved
    cases made
    rfl

theorem shapes_jump : Shapes 0 1 (Machine.Holds 0) jump :=
  .bind (shapes_useGas _) fun _ => .bind shapes_pop fun _ => .map (shapes_jumpTo _)

theorem shapes_jumpIf : Shapes 0 2 (Machine.Holds 0) jumpIf :=
  .bind (shapes_useGas _) fun _ => .bind shapes_pop fun _ => .bind shapes_pop fun _ =>
    .ite (.pure _) (.map (shapes_jumpTo _))

theorem shapes_popOutput : Shapes 0 2 (Machine.Holds 0) popOutput :=
  .bind shapes_pop fun _ => .bind shapes_pop fun _ => .bind (shapes_rangeOf _ _)
    fun range => .bind (shapes_chargeMemory range) fun _ => shapes_readMemory range

theorem shapes_returnOutput : Shapes 0 2 (Machine.Holds 0) returnOutput :=
  .bind shapes_popOutput fun _ => shapes_modifyFrame fun _ => rfl

theorem shapes_revertOutput : Shapes 0 2 (Machine.Holds 0) revertOutput :=
  .bind shapes_popOutput fun _ => shapes_modifyFrame fun _ => rfl

theorem stack_addSelfDestruct (frame : Frame) (address : Address) :
    (frame.addSelfDestruct address).stack = frame.stack := by
  unfold Frame.addSelfDestruct
  split <;> rfl

theorem shapes_selfDestruct : Shapes 0 1 (Machine.Holds 0) selfDestruct :=
  .bind shapes_requireWritable fun _ => .bind shapes_pop fun _ => .bind shapes_frame fun _ =>
    .bind (shapes_onWorld _) fun _ => .bind (shapes_warmAddress _) fun _ =>
      .join (fun _ => shapes_onWorld _) (.pure false) fun _ => .bind (shapes_useGas _) fun _ =>
        .bind (shapes_onWorld _) fun _ => .bind (shapes_onWorld _) fun _ =>
          shapes_modifyFrame fun _ => stack_addSelfDestruct _ _

/-! ## Calls and creations -/

/-- Every operand that names a memory window is among the operands of the call. -/
theorem memoryRanges_blameless {kind : CallKind} {stack : Stack} {below : List Word}
    (holds : stack.Holds kind.operandCount below) {reason : Halt}
    (failed : kind.memoryRanges stack = .error reason) : reason.blamesStack = false := by
  have within : kind.memoryOperandsAt + 3 < kind.operandCount := by cases kind <;> decide
  have operand {depth : Nat} (near : depth ≤ kind.memoryOperandsAt + 3) :
      ∃ word, stack.peek depth = .ok word :=
    holds.peek (Nat.lt_of_le_of_lt near within)
  obtain ⟨inputOffset, first⟩ := operand (Nat.le_add_right _ 3)
  obtain ⟨inputLength, second⟩ := operand (Nat.add_le_add_left (by decide : 1 ≤ 3) _)
  obtain ⟨outputOffset, third⟩ := operand (Nat.add_le_add_left (by decide : 2 ≤ 3) _)
  obtain ⟨outputLength, fourth⟩ := operand (Nat.le_refl _)
  unfold CallKind.memoryRanges at failed
  simp only [first, second, third, fourth, ok_bind] at failed
  rcases bind_eq_error failed with input | ⟨_, _, failed⟩
  · exact ofWords_blameless input
  · rcases bind_eq_error failed with output | ⟨_, _, failed⟩
    · exact ofWords_blameless output
    · cases failed

theorem shapes_memoryRanges (kind : CallKind) {ended : List Word → Machine → Prop}
    {next : MemoryRange × MemoryRange → Action Result}
    (later : ∀ ranges, Shapes room kind.operandCount ended (next ranges)) :
    Shapes room kind.operandCount ended
      (frame >>= fun frame => ofExcept (kind.memoryRanges frame.stack) >>= next) := by
  intro machine below fits holds
  have leaves : Leaves below (ofExcept (kind.memoryRanges machine.frame.stack) >>= next) machine
      fun _ => ended below :=
    .ofExcept holds (fun _ => memoryRanges_blameless holds)
      fun ranges _ => later ranges machine below fits holds
  exact leaves

theorem shapes_reserve (kind : CallKind) :
    Shapes room kind.operandCount (Machine.Holds kind.operandCount) (reserve kind) := by
  have operands : 6 ≤ kind.operandCount := by cases kind <;> decide
  refine .bind (shapes_peek (by omega)) fun _ => .bind (shapes_peek (by omega)) fun _ =>
    .join (fun _ => shapes_peek (by omega)) (.pure 0) fun _ => ?_
  apply shapes_memoryRanges kind
  rintro ⟨inputRange, outputRange⟩
  refine .bind shapes_frame fun _ => .guard rfl <| .bind (shapes_warmAddress _) fun _ =>
    .join (fun _ => shapes_onWorld _) (.pure false) fun _ => .bind (shapes_useGas _) fun _ =>
      .bind (shapes_chargeMemory _) fun _ => .bind shapes_frame fun _ =>
        .bind (shapes_useGas _) fun _ => .pure _

end Action

/-- The instruction left what it declares, or the frame waits for a child with the operands in
place. -/
def Machine.Shaped (instruction : Instruction) (below : List Word) (machine : Machine) : Prop :=
  machine.frame.status = .codeSuspended ∧ machine.Holds instruction.consumed below ∨
    machine.Holds instruction.produced below

namespace Action

variable {Value : Type} {room : Nat} {instruction : Instruction}

theorem Shapes.shaped {action : Action Value} {before : Nat}
    (shapes : Shapes room before (Machine.Holds instruction.produced) action) :
    Shapes room before (Machine.Shaped instruction) action :=
  shapes.mono fun _ _ => .inr

theorem shapes_suspend (instruction : Instruction) (child : Message) :
    Shapes room instruction.consumed (Machine.Shaped instruction)
      (modifyFrame (·.suspend child)) :=
  fun _ _ _ holds => .inl ⟨rfl, holds⟩

theorem shapes_requestChild (kind : CallKind) (reservation : Reservation) :
    Shapes 1 kind.operandCount (Machine.Shaped (.call kind)) (requestChild kind reservation) := by
  have givenUp : Shapes 1 kind.operandCount (Machine.Shaped (.call kind))
      (abandon kind.operandCount) :=
    (shapes_abandon (Nat.le_refl 1)).shaped
  refine .bind shapes_frame fun _ => .join (fun _ => shapes_holdsLess _ _) (.pure false) fun _ =>
    .ite ?_ ?_
  · exact .bind (shapes_modifyFrame fun _ => rfl) fun _ => givenUp
  · exact .bind (shapes_readMemory _) fun _ => .bind (shapes_onWorld _)
      fun _ => shapes_suspend (.call kind) _

theorem shapes_call (kind : CallKind) :
    Shapes 1 kind.operandCount (Machine.Shaped (.call kind)) (call kind) := by
  rw [call_eq]
  exact .bind (shapes_reserve kind) fun reservation => shapes_requestChild kind reservation

theorem shapes_create (schedule : GasSchedule) (kind : CreateKind) :
    Shapes 1 kind.operandCount (Machine.Shaped (.create kind)) (create schedule kind) := by
  have operands : 3 ≤ kind.operandCount := by cases kind <;> decide
  have givenUp : Shapes 1 kind.operandCount (Machine.Shaped (.create kind))
      (abandon kind.operandCount) :=
    (shapes_abandon (Nat.le_refl 1)).shaped
  refine .bind shapes_requireWritable fun _ => .bind (shapes_peek (by omega)) fun _ =>
    .bind (shapes_peek (by omega)) fun _ => .bind (shapes_peek (by omega)) fun _ =>
      .bind (shapes_rangeOf _ _) fun range => ?_
  have salt : kind = .create2 → 3 < kind.operandCount := by
    rintro rfl
    decide
  refine .join (fun salted => shapes_peek (salt salted)) (.pure 0) fun _ => .guard rfl <|
    .bind (shapes_useGas _) fun _ => .bind (shapes_chargeMemory range) fun _ =>
      .bind shapes_frame fun _ => .bind (shapes_onWorld _) fun _ =>
        .bind (shapes_holdsLess _ _) fun _ => ?_
  -- Three conditions lead to the same end: too deep, too little balance, no nonce left.
  refine .ite givenUp <| .ite givenUp <| .ite givenUp <| .bind (shapes_readMemory range) fun _ =>
    .bind (shapes_onWorld _) fun _ => .bind (shapes_warmAddress _) fun _ =>
      .bind shapes_frame fun _ => .bind (shapes_useGas _) fun _ => ?_
  exact shapes_suspend (.create kind) _

/-! ## Every instruction -/

theorem shapes_execute (schedule : GasSchedule) (context : Context) (instruction : Instruction) :
    Shapes instruction.produced instruction.consumed (Machine.Shaped instruction)
      (instruction.execute schedule context) := by
  have ordinary {action : Action Unit} (shapes : Shapes instruction.produced instruction.consumed
      (Machine.Holds instruction.produced) action) :
      Shapes instruction.produced instruction.consumed (Machine.Shaped instruction)
        (do action; return instruction.size) :=
    .map shapes.shaped
  cases instruction with
  | jump => exact shapes_jump.mono fun _ _ => .inr
  | jumpIf => exact shapes_jumpIf.mono fun _ _ => .inr
  | stop => exact ordinary (shapes_modifyFrame fun _ => rfl)
  | unary op => exact ordinary (shapes_unary op)
  | binary op => exact ordinary (shapes_binary op)
  | ternary op => exact ordinary (shapes_ternary op)
  | exp => exact ordinary shapes_exp
  | keccak => exact ordinary shapes_keccak
  | query what => exact ordinary (shapes_query context what)
  | accountQuery what => exact ordinary (shapes_accountQuery what)
  | callDataLoad => exact ordinary shapes_callDataLoad
  | copy source => exact ordinary (shapes_copy source)
  | extCodeCopy => exact ordinary shapes_extCodeCopy
  | blockHash => exact ordinary (shapes_blockHash context)
  | pop => exact ordinary shapes_discardTop
  | mload => exact ordinary shapes_mload
  | mstore => exact ordinary shapes_mstore
  | mstore8 => exact ordinary shapes_mstore8
  | sload => exact ordinary shapes_sload
  | sstore => exact ordinary (shapes_sstore _)
  | jumpDest => exact ordinary (shapes_useGas _)
  | push size => exact ordinary (shapes_pushImmediate size)
  | dup depth => exact ordinary (shapes_dup depth)
  | swap depth => exact ordinary (shapes_swap depth)
  | log topics => exact ordinary (shapes_log topics)
  | create kind => exact .map (shapes_create schedule kind)
  | call kind => exact .map (shapes_call kind)
  | «return» => exact ordinary shapes_returnOutput
  | revert => exact ordinary shapes_revertOutput
  | invalid => exact fun _ _ _ holds => ⟨rfl, _, holds⟩
  | selfDestruct => exact ordinary shapes_selfDestruct

end Action

end ExecutionLayer
