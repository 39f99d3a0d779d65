import ExecutionLayer.Proofs.Instruction.Memory

/-!
# The bill for memory

Code with each charge for memory written on a bill: the gas that it took and the bytes that it
added. Without the bill this is the code itself. The bill always amounts to what the memory costs
and to all the bytes there are, so no write ever adds any.
-/

set_option autoImplicit false

namespace ExecutionLayer

/-- What the charges for memory took and added so far. -/
structure MemoryBill where
  gas : Nat := 0
  bytes : Nat := 0
deriving DecidableEq, Repr

/-- A charge that left one frame of the other. -/
def MemoryBill.charge (bill : MemoryBill) (before after : Frame) : MemoryBill where
  gas := bill.gas + (before.gas.toNat - after.gas.toNat)
  bytes := bill.bytes + (after.memory.size - before.memory.size)

structure BilledMachine where
  machine : Machine
  bill : MemoryBill

/-- Code that keeps the bill. -/
abbrev Billed := EStateM Fault BilledMachine

namespace Billed

/-- Code that charges for no memory. -/
def lift {Value : Type} (action : Action Value) : Billed Value := fun state =>
  match action state.machine with
  | .ok value machine => .ok value { state with machine }
  | .error fault machine => .error fault { state with machine }

instance : MonadLift Action Billed := ⟨lift⟩

/-- Pays for a window of memory and writes it on the bill. -/
def chargeMemory (range : MemoryRange) : Billed Unit := do
  let before := (← get).machine.frame
  lift (Action.chargeMemory range)
  modify fun state => { state with bill := state.bill.charge before state.machine.frame }

open ExecutionLayer.Action hiding chargeMemory reserve call create keccak mload mstore mstore8
  chargeCopy copy extCodeCopy log popOutput returnOutput revertOutput

/-- As `Action.keccak`, with the bill. -/
def keccak : Billed Unit := do
  let offset ← pop
  let length ← pop
  let range ← rangeOf offset length
  useGas (Gas.keccakCost range.length)
  chargeMemory range
  push (keccak256 (← readMemory range))

def mload : Billed Unit := do
  let range ← ofExcept (MemoryRange.sized (← pop) 32)
  useGas Gas.veryLow
  chargeMemory range
  push ((← frame).memory.readWord range.offset)

def mstore : Billed Unit := do
  let offset ← pop
  let word ← pop
  let range ← ofExcept (MemoryRange.sized offset 32)
  useGas Gas.veryLow
  chargeMemory range
  writeMemory range.offset word.toBytes

def mstore8 : Billed Unit := do
  let offset ← pop
  let word ← pop
  let range ← ofExcept (MemoryRange.sized offset 1)
  useGas Gas.veryLow
  chargeMemory range
  writeMemory range.offset [UInt8.ofNat word.toNat]

def chargeCopy (baseCost : UInt64) : Billed (MemoryRange × Nat) := do
  let destination ← pop
  let offset ← pop
  let length ← pop
  let range ← rangeOf destination length
  useGas (baseCost + Gas.copyCost range.length)
  chargeMemory range
  return (range, offset.toIndexClamped)

def copy (source : CopySource) : Billed Unit := do
  if source = .returnData then requireReturnData
  let (range, offset) ← chargeCopy Gas.veryLow
  modifyFrame fun frame =>
    { frame with memory := frame.memory.writePadded range (sourceBytes frame source) offset }

def extCodeCopy : Billed Unit := do
  let target := Address.ofWord (← pop)
  let isCold ← warmAddress target
  let (range, offset) ← chargeCopy (Gas.accountAccessCost isCold)
  let code ← onWorld (Journaled.code target)
  modifyFrame fun frame =>
    { frame with memory := frame.memory.writePadded range code.toBytes offset }

def log (topics : Fin 5) : Billed Unit := do
  requireWritable
  let offset ← pop
  let length ← pop
  let range ← rangeOf offset length
  let words ← popWords topics
  useGas (Gas.logCost range.length topics)
  chargeMemory range
  let data ← readMemory range
  modifyFrame fun frame => frame.addLog ⟨frame.message.recipient, words, data⟩

def popOutput : Billed Bytes := do
  let offset ← pop
  let length ← pop
  let range ← rangeOf offset length
  chargeMemory range
  readMemory range

def returnOutput : Billed Unit := do
  let output ← popOutput
  modifyFrame (·.succeed output)

def revertOutput : Billed Unit := do
  let output ← popOutput
  modifyFrame (·.revert output)

def reserve (kind : CallKind) : Billed Reservation := do
  let requestedGas ← peek 0
  let target := Address.ofWord (← peek 1)
  let value ← if kind.hasValueOperand then peek 2 else pure 0
  let (inputRange, outputRange) ← ofExcept (kind.memoryRanges (← frame).stack)
  if kind = .call ∧ (← frame).message.isStatic ∧ value ≠ 0 then halt .illegalStateChange
  let isCold ← warmAddress target
  let createsAccount ←
    if kind = .call ∧ value ≠ 0 then onWorld (Journaled.isEmptyOrAbsent target) else pure false
  useGas (Gas.callCost isCold (value ≠ 0) createsAccount)
  chargeMemory (inputRange.furthest outputRange)
  let forwarded := Gas.forwarded (← frame).gas requestedGas
  useGas forwarded
  return { target, value, inputRange, forwarded }

def call (kind : CallKind) : Billed Unit := do
  requestChild kind (← reserve kind)

def create (schedule : GasSchedule) (kind : CreateKind) : Billed Unit := do
  requireWritable
  let value ← peek 0
  let range ← rangeOf (← peek 1) (← peek 2)
  let salt ← if kind = .create2 then peek 3 else pure 0
  if schedule.maxInitCodeSize.any (range.length > ·) then halt .initCodeTooLarge
  useGas (kind.cost schedule range.length)
  chargeMemory range
  let creator := (← frame).message
  let nonce ← onWorld (Journaled.nonce creator.recipient)
  let isPossible ←
    if creator.depth + 1 > Message.maxDepth then pure false
    else if ← holdsLess creator.recipient value then pure false
    else pure (decide (nonce.toNat + 1 < UInt64.size))
  if !isPossible then abandon kind.operandCount
  else
    let initCode ← readMemory range
    let address :=
      match kind with
      | .create => Address.created creator.recipient nonce
      | .create2 => Address.createdWithSalt creator.recipient salt initCode
    onWorld (Journaled.incrementNonce creator.recipient)
    let _ ← warmAddress address
    let gas := Gas.allButOne64th (← frame).gas
    useGas gas
    let child : Message :=
      { kind := .contractCreation
        depth := creator.depth + 1
        sender := creator.recipient
        recipient := address
        contract := address
        value := value
        apparentValue := value
        code := Code.ofBytes initCode
        gas }
    modifyFrame (·.suspend child)

/-- The instructions that charge for memory, with the bill. -/
def touching? (schedule : GasSchedule) : Instruction → Option (Billed Unit)
  | .keccak => some keccak
  | .copy source => some (copy source)
  | .extCodeCopy => some extCodeCopy
  | .mload => some mload
  | .mstore => some mstore
  | .mstore8 => some mstore8
  | .log topics => some (log topics)
  | .create kind => some (create schedule kind)
  | .call kind => some (call kind)
  | .return => some returnOutput
  | .revert => some revertOutput
  | _ => none

/-- As `Instruction.execute`, with the bill. -/
def execute (schedule : GasSchedule) (context : Context) (instruction : Instruction) :
    Billed Nat :=
  match touching? schedule instruction with
  | some billed => do
      billed
      return instruction.size
  | none => lift (instruction.execute schedule context)

/-- As `Machine.step`, with the bill. -/
def step (schedule : GasSchedule) (context : Context) (state : BilledMachine) :
    Except StateError BilledMachine :=
  let opcode := state.machine.frame.currentOpcode
  match Instruction.ofOpcode? schedule opcode with
  | none => .ok { state with machine := state.machine.halt (.invalidOperation opcode) }
  | some instruction =>
      match instruction.stackFault? state.machine.frame.stack.height with
      | some reason => .ok { state with machine := state.machine.halt reason }
      | none =>
          match execute schedule context instruction state with
          | .ok count after => .ok { after with machine := after.machine.advance count }
          | .error (.halt reason) after => .ok { after with machine := after.machine.halt reason }
          | .error (.state error) _ => .error error

end Billed

/-! ## Settled bills -/

/-- The bill amounts to what the memory costs and to all the bytes there are. -/
structure MemoryBill.Settles (bill : MemoryBill) (memory : Memory) : Prop where
  gas : bill.gas = (Gas.memoryCost memory.wordSize).toNat
  bytes : bill.bytes = memory.size
  bounded : memory.wordSize ≤ Memory.maxWords

/-- From a settled bill to a settled bill, with no less memory. -/
structure BilledMachine.Onward (before after : BilledMachine) : Prop where
  settles : after.bill.Settles after.machine.frame.memory
  grows : before.machine.frame.memory.size ≤ after.machine.frame.memory.size

theorem MemoryBill.settles_empty : MemoryBill.Settles {} Memory.empty :=
  ⟨rfl, rfl, Nat.zero_le _⟩

theorem BilledMachine.Onward.trans {before middle after : BilledMachine}
    (first : before.Onward middle) (second : middle.Onward after) : before.Onward after :=
  ⟨second.settles, Nat.le_trans first.grows second.grows⟩

theorem BilledMachine.Onward.of_rests {state : BilledMachine} {machine : Machine}
    (settles : state.bill.Settles state.machine.frame.memory)
    (rests : state.machine.Rests machine) : state.Onward { state with machine } := by
  have same : machine.frame.memory = state.machine.frame.memory := rests
  constructor
  · dsimp only
    rw [same]
    exact settles
  · dsimp only
    rw [same]

theorem BilledMachine.Onward.advance {before after : BilledMachine} (onward : before.Onward after)
    (count : Nat) : before.Onward { after with machine := after.machine.advance count } := by
  constructor
  · rw [Machine.memory_advance]
    exact onward.settles
  · rw [Machine.memory_advance]
    exact onward.grows

theorem MemoryBill.Settles.of_size {bill : MemoryBill} {memory other : Memory}
    (settles : bill.Settles memory) (same : other.size = memory.size) : bill.Settles other := by
  have words : other.wordSize = memory.wordSize := by rw [Memory.wordSize, same, Memory.wordSize]
  exact ⟨by rw [words]; exact settles.gas, settles.bytes.trans same.symm,
    by rw [words]; exact settles.bounded⟩

/-- A charge puts on the bill what the memory costs more and the bytes that are new. -/
theorem MemoryBill.Settles.charge {bill : MemoryBill} {before after : Frame} {range : MemoryRange}
    (settles : bill.Settles before.memory) (fits : range.Fits)
    (charged : before.chargeMemory range = .ok after) :
    (bill.charge before after).Settles after.memory ∧
      after.memory = before.memory.expand range := by
  obtain ⟨payer, paid, expanded⟩ := bind_eq_ok charged
  cases expanded
  have cost := Memory.toNat_expansionCost settles.bounded fits
  have grown := before.memory.size_le_expand range
  have gas := settles.gas
  have bytes := settles.bytes
  unfold Frame.useGas at paid
  split at paid
  · rename_i enough
    cases paid
    rw [UInt64.le_iff_toNat_le] at enough
    refine ⟨⟨?_, ?_, Memory.wordSize_expand_le settles.bounded fits⟩, rfl⟩
    · dsimp only [MemoryBill.charge]
      rw [UInt64.toNat_sub_of_le _ _ (UInt64.le_iff_toNat_le.mpr enough)]
      omega
    · dsimp only [MemoryBill.charge]
      omega
  · cases paid

theorem Action.chargeMemory_eq (range : MemoryRange) (machine : Machine) :
    Action.chargeMemory range machine =
      match machine.frame.chargeMemory range with
      | .ok frame => .ok () { machine with frame }
      | .error reason => .error (.halt reason) machine := by
  have unfolded : Action.chargeMemory range machine =
      (ofExcept (machine.frame.chargeMemory range) >>= fun frame =>
        modifyFrame fun _ => frame) machine := rfl
  rw [unfolded]
  cases machine.frame.chargeMemory range <;> rfl

namespace Billed

theorem chargeMemory_eq (range : MemoryRange) (state : BilledMachine) :
    chargeMemory range state =
      match state.machine.frame.chargeMemory range with
      | .ok frame =>
          .ok () ⟨{ state.machine with frame }, state.bill.charge state.machine.frame frame⟩
      | .error reason => .error (.halt reason) state := by
  have unfolded : chargeMemory range state =
      match Action.chargeMemory range state.machine with
      | .ok _ machine => .ok () ⟨machine, state.bill.charge state.machine.frame machine.frame⟩
      | .error fault machine => .error fault { state with machine } := by
    have lifted : chargeMemory range state =
        (lift (Action.chargeMemory range) >>= fun _ => modify fun after =>
          { after with bill := after.bill.charge state.machine.frame after.machine.frame }) state :=
      rfl
    rw [lifted]
    simp only [Bind.bind, EStateM.bind, lift]
    cases Action.chargeMemory range state.machine <;> rfl
  rw [unfolded, Action.chargeMemory_eq]
  cases state.machine.frame.chargeMemory range <;> rfl

open ExecutionLayer.Action (Maintains)

variable {Value Result : Type}

/-- From a settled bill over a memory of which `pre` holds, the billed code does what the code
does, and unless the world fails the bill is settled again. If the code ends, `post` holds. -/
def Mirrors (pre : Memory → Prop) (billed : Billed Value) (action : Action Value)
    (post : Value → Memory → Prop) : Prop :=
  ∀ state : BilledMachine, state.bill.Settles state.machine.frame.memory →
    pre state.machine.frame.memory →
      match billed state with
      | .ok value after => action state.machine = .ok value after.machine ∧
          state.Onward after ∧ post value after.machine.frame.memory
      | .error (.halt reason) after =>
          action state.machine = .error (.halt reason) after.machine ∧ state.Onward after
      | .error (.state error) after =>
          action state.machine = .error (.state error) after.machine

namespace Mirrors

variable {pre : Memory → Prop} {billed : Billed Value} {action : Action Value}
  {post : Result → Memory → Prop} {next : Value → Action Result}
  {billedNext : Value → Billed Result}

theorem bind {middle : Value → Memory → Prop} (first : Mirrors pre billed action middle)
    (second : ∀ value, Mirrors (middle value) (billedNext value) (next value) post) :
    Mirrors pre (billed >>= billedNext) (action >>= next) post := by
  intro state settles holds
  have leads := first state settles holds
  cases ran : billed state with
  | error fault after =>
      rw [ran] at leads
      cases fault with
      | halt reason =>
          obtain ⟨same, onward⟩ := leads
          simp only [Bind.bind, EStateM.bind, ran, same]
          exact ⟨trivial, onward⟩
      | state error =>
          have same : action state.machine = .error (.state error) after.machine := leads
          simp only [Bind.bind, EStateM.bind, ran, same]
  | ok value between =>
      rw [ran] at leads
      obtain ⟨same, onward, reached⟩ := leads
      have later := second value between onward.settles reached
      simp only [Bind.bind, EStateM.bind, ran, same]
      cases ranLater : billedNext value between with
      | ok result after =>
          rw [ranLater] at later
          exact ⟨later.1, onward.trans later.2.1, later.2.2⟩
      | error fault after =>
          rw [ranLater] at later
          cases fault with
          | halt reason => exact ⟨later.1, onward.trans later.2⟩
          | state error => exact later

theorem ite {condition : Prop} [Decidable condition] {post : Value → Memory → Prop}
    {other : Action Value} {billedOther : Billed Value}
    (whenTrue : Mirrors pre billed action post) (whenFalse : Mirrors pre billedOther other post) :
    Mirrors pre (if condition then billed else billedOther) (if condition then action else other)
      post := by
  split
  · exact whenTrue
  · exact whenFalse

theorem mono {post weaker : Value → Memory → Prop} (mirrors : Mirrors pre billed action post)
    (weaken : ∀ value memory, post value memory → weaker value memory) :
    Mirrors pre billed action weaker := by
  intro state settles holds
  have leads := mirrors state settles holds
  cases ran : billed state with
  | ok value after =>
      rw [ran] at leads
      exact ⟨leads.1, leads.2.1, weaken _ _ leads.2.2⟩
  | error fault after =>
      rw [ran] at leads
      cases fault with
      | halt reason => exact leads
      | state error => exact leads

/-- Code that leaves the memory as it is has nothing to bill. -/
theorem lift (rests : Maintains Machine.Rests action) :
    Mirrors pre (Billed.lift action) action fun _ => pre := by
  intro state settles holds
  have leads := rests state.machine
  unfold Action.Leads at leads
  unfold Billed.lift
  cases ran : action state.machine with
  | ok value after =>
      rw [ran] at leads
      have same : after.frame.memory = state.machine.frame.memory := leads
      exact ⟨rfl, .of_rests settles leads, same ▸ holds⟩
  | error fault after =>
      cases fault with
      | halt reason =>
          rw [ran] at leads
          exact ⟨rfl, .of_rests settles leads⟩
      | state error => rfl

/-- Goes on after code that leaves the memory as it is. -/
theorem rest (rests : Maintains Machine.Rests action)
    (later : ∀ value, Mirrors pre (billedNext value) (next value) post) :
    Mirrors pre (Billed.lift action >>= billedNext) (action >>= next) post :=
  .bind (.lift rests) later

/-- Goes on after a check, given what it came to. -/
theorem ofExcept {result : Except Halt Value}
    (later : ∀ value, result = .ok value → Mirrors pre (billedNext value) (next value) post) :
    Mirrors pre (Billed.lift (Action.ofExcept result) >>= billedNext)
      (Action.ofExcept result >>= next) post := by
  cases result with
  | ok value => exact later value rfl
  | error reason => exact fun state settles _ => ⟨rfl, settles, Nat.le_refl _⟩

/-- The charge itself leaves the window addressable. -/
theorem chargeMemory {range : MemoryRange} (fits : range.Fits) :
    Mirrors pre (Billed.chargeMemory range) (Action.chargeMemory range)
      fun _ memory => memory.Covers range := by
  intro state settles _
  rw [chargeMemory_eq, Action.chargeMemory_eq]
  cases charged : state.machine.frame.chargeMemory range with
  | ok payer =>
      obtain ⟨settled, memory⟩ := settles.charge fits charged
      refine ⟨rfl, ⟨settled, ?_⟩, ?_⟩
      · dsimp only
        rw [memory]
        exact Memory.size_le_expand ..
      · dsimp only
        rw [memory]
        exact Memory.covers_expand ..
  | error reason => exact ⟨rfl, settles, Nat.le_refl _⟩

/-- Goes on after a charge, over a memory that has the window. -/
theorem charge {range : MemoryRange} {next : Unit → Action Result}
    {billedNext : Unit → Billed Result} (fits : range.Fits)
    (later : Mirrors (·.Covers range) (billedNext ()) (next ()) post) :
    Mirrors pre (Billed.chargeMemory range >>= billedNext) (Action.chargeMemory range >>= next)
      post :=
  .bind (.chargeMemory fits) fun _ => later

/-- A write inside a window that is there lets nothing grow. -/
theorem write {range : MemoryRange} {change : Frame → Frame}
    (writes : ∀ frame : Frame, ∃ data : Bytes,
      (change frame).memory = frame.memory.write range.offset data ∧ data.length = range.length) :
    Mirrors (·.Covers range) (Billed.lift (Action.modifyFrame change)) (Action.modifyFrame change)
      fun _ _ => True := by
  intro state settles covers
  obtain ⟨data, written, length⟩ := writes state.machine.frame
  have inside : state.machine.frame.memory.Covers ⟨range.offset, data.length⟩ := by
    rw [length]
    exact covers
  have same : (change state.machine.frame).memory.size = state.machine.frame.memory.size := by
    rw [written]
    exact inside.size_write
  exact ⟨rfl, ⟨settles.of_size same, Nat.le_of_eq same.symm⟩, trivial⟩

/-- Ends with code that leaves the memory as it is. -/
theorem last (rests : Maintains Machine.Rests action) :
    Mirrors pre (Billed.lift action) action fun _ _ => True :=
  (Mirrors.lift rests).mono fun _ _ _ => trivial

theorem pure (value : Value) {post : Value → Memory → Prop}
    (holds : ∀ memory, pre memory → post value memory) :
    Mirrors pre (Pure.pure value) (Pure.pure value) post :=
  fun _ settles there => ⟨rfl, ⟨settles, Nat.le_refl _⟩, holds _ there⟩

theorem halt {reason : Halt} :
    Mirrors pre (Billed.lift (Action.halt reason) >>= billedNext)
      (Action.halt reason >>= next) post :=
  fun _ settles _ => ⟨rfl, settles, Nat.le_refl _⟩

/-- Goes on from either of two beginnings that leave the memory as it is. -/
theorem join {condition : Prop} [Decidable condition] {other : Action Value}
    (whenTrue : Maintains Machine.Rests action) (whenFalse : Maintains Machine.Rests other)
    (later : ∀ value, Mirrors pre (billedNext value) (next value) post) :
    Mirrors pre (if condition then Billed.lift action >>= billedNext
        else Billed.lift other >>= billedNext)
      (if condition then action >>= next else other >>= next) post :=
  .ite (.rest whenTrue later) (.rest whenFalse later)

end Mirrors

/-! ## Instructions -/

section

open ExecutionLayer.Action Mirrors

variable {pre : Memory → Prop}

theorem mirrors_rangeOf {offset length : Word}
    {next : MemoryRange → Action Result} {billedNext : MemoryRange → Billed Result}
    {post : Result → Memory → Prop}
    (later : ∀ range, range.Fits → Mirrors pre (billedNext range) (next range) post) :
    Mirrors pre (Billed.lift (rangeOf offset length) >>= billedNext)
      (rangeOf offset length >>= next) post :=
  .ofExcept fun range named => later range (MemoryRange.fits_ofWords named)

theorem mirrors_keccak : Mirrors pre Billed.keccak Action.keccak fun _ _ => True :=
  .rest rests_pop fun _ => .rest rests_pop fun _ => mirrors_rangeOf fun _ fits =>
    .rest (rests_useGas _) fun _ => .charge fits <| .rest (rests_readMemory _) fun _ =>
      .last (rests_push _)

theorem mirrors_mload : Mirrors pre Billed.mload Action.mload fun _ _ => True :=
  .rest rests_pop fun _ => .ofExcept fun _ named => .rest (rests_useGas _) fun _ =>
    .charge (MemoryRange.fits_ofWords named) <| .rest rests_frame fun _ => .last (rests_push _)

theorem mirrors_mstore : Mirrors pre Billed.mstore Action.mstore fun _ _ => True :=
  .rest rests_pop fun _ => .rest rests_pop fun word => .ofExcept fun range named =>
    .rest (rests_useGas _) fun _ => .charge (MemoryRange.fits_ofWords named) <|
      .write fun _ => ⟨word.toBytes, rfl, by
        rw [Word.toBytes, Bytes.length_ofNatWidth, MemoryRange.length_sized named (by decide)]⟩

theorem mirrors_mstore8 : Mirrors pre Billed.mstore8 Action.mstore8 fun _ _ => True :=
  .rest rests_pop fun _ => .rest rests_pop fun word => .ofExcept fun range named =>
    .rest (rests_useGas _) fun _ => .charge (MemoryRange.fits_ofWords named) <|
      .write fun _ => ⟨[UInt8.ofNat word.toNat], rfl,
        (MemoryRange.length_sized named (by decide)).symm⟩

theorem mirrors_chargeCopy (baseCost : UInt64) :
    Mirrors pre (Billed.chargeCopy baseCost) (Action.chargeCopy baseCost)
      fun copied memory => memory.Covers copied.1 :=
  .rest rests_pop fun _ => .rest rests_pop fun _ => .rest rests_pop fun _ =>
    mirrors_rangeOf fun _ fits => .rest (rests_useGas _) fun _ => .charge fits <|
      .pure _ fun _ => id

/-- What pads a copy to the length of its window fills the window and nothing else. -/
theorem mirrors_writePadded {range : MemoryRange} (source : Frame → Bytes) (position : Nat) :
    Mirrors (·.Covers range)
      (Billed.lift (modifyFrame fun frame =>
        { frame with memory := frame.memory.writePadded range (source frame) position }))
      (modifyFrame fun frame =>
        { frame with memory := frame.memory.writePadded range (source frame) position })
      fun _ _ => True :=
  .write fun frame =>
    ⟨Bytes.window (source frame) position range.length, rfl, Bytes.length_window ..⟩

theorem mirrors_copy (source : CopySource) :
    Mirrors pre (Billed.copy source) (Action.copy source) fun _ _ => True := by
  have copied : Mirrors pre
      (Billed.chargeCopy Gas.veryLow >>= fun taken => Billed.lift (modifyFrame fun frame =>
        { frame with memory :=
            frame.memory.writePadded taken.1 (sourceBytes frame source) taken.2 }))
      (Action.chargeCopy Gas.veryLow >>= fun taken => modifyFrame fun frame =>
        { frame with memory :=
            frame.memory.writePadded taken.1 (sourceBytes frame source) taken.2 })
      fun _ _ => True :=
    .bind (mirrors_chargeCopy _) fun taken => mirrors_writePadded (sourceBytes · source) taken.2
  exact .ite (.rest rests_requireReturnData fun _ => copied) copied

theorem mirrors_extCodeCopy :
    Mirrors pre Billed.extCodeCopy Action.extCodeCopy fun _ _ => True :=
  .rest rests_pop fun _ => .rest (rests_warmAddress _) fun _ =>
    .bind (mirrors_chargeCopy _) fun taken => .rest (rests_onWorld _) fun code =>
      mirrors_writePadded (fun _ => code.toBytes) taken.2

theorem mirrors_log (topics : Fin 5) :
    Mirrors pre (Billed.log topics) (Action.log topics) fun _ _ => True :=
  .rest rests_requireWritable fun _ => .rest rests_pop fun _ => .rest rests_pop fun _ =>
    mirrors_rangeOf fun _ fits => .rest (rests_popWords _) fun _ => .rest (rests_useGas _)
      fun _ => .charge fits <| .rest (rests_readMemory _) fun _ =>
        .last (rests_modifyFrame (memory_addLog · _))

theorem mirrors_popOutput : Mirrors pre Billed.popOutput Action.popOutput fun _ _ => True :=
  .rest rests_pop fun _ => .rest rests_pop fun _ => mirrors_rangeOf fun _ fits =>
    .charge fits <| .last (rests_readMemory _)

theorem mirrors_returnOutput :
    Mirrors pre Billed.returnOutput Action.returnOutput fun _ _ => True :=
  .bind mirrors_popOutput fun _ => .last (rests_modifyFrame fun _ => rfl)

theorem mirrors_revertOutput :
    Mirrors pre Billed.revertOutput Action.revertOutput fun _ _ => True :=
  .bind mirrors_popOutput fun _ => .last (rests_modifyFrame fun _ => rfl)

theorem mirrors_reserve (kind : CallKind) :
    Mirrors pre (Billed.reserve kind) (Action.reserve kind) fun _ _ => True := by
  refine .rest (rests_peek 0) fun requestedGas => .rest (rests_peek 1) fun target => ?_
  refine .join (rests_peek 2) (.pure _) fun value => .rest rests_frame fun _ => ?_
  refine .ofExcept fun ranges named => .rest rests_frame fun caller => .ite .halt ?_
  obtain ⟨inputFits, outputFits⟩ := fits_memoryRanges named
  refine .rest (rests_warmAddress _) fun isCold => ?_
  refine .join (rests_onWorld _) (.pure _) fun createsAccount => .rest (rests_useGas _) fun _ => ?_
  refine .charge (MemoryRange.fits_furthest inputFits outputFits) ?_
  exact .rest rests_frame fun _ => .rest (rests_useGas _) fun _ => .pure _ fun _ _ => trivial

theorem mirrors_call (kind : CallKind) :
    Mirrors pre (Billed.call kind) (Action.call kind) fun _ _ => True := by
  rw [call_eq]
  exact .bind (mirrors_reserve kind) fun reservation => .last (rests_requestChild kind reservation)

theorem mirrors_create (schedule : GasSchedule) (kind : CreateKind) :
    Mirrors pre (Billed.create schedule kind) (Action.create schedule kind) fun _ _ => True := by
  have givenUp {pre : Memory → Prop} : Mirrors pre (Billed.lift (abandon kind.operandCount))
      (abandon kind.operandCount) fun _ _ => True :=
    .last (rests_abandon _)
  refine .rest rests_requireWritable fun _ => .rest (rests_peek 0) fun value => ?_
  refine .rest (rests_peek 1) fun offset => .rest (rests_peek 2) fun length => ?_
  refine mirrors_rangeOf fun range fits => .join (rests_peek 3) (.pure _) fun salt => ?_
  refine .ite .halt <| .rest (rests_useGas _) fun _ => .charge fits ?_
  refine .rest rests_frame fun creator => .rest (rests_onWorld _) fun nonce => ?_
  refine .rest (rests_holdsLess _ _) fun isUnderfunded => ?_
  -- Three conditions lead to the same end: too deep, too little balance, no nonce left.
  refine .ite givenUp <| .ite givenUp <| .ite givenUp ?_
  refine .rest (rests_readMemory range) fun initCode => .rest (rests_onWorld _) fun _ => ?_
  refine .rest (rests_warmAddress _) fun _ => .rest rests_frame fun payer => ?_
  exact .rest (rests_useGas _) fun _ => .last (rests_modifyFrame fun _ => rfl)

theorem execute_of_rests (schedule : GasSchedule) (context : Context) {instruction : Instruction}
    (rests : ¬instruction.TouchesMemory) :
    execute schedule context instruction = Billed.lift (instruction.execute schedule context) := by
  cases instruction <;> first | rfl | exact absurd trivial rests

theorem mirrors_execute (schedule : GasSchedule) (context : Context) (instruction : Instruction) :
    Mirrors pre (Billed.execute schedule context instruction)
      (instruction.execute schedule context) fun _ _ => True := by
  have ordinary {billed : Billed Unit} {action : Action Unit}
      (mirrors : Mirrors pre billed action fun _ _ => True) :
      Mirrors pre (do billed; return instruction.size) (do action; return instruction.size)
        fun _ _ => True :=
    .bind mirrors fun _ => .pure _ fun _ _ => trivial
  by_cases touches : instruction.TouchesMemory
  case neg =>
    rw [execute_of_rests schedule context touches]
    exact .last (rests_execute schedule context touches)
  cases instruction with
  | keccak => exact ordinary mirrors_keccak
  | copy source => exact ordinary (mirrors_copy source)
  | extCodeCopy => exact ordinary mirrors_extCodeCopy
  | mload => exact ordinary mirrors_mload
  | mstore => exact ordinary mirrors_mstore
  | mstore8 => exact ordinary mirrors_mstore8
  | log topics => exact ordinary (mirrors_log topics)
  | create kind => exact ordinary (mirrors_create schedule kind)
  | call kind => exact ordinary (mirrors_call kind)
  | «return» => exact ordinary mirrors_returnOutput
  | revert => exact ordinary mirrors_revertOutput
  | _ => exact touches.elim

end

/-! ## Steps -/

/-- A billed step is a step. From a settled bill it leads to a settled one, and no memory is
lost. -/
theorem mirrors_step (schedule : GasSchedule) (context : Context) {state : BilledMachine}
    (settles : state.bill.Settles state.machine.frame.memory) :
    match Billed.step schedule context state with
    | .ok after => state.machine.step schedule context = .ok after.machine ∧ state.Onward after
    | .error error => state.machine.step schedule context = .error error := by
  have halted (reason : Halt) : state.Onward { state with machine := state.machine.halt reason } :=
    .of_rests settles rfl
  unfold Billed.step Machine.step
  dsimp only
  cases Instruction.ofOpcode? schedule state.machine.frame.currentOpcode with
  | none => exact ⟨rfl, halted _⟩
  | some instruction =>
      dsimp only
      cases instruction.stackFault? state.machine.frame.stack.height with
      | some reason => exact ⟨rfl, halted reason⟩
      | none =>
          have mirrors : Mirrors (fun _ => True) _ _ _ :=
            mirrors_execute schedule context instruction
          have leads := mirrors state settles trivial
          dsimp only
          cases ran : Billed.execute schedule context instruction state with
          | ok count after =>
              rw [ran] at leads
              obtain ⟨same, onward, _⟩ := leads
              rw [same]
              exact ⟨rfl, onward.advance count⟩
          | error fault after =>
              rw [ran] at leads
              cases fault with
              | halt reason =>
                  obtain ⟨same, onward⟩ := leads
                  rw [same]
                  exact ⟨rfl, onward.settles, onward.grows⟩
              | state error =>
                  have same : instruction.execute schedule context state.machine =
                      .error (.state error) after.machine := leads
                  rw [same]

theorem onward_step {schedule : GasSchedule} {context : Context} {state after : BilledMachine}
    (settles : state.bill.Settles state.machine.frame.memory)
    (stepped : Billed.step schedule context state = .ok after) :
    state.machine.step schedule context = .ok after.machine ∧ state.Onward after := by
  have mirrors := mirrors_step schedule context settles
  rw [stepped] at mirrors
  exact mirrors

/-- Every step can be billed. -/
theorem exists_step {schedule : GasSchedule} {context : Context} (state : BilledMachine)
    {machine : Machine} (settles : state.bill.Settles state.machine.frame.memory)
    (stepped : state.machine.step schedule context = .ok machine) :
    ∃ bill, Billed.step schedule context state = .ok ⟨machine, bill⟩ := by
  have mirrors := mirrors_step schedule context settles
  cases ran : Billed.step schedule context state with
  | ok after =>
      rw [ran] at mirrors
      rw [mirrors.1] at stepped
      cases stepped
      exact ⟨after.bill, rfl⟩
  | error error =>
      rw [ran] at mirrors
      rw [mirrors] at stepped
      cases stepped

end Billed

end ExecutionLayer
