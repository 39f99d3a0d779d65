import ExecutionLayer.Proofs.Instruction.Courses

/-!
# Courses of calls and creations

A call or creation either gives up on its child and lets the code go on, or suspends the
frame with a child whose gas is paid for and whose value its sender holds.
-/

set_option autoImplicit false

namespace ExecutionLayer

theorem Frame.returnGas_le (frame : Frame) (amount : UInt64) :
    (frame.returnGas amount).gas.toNat ≤ frame.gas.toNat + amount.toNat := by
  have bound : (frame.returnGas amount).gas.toNat ≤
      min (frame.gas.toNat + amount.toNat) (UInt64.size - 1) := by
    unfold Frame.returnGas
    rw [UInt64.toNat_ofNat']
    exact Nat.mod_le _ _
  exact bound.trans (Nat.min_le_left _ _)

namespace Action

variable {Value Result : Type}

/-- Goes on from either of two beginnings that meet. -/
theorem Yields.join {condition : Prop} [Decidable condition] {first second : Action Value}
    {next : Value → Action Result} {machine : Machine} {post : Result → Machine → Prop}
    (meet : Value → Machine → Prop)
    (whenTrue : condition →
      Yields first machine fun value after => machine.Keeps after ∧ meet value after)
    (whenFalse : ¬condition →
      Yields second machine fun value after => machine.Keeps after ∧ meet value after)
    (later : ∀ value after, meet value after → Yields (next value) after post) :
    Yields (if condition then first >>= next else second >>= next) machine post := by
  apply Yields.ite
  · intro holds
    apply Yields.bind
    apply (whenTrue holds).mono
    rintro value after ⟨kept, met⟩
    exact ⟨kept, later value after met⟩
  · intro fails
    apply Yields.bind
    apply (whenFalse fails).mono
    rintro value after ⟨kept, met⟩
    exact ⟨kept, later value after met⟩

theorem Yields.halt {reason : Halt} {next : Value → Action Result} {machine : Machine}
    {post : Result → Machine → Prop} : Yields (Action.halt reason >>= next) machine post :=
  Machine.Keeps.refl machine

theorem Charges.reaches {returns : Value → Prop} {action : Action Value} {start machine : Machine}
    {paid : Nat} (charges : Charges 0 returns action) (reached : Machine.Reached paid start machine) :
    Yields action machine fun value after => machine.Keeps after ∧
      Machine.Reached paid start after ∧ returns value := by
  apply (charges machine).mono
  rintro value after ⟨kept, paidAfter, returned⟩
  have paidBefore := reached.paid
  exact ⟨kept, ⟨reached.keeps.trans kept, by omega⟩, returned⟩

theorem charges_abandon (operands : Nat) : Charges 0 Any (abandon operands) :=
  .bind_free (charges_modifyFrame (fun _ => ⟨rfl, rfl, rfl, rfl, rfl⟩) fun _ => rfl) fun _ _ =>
    .bind_free (charges_dropWords operands) fun _ _ => charges_push 0

section

variable {start machine : Machine} {least paid : Nat} {instruction : Instruction}

theorem yields_abandon {operands : Nat} (reached : Machine.Reached paid start machine)
    (enough : least ≤ paid) (executing : start.frame.status = .codeExecuting) :
    Yields (abandon operands) machine
      fun _ after => Machine.Moves least instruction start after := by
  apply (charges_abandon operands machine).mono
  rintro _ after ⟨kept, unpaid, _⟩
  have keptAll := reached.keeps.trans kept
  have paidBefore := reached.paid
  exact ⟨keptAll.frame.message, keptAll.frame.checkpoint, keptAll.world,
    .goesOn (keptAll.frame.status.trans executing) keptAll.frame.pendingChild (by omega)⟩

theorem yields_giveBack {operands : Nat} {gas : UInt64}
    (reached : Machine.Reached paid start machine) (payable : gas.toNat + least ≤ paid)
    (executing : start.frame.status = .codeExecuting) :
    Yields (do modifyFrame (·.returnGas gas); abandon operands) machine
      fun _ after => Machine.Moves least instruction start after := by
  apply Yields.bind
  apply Yields.modifyFrame
  have kept : machine.Keeps { machine with frame := machine.frame.returnGas gas } :=
    ⟨⟨rfl, rfl, rfl, rfl, rfl⟩, .refl _⟩
  have returned := machine.frame.returnGas_le gas
  have paidBefore := reached.paid
  have reachedAfter : Machine.Reached least start
      { machine with frame := machine.frame.returnGas gas } :=
    ⟨reached.keeps.trans kept, by dsimp only; omega⟩
  exact ⟨kept, yields_abandon reachedAfter (Nat.le_refl _) executing⟩

end

theorem holdsLess_eq (address : Address) (amount : Word) :
    holdsLess address amount = onWorld (do
      return (fun account : Option Account => decide ((account.getD {}).balance < amount))
        (← Journaled.account address)) := by
  funext machine
  simp only [holdsLess, Journaled.balance, onWorld, Bind.bind, EStateM.bind]
  cases Journaled.account address machine.world with
  | ok found world => rfl
  | error error world => rfl

theorem charges_holdsLess (address : Address) (amount : Word) :
    Charges 0 Any (holdsLess address amount) := by
  rw [holdsLess_eq]
  exact charges_question _ _

theorem funded_of_not_less {world : JournaledWorld} {sender : Address} {value : Word}
    {found : Option Account} (read : world.readings.account sender = .ok found)
    (enough : decide ((found.getD {}).balance < value) = false) :
    Journaled.Funded world sender value :=
  .inr ⟨found, read, BitVec.not_lt.mp (of_decide_eq_false enough)⟩

/-! ## Calls -/

/-- The gas that a call with value adds to what it forwards. -/
def stipend (value : Word) : UInt64 :=
  if value = 0 then 0 else Gas.callStipend

theorem callCost_covers (isCold createsAccount : Bool) (value : Word) :
    (stipend value).toNat + (Gas.accountAccessCost isCold).toNat ≤
      (Gas.callCost isCold (decide (value ≠ 0)) createsAccount).toNat := by
  -- The stipend is not taken from what the caller has left, but the surcharge covers it.
  unfold stipend
  by_cases nothing : value = 0
  · simp only [nothing, ↓reduceIte, ne_eq, not_true_eq_false, decide_false]
    cases isCold <;> cases createsAccount <;> decide
  · simp only [nothing, ↓reduceIte, ne_eq, not_false_eq_true, decide_true]
    cases isCold <;> cases createsAccount <;> decide

/-- What a call sets aside for its child. -/
structure Reservation where
  target : Address
  value : Word
  inputRange : MemoryRange
  forwarded : UInt64

/-- The gas that the child gets. -/
def Reservation.gas (reservation : Reservation) : UInt64 :=
  reservation.forwarded + stipend reservation.value

/-- The first part of a call: its price and the gas it forwards are paid. -/
def reserve (kind : CallKind) : Action Reservation := do
  let requestedGas ← peek 0
  let target := Address.ofWord (← peek 1)
  let value ← if kind.hasValueOperand then peek 2 else pure 0
  let (inputRange, outputRange) ← ofExcept (kind.memoryRanges (← frame).stack)
  if kind = .call ∧ (← frame).message.isStatic ∧ value ≠ 0 then halt .illegalStateChange
  let isCold ← warmAddress target
  let createsAccount ←
    if kind = .call ∧ value ≠ 0 then onWorld (Journaled.isEmptyOrAbsent target) else pure false
  useGas (Gas.callCost isCold (value ≠ 0) createsAccount)
  chargeMemory (inputRange.furthest outputRange)
  let forwarded := Gas.forwarded (← frame).gas requestedGas
  useGas forwarded
  return { target, value, inputRange, forwarded }

/-- The second part of a call: the frame is suspended with the child's message, or the gas
that was set aside comes back. -/
def requestChild (kind : CallKind) (reservation : Reservation) : Action Unit := do
  let caller := (← frame).message
  let isUnderfunded ←
    if kind.hasValueOperand then holdsLess caller.recipient reservation.value else pure false
  if caller.depth + 1 > Message.maxDepth ∨ isUnderfunded then
    modifyFrame (·.returnGas reservation.gas)
    abandon kind.operandCount
  else
    let input ← readMemory reservation.inputRange
    let code ← onWorld (Journaled.code reservation.target)
    let child : Message :=
      { kind := .messageCall
        depth := caller.depth + 1
        sender := if kind = .delegateCall then caller.sender else caller.recipient
        recipient :=
          if kind = .call ∨ kind = .staticCall then reservation.target else caller.recipient
        contract := reservation.target
        value := reservation.value
        apparentValue :=
          if kind = .delegateCall then caller.apparentValue else reservation.value
        input, code
        gas := reservation.gas
        isStatic := caller.isStatic || kind = .staticCall }
    modifyFrame (·.suspend child)

theorem ite_bind {condition : Prop} [Decidable condition] {first second : Action Value}
    {next : Value → Action Result} :
    (if condition then first else second) >>= next =
      if condition then first >>= next else second >>= next := by
  split <;> rfl

theorem call_eq (kind : CallKind) : call kind = reserve kind >>= requestChild kind := by
  simp only [call, reserve, bind_assoc, pure_bind, ite_bind]
  rfl

/-- The surcharge for value pays for the stipend, so what a call sets aside, and one unit
more, was paid for. -/
theorem yields_reserve (kind : CallKind) (machine : Machine) :
    Yields (reserve kind) machine fun reservation after => machine.Keeps after ∧
      Machine.Reached (reservation.forwarded.toNat + (stipend reservation.value).toNat + 1)
        machine after ∧
      (kind.hasValueOperand = false → reservation.value = 0) := by
  apply (charges_peek 0).reach (.start machine)
  intro requestedGas _ _ _ reached
  apply (charges_peek 1).reach reached
  intro target _ _ _ reached
  apply Yields.join fun value after => Machine.Reached 0 machine after ∧
    (kind.hasValueOperand = false → value = 0)
  · intro hasValue
    apply ((charges_peek 2).reaches reached).mono
    rintro value after ⟨kept, reachedAfter, _⟩
    exact ⟨kept, reachedAfter, fun hasNone => by rw [hasNone] at hasValue; cases hasValue⟩
  · exact fun _ => ⟨.refl _, reached, fun _ => rfl⟩
  rintro value asking ⟨reached, valueless⟩
  apply charges_frame.reach reached
  intro frame _ _ _ reached
  apply (charges_ofExcept _).reach reached
  rintro ⟨inputRange, outputRange⟩ _ _ _ reached
  apply charges_frame.reach reached
  intro frame _ _ _ reached
  apply Yields.ite fun _ => Yields.halt
  intro _
  apply (charges_warmAddress _).reach reached
  intro isCold _ _ _ reached
  apply Yields.join fun _ after => Machine.Reached 0 machine after
  · intro _
    apply ((charges_question (fun account => account.all Account.isEmpty) _).reaches reached).mono
    rintro _ after ⟨kept, reachedAfter, _⟩
    exact ⟨kept, reachedAfter⟩
  · exact fun _ => ⟨.refl _, reached⟩
  intro createsAccount _ reached
  have touching : 1 ≤ (Gas.accountAccessCost isCold).toNat := by cases isCold <;> decide
  have covers := callCost_covers isCold createsAccount value
  apply (charges_useGas (Nat.le_trans (Nat.add_le_add_left touching _) covers)).reach reached
  intro _ _ _ _ reached
  apply (charges_chargeMemory _).reach reached
  intro _ _ _ _ reached
  apply charges_frame.reach reached
  intro payer _ _ _ reached
  apply (charges_useGas (Nat.le_refl _)).reach reached
  intro _ _ _ _ reached
  have paid := reached.paid
  exact ⟨reached.keeps, ⟨reached.keeps, by dsimp only; omega⟩, valueless⟩

theorem yields_requestChild (kind : CallKind) {reservation : Reservation}
    {start machine : Machine} (executing : start.frame.status = .codeExecuting)
    (reached : Machine.Reached
      (reservation.forwarded.toNat + (stipend reservation.value).toNat + 1) start machine)
    (valueless : kind.hasValueOperand = false → reservation.value = 0) :
    Yields (requestChild kind reservation) machine
      fun _ after => Machine.Moves 1 (.call kind) start after := by
  have payable : reservation.gas.toNat + 1 ≤
      reservation.forwarded.toNat + (stipend reservation.value).toNat + 1 :=
    Nat.succ_le_succ (toNat_add_le _ _)
  apply charges_frame.reach reached
  intro caller _ _ _ reached
  apply Yields.join fun isUnderfunded after =>
    Machine.Reached (reservation.forwarded.toNat + (stipend reservation.value).toNat + 1)
      start after ∧
      (isUnderfunded = false → Journaled.Funded after.world
        (if kind = .delegateCall then caller.message.sender else caller.message.recipient)
        reservation.value)
  · intro hasValue
    have notDelegate : kind ≠ .delegateCall := by
      rintro rfl
      cases hasValue
    rw [holdsLess_eq, if_neg notDelegate]
    apply (reaches_question _ _ reached).mono
    rintro isUnderfunded after ⟨kept, reachedAfter, found, read, rfl, same⟩
    refine ⟨kept, reachedAfter, fun enough => ?_⟩
    rw [← same] at read
    exact funded_of_not_less read enough
  · -- Without an operand for the value nothing moves.
    intro hasNone
    exact ⟨.refl _, reached, fun _ => .inl (valueless (Bool.eq_false_iff.mpr hasNone))⟩
  rintro isUnderfunded _ ⟨reached, funded⟩
  apply Yields.ite
  · intro _
    exact yields_giveBack reached payable executing
  · intro possible
    have enough : isUnderfunded = false := by
      rw [not_or, Bool.not_eq_true] at possible
      exact possible.2
    apply (charges_readMemory _).reach reached
    intro input reader readRan _ reached
    apply reach_question (fun account => (account.getD {}).code) reached
    intro found world read same reached
    apply Yields.suspend (show (Instruction.call kind).AsksForChild from trivial) reached payable
    have kept := keepsWorld_readMemory _ _ _ _ readRan
    apply (funded enough).congr
    rw [same, kept]

theorem yields_call (kind : CallKind) {machine : Machine}
    (executing : machine.frame.status = .codeExecuting) :
    Yields (call kind) machine fun _ after => Machine.Moves 1 (.call kind) machine after := by
  rw [call_eq]
  apply Yields.bind
  apply (yields_reserve kind machine).mono
  rintro reservation after ⟨kept, reached, valueless⟩
  exact ⟨kept, yields_requestChild kind executing reached valueless⟩

/-! ## Creations -/

theorem createCost_pos (fork : Fork) (kind : CreateKind) {length : Nat}
    (le : length ≤ MemoryRange.limit) : 1 ≤ (kind.cost (.ofFork fork) length).toNat := by
  have base : Gas.create.toNat = 32000 := rfl
  have words := wordCount_le le
  have each : (GasSchedule.ofFork fork).initCodeWordCost.toNat ≤ 2 := by
    unfold GasSchedule.ofFork
    dsimp only
    split <;> decide
  have initCode : ((GasSchedule.ofFork fork).initCodeCost length).toNat ≤ 268435456 := by
    have total := toNat_mul_le (GasSchedule.ofFork fork).initCodeWordCost (Gas.wordCount length)
    have product := Nat.mul_le_mul each words
    exact total.trans product
  cases kind with
  | create =>
      have cost : CreateKind.create.cost (.ofFork fork) length =
          Gas.create + 0 + (GasSchedule.ofFork fork).initCodeCost length := rfl
      have none : (0 : UInt64).toNat = 0 := rfl
      rw [cost, toNat_add_add_of_lt]
      · omega
      · omega
  | create2 =>
      have cost : CreateKind.create2.cost (.ofFork fork) length =
          Gas.create + Gas.keccakWord * Gas.wordCount length +
            (GasSchedule.ofFork fork).initCodeCost length := rfl
      have eachWord : Gas.keccakWord.toNat = 6 := rfl
      have hashing := toNat_mul_le Gas.keccakWord (Gas.wordCount length)
      rw [eachWord] at hashing
      rw [cost, toNat_add_add_of_lt]
      · omega
      · omega

theorem yields_create {schedule : GasSchedule} {kind : CreateKind} {least : Nat}
    (charged : ∀ length ≤ MemoryRange.limit, least ≤ (kind.cost schedule length).toNat)
    {machine : Machine} (executing : machine.frame.status = .codeExecuting) :
    Yields (create schedule kind) machine
      fun _ after => Machine.Moves least (.create kind) machine after := by
  apply charges_requireWritable.reach (.start machine)
  intro _ _ _ _ reached
  apply (charges_peek 0).reach reached
  intro value _ _ _ reached
  apply (charges_peek 1).reach reached
  intro offset _ _ _ reached
  apply (charges_peek 2).reach reached
  intro length _ _ _ reached
  apply (charges_rangeOf offset length).reach reached
  intro range _ _ fits reached
  apply Yields.join fun _ after => Machine.Reached 0 machine after
  · intro _
    apply ((charges_peek 3).reaches reached).mono
    rintro _ after ⟨kept, reachedAfter, _⟩
    exact ⟨kept, reachedAfter⟩
  · exact fun _ => ⟨.refl _, reached⟩
  intro salt _ reached
  apply Yields.ite fun _ => Yields.halt
  intro _
  apply (charges_useGas (charged range.length fits)).reach reached
  intro _ _ _ _ reached
  apply (charges_chargeMemory range).reach reached
  intro _ _ _ _ reached
  apply charges_frame.reach reached
  intro creator _ _ _ reached
  apply reach_question (fun account => (account.getD {}).nonce) reached
  intro found _ read same reached
  rw [holdsLess_eq]
  apply reach_question _ reached
  intro foundAgain after readAgain sameAgain reached
  have sameFound : foundAgain = found := by
    rw [same, read] at readAgain
    cases readAgain
    rfl
  subst sameFound
  rw [← sameAgain] at readAgain
  -- Three conditions lead to the same end: too deep, too little balance, no nonce left.
  have givenUp : Yields (abandon kind.operandCount) after
      fun _ after => Machine.Moves least (.create kind) machine after :=
    yields_abandon reached (by omega) executing
  apply Yields.ite fun _ => givenUp
  intro _
  apply Yields.ite fun _ => givenUp
  intro enough
  have funded := funded_of_not_less readAgain (Bool.not_eq_true _ ▸ enough)
  apply Yields.ite fun _ => givenUp
  intro possible
  have below : (foundAgain.getD {}).nonce.toNat + 1 < UInt64.size := by
    rw [Bool.not_eq_true, Bool.not_eq_false', decide_eq_true_iff] at possible
    exact possible
  apply (charges_readMemory range).reach reached
  intro initCode reader readRan _ reached
  have kept := keepsWorld_readMemory _ _ _ _ readRan
  rw [← kept] at readAgain funded
  apply reach_onWorld (Journaled.safeAt_incrementNonce readAgain below) reached
  intro _ counted countRan reached
  have fundedAfter := funded.incrementNonce readAgain below countRan
  apply (charges_warmAddress _).reach reached
  intro _ warmed warmRan _ reached
  apply charges_frame.reach reached
  intro payer asking askRan _ reached
  apply (charges_useGas (Nat.le_refl _)).reach reached
  intro _ paid payRan _ reached
  have sameWorld : paid.world = counted := by
    rw [keepsWorld_useGas _ _ _ _ payRan, keepsWorld_frame _ _ _ askRan,
      keepsWorld_warmAddress _ _ _ _ warmRan]
  apply Yields.suspend (show (Instruction.create kind).AsksForChild from trivial) reached
  · dsimp only
    omega
  · rw [sameWorld]
    exact fundedAfter

end Action

end ExecutionLayer
