import ExecutionLayer.Proofs.Execution.Runs
import ExecutionLayer.Proofs.Transaction.Validity
import ExecutionLayer.Proofs.World.Overlay

/-!
# Applied transactions

A valid transaction is applied, unless its sender's nonce is the greatest there is or a
balance overflows. No value appears in either case.
-/

set_option autoImplicit false

namespace ExecutionLayer

namespace Journaled

open JournaledWorld

variable {Value Result : Type}

/-- The operation comes to a world that leads back to the start and holds at most an
amount, or a balance overflows and the amount is more than a word can hold. -/
def Within (start : JournaledWorld) (total : Nat) (operation : Journaled Value)
    (world : JournaledWorld) : Prop :=
  match operation world with
  | .ok _ after => Continues start after ∧ after.readings.Lawful ∧ after.readings.supply ≤ total
  | .error error _ => Overflows total error

namespace Within

variable {start world : JournaledWorld} {total : Nat} {operation : Journaled Value}
  {next : Value → Journaled Result}

theorem of_ok {value : Value} {after : JournaledWorld} (ran : operation world = .ok value after) :
    Within start total operation world ↔
      Continues start after ∧ after.readings.Lawful ∧ after.readings.supply ≤ total := by
  rw [Within, ran]

theorem of_error {error : StateError} {after : JournaledWorld}
    (failed : operation world = .error error after) :
    Within start total operation world ↔ Overflows total error := by
  rw [Within, failed]

theorem bind_safe (lawful : world.readings.Lawful) (room : world.readings.supply ≤ total)
    (safe : SafeAt operation world)
    (later : ∀ value after, operation world = .ok value after → Conserves world after →
      Within start total (next value) after) :
    Within start total (operation >>= next) world := by
  cases ran : operation world with
  | ok value after =>
      have within := later value after ran (safe.conserves ran)
      rw [Within, run_bind_ok ran]
      exact within
  | error error after =>
      exact (of_error (run_bind_error ran)).mpr ((safe.overflows ran lawful).mono room)

theorem bind_addBalance {address : Address} {amount : Word} {next : Unit → Journaled Result}
    (lawful : world.readings.Lawful) (continues : Continues start world)
    (room : world.readings.supply + amount.toNat ≤ total)
    (later : ∀ after, Continues start after → after.readings.Lawful →
      after.readings.supply = world.readings.supply + amount.toNat →
        Within start total (next ()) after) :
    Within start total (addBalance address amount >>= next) world := by
  obtain ⟨found, read⟩ := lawful.exists_account address
  rcases addBalance_cases amount read with
    ⟨after, account, ran, same, _, forward, supply⟩ | ⟨after, failed, full⟩
  · have lawfulAfter : after.readings.Lawful := by
      rw [same]
      exact lawful.writeAccount address (some account)
    have within := later after (continues.trans forward) lawfulAfter supply
    rw [Within, run_bind_ok ran]
    exact within
  · exact (of_error (run_bind_error failed)).mpr ⟨full.trans room, address, rfl⟩

theorem bind_pure {result : Result} (within : Within start total operation world) :
    Within start total (do let _ ← operation; return result) world := by
  cases ran : operation world with
  | ok value after =>
      rw [Within, run_bind_ok ran]
      exact (of_ok ran).mp within
  | error error after => exact (of_error (run_bind_error ran)).mpr ((of_error ran).mp within)

end Within

end Journaled

namespace Transaction

open JournaledWorld

/-! ## Checks -/

/-- The transaction passes every check on top of a view. -/
def Passes (rules : BlockRules) (view : WorldView) (baseFee : Option Word) (remaining : UInt64)
    (transaction : Transaction) : Prop :=
  transaction.checkInBlock rules baseFee remaining = .ok () ∧
    ∃ found, view.account transaction.sender = .ok found ∧
      transaction.checkSender (found.getD {}) = .ok ()

variable {rules : BlockRules} {view : WorldView} {baseFee : Option Word} {remaining : UInt64}
  {transaction : Transaction}

theorem check_of_passes (passes : Passes rules view baseFee remaining transaction) :
    ∃ world, transaction.check rules baseFee remaining { base := view } = .ok (.ok ()) world ∧
      world.readings = .ofView view ∧ Continues { base := view } world := by
  obtain ⟨inBlock, found, read, bySender⟩ := passes
  have readFresh : ({ base := view } : JournaledWorld).readings.account transaction.sender =
      .ok found := by
    rw [readings_ofView]
    exact read
  obtain ⟨world, answered, same, continues⟩ :=
    (Journaled.follows_account transaction.sender).ask_ok readFresh
  rw [readings_ofView] at same
  refine ⟨world, ?_, same, continues⟩
  unfold check
  rw [inBlock]
  simp only [Bind.bind, EStateM.bind, answered]
  rw [bySender]
  rfl

theorem check_of_not_passes (faultFree : view.FaultFree)
    (fails : ¬Passes rules view baseFee remaining transaction) :
    ∃ reason world,
      transaction.check rules baseFee remaining { base := view } = .ok (.error reason) world := by
  cases inBlock : transaction.checkInBlock rules baseFee remaining with
  | error reason =>
      refine ⟨reason, { base := view }, ?_⟩
      unfold check
      rw [inBlock]
      rfl
  | ok passed =>
      obtain ⟨found, read⟩ := faultFree.account transaction.sender
      have readFresh : ({ base := view } : JournaledWorld).readings.account transaction.sender =
          .ok found := by
        rw [readings_ofView]
        exact read
      obtain ⟨world, answered, _, _⟩ :=
        (Journaled.follows_account transaction.sender).ask_ok readFresh
      cases bySender : transaction.checkSender (found.getD {}) with
      | ok passedToo => exact absurd ⟨inBlock, found, read, bySender⟩ fails
      | error reason =>
          refine ⟨reason, world, ?_⟩
          unfold check
          rw [inBlock]
          simp only [Bind.bind, EStateM.bind, answered]
          rw [bySender]
          rfl

/-! ## Execution -/

/-- What the gas costs the sender up front. -/
def purchase (transaction : Transaction) (baseFee : Option Word) : Word :=
  Word.ofUInt64 transaction.gasLimit * transaction.effectiveGasPrice baseFee

theorem toNat_purchase_le (transaction : Transaction) (baseFee : Option Word) :
    (transaction.purchase baseFee).toNat + transaction.value.toNat ≤ transaction.upfrontCost := by
  have cost := toNat_cost_le transaction.gasLimit (transaction.effectiveGasPrice baseFee)
  have product := Nat.mul_le_mul_left transaction.gasLimit.toNat
    (transaction.effectiveGasPrice_le baseFee)
  unfold purchase upfrontCost
  omega

theorem toNat_purchase {transaction : Transaction} (baseFee : Option Word)
    (small : transaction.upfrontCost < Word.size) :
    (transaction.purchase baseFee).toNat =
      transaction.gasLimit.toNat * (transaction.effectiveGasPrice baseFee).toNat := by
  have product := Nat.mul_le_mul_left transaction.gasLimit.toNat
    (transaction.effectiveGasPrice_le baseFee)
  unfold upfrontCost at small
  unfold purchase
  rw [BitVec.toNat_mul, toNat_ofUInt64]
  apply Nat.mod_eq_of_lt
  have size : Word.size = 2 ^ 256 := rfl
  omega

section

variable {world : JournaledWorld} {found : Option Account} {price : Word}

theorem buyGas_greatest (read : world.readings.account transaction.sender = .ok found)
    (covered : Word.ofUInt64 transaction.gasLimit * price ≤ (found.getD {}).balance)
    (greatest : ¬(found.getD {}).nonce.toNat + 1 < UInt64.size) :
    ∃ after, transaction.buyGas price world =
      .error (.inconsistent transaction.sender "nonce overflow") after := by
  obtain ⟨asked, answered, same, _⟩ :=
    Journaled.run_question (fun account => (account.getD {}).nonce) read
  rw [← same] at read
  obtain ⟨middle, account, taken, sameTaken, made, _, _⟩ := Journaled.run_subBalance read covered
  have readTaken : middle.readings.account transaction.sender = .ok (some account) := by
    rw [sameTaken]
    exact if_pos rfl
  have greatestTaken : ¬((some account).getD {}).nonce.toNat + 1 < UInt64.size := by
    rw [Option.getD_some, made]
    exact greatest
  obtain ⟨after, failed⟩ := Journaled.run_incrementNonce_greatest readTaken greatestTaken
  refine ⟨after, ?_⟩
  unfold buyGas
  exact (Journaled.run_bind_ok answered).trans
    ((Journaled.run_bind_ok taken).trans (Journaled.run_bind_error failed))

/-- What buying gas leaves behind for any other nonce. -/
structure Bought (price : Word) (transaction : Transaction) (found : Option Account)
    (world after : JournaledWorld) : Prop where
  continues : Continues world after
  lawful : world.readings.Lawful → after.readings.Lawful
  supply : after.readings.supply + (Word.ofUInt64 transaction.gasLimit * price).toNat =
    world.readings.supply
  paid : ∃ account : Account, after.readings.account transaction.sender = .ok (some account) ∧
    account.balance =
      (found.getD {}).balance - Word.ofUInt64 transaction.gasLimit * price

theorem buyGas_of_below (read : world.readings.account transaction.sender = .ok found)
    (covered : Word.ofUInt64 transaction.gasLimit * price ≤ (found.getD {}).balance)
    (below : (found.getD {}).nonce.toNat + 1 < UInt64.size) :
    ∃ after, transaction.buyGas price world = .ok (found.getD {}).nonce after ∧
      Bought price transaction found world after := by
  obtain ⟨asked, answered, same, asking⟩ :=
    Journaled.run_question (fun account => (account.getD {}).nonce) read
  rw [← same] at read
  obtain ⟨middle, account, taken, sameTaken, made, taking, supply⟩ :=
    Journaled.run_subBalance read covered
  have readTaken : middle.readings.account transaction.sender = .ok (some account) := by
    rw [sameTaken]
    exact if_pos rfl
  have belowTaken : ((some account).getD {}).nonce.toNat + 1 < UInt64.size := by
    rw [Option.getD_some, made]
    exact below
  obtain ⟨after, counted, counting, sameAfter, madeAfter, continues, supplyAfter⟩ :=
    Journaled.run_incrementNonce readTaken belowTaken
  refine ⟨after, ?_, ?_⟩
  · unfold buyGas
    exact (Journaled.run_bind_ok answered).trans
      ((Journaled.run_bind_ok taken).trans (Journaled.run_bind_ok counting))
  · refine ⟨asking.trans (taking.trans continues), ?_, ?_, counted, ?_, ?_⟩
    · intro lawful
      rw [sameAfter, sameTaken, same]
      exact (lawful.writeAccount _ _).writeAccount _ _
    · rw [supplyAfter, supply, same]
    · rw [sameAfter]
      exact if_pos rfl
    · rw [madeAfter, Option.getD_some, made]

theorem Bought.funded {after : JournaledWorld} (bought : Bought price transaction found world after)
    (covered : (Word.ofUInt64 transaction.gasLimit * price).toNat + transaction.value.toNat ≤
      (found.getD {}).balance.toNat) :
    Journaled.Funded after transaction.sender transaction.value := by
  obtain ⟨account, read, left⟩ := bought.paid
  refine .inr ⟨some account, read, ?_⟩
  have enough : Word.ofUInt64 transaction.gasLimit * price ≤ (found.getD {}).balance := by
    rw [BitVec.le_def]
    omega
  rw [Option.getD_some, left, BitVec.le_def, BitVec.toNat_sub_of_le enough]
  omega

theorem safeAt_rootMessage (schedule : GasSchedule) (nonce : UInt64) (transaction : Transaction)
    (world : JournaledWorld) : Journaled.SafeAt (transaction.rootMessage schedule nonce) world := by
  unfold rootMessage
  cases transaction.recipient with
  | none => exact .pure _ world
  | some recipient =>
      apply (Journaled.safeAt_question (fun account => (account.getD {}).code) recipient world).bind
      intro code after _
      exact .pure _ after

theorem rootMessage_ok {schedule : GasSchedule} {nonce : UInt64} {message : Message}
    {after : JournaledWorld}
    (ran : transaction.rootMessage schedule nonce world = .ok message after) :
    message.sender = transaction.sender ∧ message.value = transaction.value ∧
      message.gas = transaction.gasLimit - intrinsicGas schedule transaction ∧
      after.readings = world.readings := by
  unfold rootMessage at ran
  cases aim : transaction.recipient with
  | none =>
      rw [aim] at ran
      cases ran
      exact ⟨rfl, rfl, rfl, rfl⟩
  | some recipient =>
      rw [aim] at ran
      obtain ⟨code, asked, answered, ran⟩ := Journaled.bind_eq_ok ran
      obtain ⟨_, _, _, same⟩ :=
        Journaled.question_ok (fun account => (account.getD {}).code) answered
      cases ran
      exact ⟨rfl, rfl, rfl, same⟩

end

theorem safeAt_runRoot {fork : Fork} {context : Context} {root : Frame} {world : JournaledWorld}
    (ends : Configuration.Ends world root.gas.toNat (process (.ofFork fork) context root world)) :
    Journaled.SafeAt (runRoot (.ofFork fork) context root) world := by
  cases processed : process (.ofFork fork) context root world with
  | ok finished =>
      rw [processed] at ends
      have ran : runRoot (.ofFork fork) context root world = .ok finished.1 finished.2 := by
        simp only [runRoot, processed]
      exact .of_ok ran ends.2.2
  | error error =>
      rw [processed] at ends
      have failed : runRoot (.ofFork fork) context root world = .error error world := by
        simp only [runRoot, processed]
      exact .of_error failed ends

theorem runRoot_ok {fork : Fork} {context : Context} {root finished : Frame}
    {world after : JournaledWorld}
    (ends : Configuration.Ends world root.gas.toNat (process (.ofFork fork) context root world))
    (ran : runRoot (.ofFork fork) context root world = .ok finished after) :
    finished.gas.toNat ≤ root.gas.toNat := by
  unfold runRoot at ran
  cases processed : process (.ofFork fork) context root world with
  | ok result =>
      rw [processed] at ran ends
      cases ran
      exact ends.2.1
  | error error =>
      rw [processed] at ran
      cases ran

/-- What was paid for all gas is paid back for the gas that is left, and splits into tip and
base fee for the gas that was used. -/
theorem payback_eq {baseFee : Option Word} {used : UInt64}
    (capped : ∀ fee, baseFee = some fee → fee ≤ transaction.maxFee)
    (small : transaction.upfrontCost < Word.size)
    (part : used.toNat ≤ transaction.gasLimit.toNat) :
    (Word.ofUInt64 (transaction.gasLimit - used) *
          transaction.effectiveGasPrice baseFee).toNat +
        (Word.ofUInt64 used *
          priorityFee baseFee (transaction.effectiveGasPrice baseFee)).toNat +
        used.toNat * (baseFee.getD 0).toNat =
      (transaction.purchase baseFee).toNat := by
  have parts : used.toNat * (_ + _) = used.toNat * _ :=
    congrArg (used.toNat * ·) (priorityFee_add_baseFee capped)
  rw [toNat_purchase baseFee small]
  have total := Nat.mul_le_mul_left transaction.gasLimit.toNat
    (transaction.effectiveGasPrice_le baseFee)
  unfold upfrontCost at small
  generalize transaction.effectiveGasPrice baseFee = price at parts total ⊢
  have usedLe := Nat.mul_le_mul_right price.toNat part
  have left : (transaction.gasLimit - used).toNat * price.toNat =
      transaction.gasLimit.toNat * price.toNat - used.toNat * price.toNat := by
    rw [UInt64.toNat_sub_of_le _ _ (UInt64.le_iff_toNat_le.mpr part), Nat.sub_mul]
  rw [Nat.mul_add] at parts
  rw [toNat_cost (by omega), toNat_cost (by omega)]
  omega

theorem settle_within {start world : JournaledWorld} {total : Nat} {block : BlockContext}
    {price : Word} {used : UInt64} {root : Frame} (lawful : world.readings.Lawful)
    (continues : Continues start world)
    (room : world.readings.supply +
      ((Word.ofUInt64 (transaction.gasLimit - used) * price).toNat +
        (Word.ofUInt64 used * priorityFee block.baseFee price).toNat) ≤ total) :
    Journaled.Within start total (transaction.settle block price used root) world := by
  apply Journaled.Within.bind_addBalance lawful continues (by omega)
  intro refunded continues lawful supplyRefunded
  apply Journaled.Within.bind_addBalance lawful continues (by omega)
  intro tipped continues lawful supplyTipped
  obtain ⟨after, ran, onward, lawfulAfter, taken⟩ :=
    Journaled.run_finalize root.selfDestructs lawful
  exact (Journaled.Within.of_ok ran).mpr ⟨continues.trans onward, lawfulAfter, by omega⟩

section

variable {block : BlockContext} {blockHash : UInt64 → Option Hash} {world : JournaledWorld}
  {found : Option Account}

theorem covered_of_valid (baseFee : Option Word)
    (valid : transaction.checkSender (found.getD {}) = .ok ()) :
    (transaction.purchase baseFee).toNat + transaction.value.toNat ≤
      (found.getD {}).balance.toNat := by
  obtain ⟨_, _, covered, _⟩ := checkSender_ok valid
  exact (transaction.toNat_purchase_le baseFee).trans covered

theorem purchase_le_of_valid (baseFee : Option Word)
    (valid : transaction.checkSender (found.getD {}) = .ok ()) :
    transaction.purchase baseFee ≤ (found.getD {}).balance := by
  have covered := covered_of_valid baseFee valid
  rw [BitVec.le_def]
  omega

theorem execute_greatest (schedule : GasSchedule)
    (read : world.readings.account transaction.sender = .ok found)
    (valid : transaction.checkSender (found.getD {}) = .ok ())
    (greatest : ¬(found.getD {}).nonce.toNat + 1 < UInt64.size) :
    ∃ after, transaction.execute schedule block blockHash world =
      .error (.inconsistent transaction.sender "nonce overflow") after := by
  obtain ⟨after, failed⟩ :=
    buyGas_greatest read (purchase_le_of_valid block.baseFee valid) greatest
  exact ⟨after, Journaled.run_bind_error failed⟩

/-- What is left after the gas was bought pays the value of the root frame. -/
theorem rootMessage_funded {started asked : JournaledWorld} {nonce : UInt64} {message : Message}
    (inBlock : transaction.checkInBlock rules block.baseFee remaining = .ok ())
    (valid : transaction.checkSender (found.getD {}) = .ok ())
    (bought : Bought (transaction.effectiveGasPrice block.baseFee) transaction found world started)
    (ran : transaction.rootMessage rules.schedule nonce started = .ok message asked) :
    Journaled.Funded asked message.sender message.value ∧
      message.gas.toNat ≤ transaction.gasLimit.toNat := by
  have intrinsic := (admitted_of_checkInBlock inBlock).intrinsic
  obtain ⟨sender, value, gas, same⟩ := rootMessage_ok ran
  refine ⟨?_, ?_⟩
  · rw [sender, value]
    exact (bought.funded (covered_of_valid block.baseFee valid)).congr same
  · rw [gas, UInt64.toNat_sub_of_le _ _ intrinsic]
    exact Nat.sub_le _ _

/-- For any other nonce, execution ends within what all accounts held before. -/
theorem execute_within (lawful : world.readings.Lawful)
    (read : world.readings.account transaction.sender = .ok found)
    (inBlock : transaction.checkInBlock rules block.baseFee remaining = .ok ())
    (valid : transaction.checkSender (found.getD {}) = .ok ())
    (below : (found.getD {}).nonce.toNat + 1 < UInt64.size) :
    Journaled.Within world world.readings.supply
      (transaction.execute rules.schedule block blockHash) world := by
  have capped := (admitted_of_checkInBlock inBlock).capped
  obtain ⟨_, small, _⟩ := checkSender_ok valid
  obtain ⟨started, buying, bought⟩ :=
    buyGas_of_below read (purchase_le_of_valid block.baseFee valid) below
  have lawfulStarted := bought.lawful lawful
  have spent := bought.supply
  unfold execute
  dsimp only
  rw [Journaled.Within, Journaled.run_bind_ok buying, ← Journaled.Within]
  apply Journaled.Within.bind_safe lawfulStarted (by omega) (safeAt_rootMessage _ _ _ started)
  intro message asked messageRan asking
  obtain ⟨funded, limit⟩ := rootMessage_funded inBlock valid bought messageRan
  have lawfulAsked := asking.lawful lawfulStarted
  have kept := asking.supply lawfulStarted
  have ends (context : Context) (warmAddresses : Std.ExtTreeSet Address)
      (warmSlots : Std.ExtTreeSet SlotId) :
      Configuration.Ends asked message.gas.toNat (process rules.schedule context
        (Frame.ofMessage message warmAddresses warmSlots) asked) :=
    process_ends rules.fork context rfl rfl funded
  apply Journaled.Within.bind_safe lawfulAsked (by omega) (safeAt_runRoot (ends _ _ _))
  intro root finished rootRan running
  have left := runRoot_ok (ends _ _ _) rootRan
  -- What is credited is part of what was bought, whose price is gone since the purchase.
  have used := gasUsed_le rules.schedule (Nat.le_trans left limit)
  have payback := payback_eq capped small used
  unfold purchase at payback
  have lost := running.supply lawfulAsked
  apply Journaled.Within.bind_pure
  apply settle_within (running.lawful lawfulAsked)
  · exact bought.continues.trans (asking.continues.trans running.continues)
  · omega

end

/-! ## Application -/

section

variable {block : BlockContext} (blockHash : UInt64 → Option Hash)

theorem apply_of_not_passes (faultFree : view.FaultFree)
    (fails : ¬Passes rules view block.baseFee remaining transaction) :
    ∃ reason, transaction.apply rules view block blockHash remaining =
      .error (.invalid reason) := by
  obtain ⟨reason, world, checked⟩ := check_of_not_passes faultFree fails
  refine ⟨reason, ?_⟩
  unfold apply
  rw [checked]

/-- A valid transaction that counts the greatest nonce up is a fault. -/
theorem apply_of_greatest (passes : Passes rules view block.baseFee remaining transaction)
    (greatest : transaction.nonce.toNat + 1 = UInt64.size) :
    transaction.apply rules view block blockHash remaining =
      .error (.state (.inconsistent transaction.sender "nonce overflow")) := by
  obtain ⟨world, checked, same, _⟩ := check_of_passes passes
  obtain ⟨_, found, read, valid⟩ := passes
  have readWorld : world.readings.account transaction.sender = .ok found := by
    rw [same]
    exact read
  obtain ⟨nonce, _, _⟩ := checkSender_ok valid
  have greatestFound : ¬(found.getD {}).nonce.toNat + 1 < UInt64.size := by
    rw [nonce]
    omega
  obtain ⟨after, failed⟩ := execute_greatest rules.schedule readWorld valid greatestFound
  unfold apply
  rw [checked]
  dsimp only
  rw [failed]

theorem nonce_cases (nonce : UInt64) :
    nonce.toNat + 1 = UInt64.size ∨ nonce.toNat + 1 < UInt64.size := by
  have range : nonce.toNat < UInt64.size := nonce.toNat_lt
  omega

/-- What a transaction with any other nonce comes to. -/
theorem apply_of_below (faultFree : view.FaultFree)
    (passes : Passes rules view block.baseFee remaining transaction)
    (below : transaction.nonce.toNat + 1 < UInt64.size) :
    (∃ outcome, transaction.apply rules view block blockHash remaining = .ok outcome ∧
        ∃ world : JournaledWorld, outcome.effects = world.effects ∧ world.base = view ∧
          world.readings.Lawful ∧ world.readings.supply ≤ view.supply) ∨
      ∃ error, transaction.apply rules view block blockHash remaining = .error (.state error) ∧
        Overflows view.supply error := by
  obtain ⟨world, checked, same, continues⟩ := check_of_passes passes
  obtain ⟨inBlock, found, read, valid⟩ := passes
  have readWorld : world.readings.account transaction.sender = .ok found := by
    rw [same]
    exact read
  have lawful : world.readings.Lawful := by
    rw [same]
    exact .ofView faultFree
  obtain ⟨nonce, _, _⟩ := checkSender_ok valid
  rw [← nonce] at below
  have within : Journaled.Within world view.supply
      (transaction.execute rules.schedule block blockHash) world := by
    rw [← Readings.supply_ofView, ← same]
    exact execute_within lawful readWorld inBlock valid below
  cases executed : transaction.execute rules.schedule block blockHash world with
  | error error after =>
      refine .inr ⟨error, ?_, (Journaled.Within.of_error executed).mp within⟩
      unfold apply
      rw [checked]
      dsimp only
      rw [executed]
  | ok finished after =>
      obtain ⟨later, lawfulAfter, supply⟩ := (Journaled.Within.of_ok executed).mp within
      have applied : transaction.apply rules view block blockHash remaining =
          .ok
            { effects := after.effects
              gasUsed := transaction.gasUsed rules.schedule finished.1
              success := finished.1.status = .completedSuccess
              logs := finished.1.logs
              contractAddress := transaction.contractAddress finished.2 } := by
        unfold apply
        rw [checked]
        dsimp only
        rw [executed]
      exact .inl ⟨_, applied, after, rfl, (continues.trans later).base_eq, lawfulAfter, supply⟩

variable {blockHash}

theorem apply_ok (faultFree : view.FaultFree) {outcome : Outcome}
    (applied : transaction.apply rules view block blockHash remaining = .ok outcome) :
    ∃ world : JournaledWorld, outcome.effects = world.effects ∧ world.base = view ∧
      world.readings.Lawful ∧ world.readings.supply ≤ view.supply := by
  by_cases passes : Passes rules view block.baseFee remaining transaction
  · rcases nonce_cases transaction.nonce with greatest | below
    · rw [apply_of_greatest blockHash passes greatest] at applied
      cases applied
    · rcases apply_of_below blockHash faultFree passes below with
        ⟨_, appliedAgain, holds⟩ | ⟨_, failed, _⟩
      · rw [applied] at appliedAgain
        cases appliedAgain
        exact holds
      · rw [applied] at failed
        cases failed
  · obtain ⟨_, failed⟩ := apply_of_not_passes blockHash faultFree passes
    rw [applied] at failed
    cases failed

/-- The fault of a transaction that passes every check: the sender's nonce is the greatest,
or a balance overflows. -/
theorem apply_eq_state_error_iff (faultFree : view.FaultFree) {cause : StateError} :
    transaction.apply rules view block blockHash remaining = .error (.state cause) ↔
      Passes rules view block.baseFee remaining transaction ∧
        (transaction.nonce.toNat + 1 = UInt64.size ∧
            cause = .inconsistent transaction.sender "nonce overflow" ∨
          transaction.nonce.toNat + 1 < UInt64.size ∧ Overflows view.supply cause ∧
            transaction.apply rules view block blockHash remaining = .error (.state cause)) := by
  constructor
  · intro failed
    by_cases passes : Passes rules view block.baseFee remaining transaction
    · refine ⟨passes, ?_⟩
      rcases nonce_cases transaction.nonce with greatest | below
      · have failedAgain := apply_of_greatest blockHash passes greatest
        rw [failed] at failedAgain
        cases failedAgain
        exact .inl ⟨greatest, rfl⟩
      · rcases apply_of_below blockHash faultFree passes below with
          ⟨_, applied, _⟩ | ⟨_, failedAgain, full⟩
        · rw [failed] at applied
          cases applied
        · rw [failed] at failedAgain
          cases failedAgain
          exact .inr ⟨below, full, failed⟩
    · obtain ⟨_, refused⟩ := apply_of_not_passes blockHash faultFree passes
      rw [failed] at refused
      cases refused
  · rintro ⟨passes, ⟨greatest, rfl⟩ | ⟨_, _, failed⟩⟩
    · exact apply_of_greatest blockHash passes greatest
    · exact failed

end

end Transaction

end ExecutionLayer
