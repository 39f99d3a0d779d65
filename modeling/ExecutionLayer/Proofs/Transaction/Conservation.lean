import ExecutionLayer.Proofs.Transaction.Application

/-!
# Conservation of ether

A transaction moves value between accounts. What leaves them is the base fee of the gas that
was used, and what destroyed accounts hold when they are deleted.
-/

set_option autoImplicit false

namespace ExecutionLayer

open JournaledWorld

theorem Journaled.addBalance_ok {address : Address} {amount : Word} {world after : JournaledWorld}
    (lawful : world.readings.Lawful)
    (ran : Journaled.addBalance address amount world = .ok () after) :
    Continues world after ∧ after.readings.Lawful ∧
      after.readings.supply = world.readings.supply + amount.toNat := by
  obtain ⟨found, read⟩ := lawful.exists_account address
  rcases addBalance_cases amount read with
    ⟨_, account, succeeded, same, _, continues, supply⟩ | ⟨_, failed, _⟩
  · rw [ran] at succeeded
    cases succeeded
    refine ⟨continues, ?_, supply⟩
    rw [same]
    exact lawful.writeAccount address (some account)
  · rw [ran] at failed
    cases failed

namespace Transaction

variable {rules : BlockRules} {block : BlockContext} {blockHash : UInt64 → Option Hash}
  {remaining : UInt64} {transaction : Transaction}

/-- The execution of a transaction up to the deletion of accounts: the root frame is
completed, and all gas is paid for. -/
def runAndPay (schedule : GasSchedule) (block : BlockContext)
    (blockHash : UInt64 → Option Hash) (transaction : Transaction) :
    Journaled (Frame × UInt64) := do
  let price := transaction.effectiveGasPrice block.baseFee
  let nonce ← transaction.buyGas price
  let message ← transaction.rootMessage schedule nonce
  let root := Frame.ofMessage message
    (transaction.warmAddresses schedule block.coinbase message.recipient) transaction.warmSlots
  let context : Context :=
    { block, transaction := ⟨transaction.sender, price⟩, blockHash }
  let root ← runRoot schedule context root
  let used := transaction.gasUsed schedule root
  Journaled.addBalance transaction.sender (Word.ofUInt64 (transaction.gasLimit - used) * price)
  Journaled.addBalance block.coinbase (Word.ofUInt64 used * priorityFee block.baseFee price)
  return (root, nonce)

theorem execute_eq (schedule : GasSchedule) (block : BlockContext)
    (blockHash : UInt64 → Option Hash) (transaction : Transaction) :
    transaction.execute schedule block blockHash = do
      let finished ← transaction.runAndPay schedule block blockHash
      Journaled.finalize finished.1.selfDestructs
      return finished := by
  simp only [execute, settle, runAndPay, bind_assoc, pure_bind]

theorem buyGas_ok {world after : JournaledWorld} {found : Option Account} {price : Word}
    {nonce : UInt64} (read : world.readings.account transaction.sender = .ok found)
    (covered : Word.ofUInt64 transaction.gasLimit * price ≤ (found.getD {}).balance)
    (ran : transaction.buyGas price world = .ok nonce after) :
    Bought price transaction found world after := by
  by_cases below : (found.getD {}).nonce.toNat + 1 < UInt64.size
  · obtain ⟨_, succeeded, bought⟩ := buyGas_of_below read covered below
    rw [ran] at succeeded
    cases succeeded
    exact bought
  · obtain ⟨_, failed⟩ := buyGas_greatest read covered below
    rw [ran] at failed
    cases failed

/-- Up to the deletions only the base fee is lost. -/
theorem runAndPay_ok {world paid : JournaledWorld} {found : Option Account} {root : Frame}
    {nonce : UInt64} (lawful : world.readings.Lawful)
    (read : world.readings.account transaction.sender = .ok found)
    (inBlock : transaction.checkInBlock rules block.baseFee remaining = .ok ())
    (valid : transaction.checkSender (found.getD {}) = .ok ())
    (ran : transaction.runAndPay rules.schedule block blockHash world = .ok (root, nonce) paid) :
    Continues world paid ∧ paid.readings.Lawful ∧
      paid.readings.supply +
          (transaction.gasUsed rules.schedule root).toNat * (block.baseFee.getD 0).toNat =
        world.readings.supply := by
  have capped := (admitted_of_checkInBlock inBlock).capped
  obtain ⟨_, small, _⟩ := checkSender_ok valid
  obtain ⟨_, started, buying, ran⟩ := Journaled.bind_eq_ok ran
  have bought := buyGas_ok read (purchase_le_of_valid block.baseFee valid) buying
  have lawfulStarted := bought.lawful lawful
  have spent := bought.supply
  obtain ⟨message, asked, messageRan, ran⟩ := Journaled.bind_eq_ok ran
  obtain ⟨funded, limit⟩ := rootMessage_funded inBlock valid bought messageRan
  have asking := (safeAt_rootMessage _ _ _ started).conserves messageRan
  have lawfulAsked := asking.lawful lawfulStarted
  have kept := asking.supply lawfulStarted
  obtain ⟨finished, completed, rootRan, ran⟩ := Journaled.bind_eq_ok ran
  have ends (context : Context) (warmAddresses : Std.ExtTreeSet Address)
      (warmSlots : Std.ExtTreeSet SlotId) :
      Configuration.Ends asked message.gas.toNat (process rules.schedule context
        (Frame.ofMessage message warmAddresses warmSlots) asked) :=
    process_ends rules.fork context rfl rfl funded
  have left := runRoot_ok (ends _ _ _) rootRan
  have running := (safeAt_runRoot (ends _ _ _)).conserves rootRan
  have moved := running.supply lawfulAsked
  obtain ⟨_, refunded, refunding, ran⟩ := Journaled.bind_eq_ok ran
  obtain ⟨_, tipped, tipping, ran⟩ := Journaled.bind_eq_ok ran
  obtain ⟨refundedOn, lawfulRefunded, refund⟩ :=
    Journaled.addBalance_ok (running.lawful lawfulAsked) refunding
  obtain ⟨tippedOn, lawfulTipped, tip⟩ := Journaled.addBalance_ok lawfulRefunded tipping
  cases ran
  have payback := payback_eq capped small (gasUsed_le rules.schedule (Nat.le_trans left limit))
  unfold purchase at payback
  refine ⟨?_, lawfulTipped, by omega⟩
  exact bought.continues.trans (asking.continues.trans
    (running.continues.trans (refundedOn.trans tippedOn)))

/-- The balances before the transaction are found again: in the accounts after it, in the base
fee for the gas that was used, and in what the destroyed accounts held when they were deleted. -/
theorem apply_conserves {world : World} {outcome : Outcome}
    (applied : transaction.apply rules world.view block blockHash remaining = .ok outcome) :
    ∃ checked root nonce paid final,
      transaction.check rules block.baseFee remaining { base := world.view } =
        .ok (.ok ()) checked ∧
      transaction.runAndPay rules.schedule block blockHash checked = .ok (root, nonce) paid ∧
      Journaled.finalize root.selfDestructs paid = .ok () final ∧
      transaction.execute rules.schedule block blockHash checked = .ok (root, nonce) final ∧
      outcome.effects = final.effects ∧
      outcome.gasUsed = transaction.gasUsed rules.schedule root ∧
      (world.apply outcome.effects).view.supply +
          outcome.gasUsed.toNat * (block.baseFee.getD 0).toNat +
          paid.readings.holdings root.selfDestructs.toList =
        world.view.supply := by
  by_cases passes : Passes rules world.view block.baseFee remaining transaction
  case neg =>
    obtain ⟨_, failed⟩ := apply_of_not_passes blockHash world.faultFree_view passes
    rw [applied] at failed
    cases failed
  obtain ⟨checked, checking, same, continues⟩ := check_of_passes passes
  obtain ⟨inBlock, found, read, valid⟩ := passes
  have lawful : checked.readings.Lawful := by
    rw [same]
    exact .ofView world.faultFree_view
  have before : checked.readings.supply = world.view.supply := by
    rw [same]
    exact Readings.supply_ofView world.view
  have readChecked : checked.readings.account transaction.sender = .ok found := by
    rw [same]
    exact read
  unfold apply at applied
  rw [checking] at applied
  dsimp only at applied
  cases executed : transaction.execute rules.schedule block blockHash checked with
  | error error after =>
      rw [executed] at applied
      cases applied
  | ok finished final =>
      rw [executed] at applied
      cases applied
      have parts := executed
      rw [execute_eq] at parts
      obtain ⟨⟨root, nonce⟩, paid, ran, parts⟩ := Journaled.bind_eq_ok parts
      obtain ⟨onward, lawfulPaid, fees⟩ := runAndPay_ok lawful readChecked inBlock valid ran
      obtain ⟨_, deleted, finalizing, parts⟩ := Journaled.bind_eq_ok parts
      obtain ⟨_, finalized, later, lawfulFinal, taken⟩ :=
        Journaled.run_finalize root.selfDestructs lawfulPaid
      rw [finalizing] at finalized
      cases finalized
      cases parts
      have based : final.base = world.view :=
        (continues.trans (onward.trans later)).base_eq
      refine ⟨checked, root, nonce, paid, final, checking, ran, finalizing, executed, rfl, rfl, ?_⟩
      rw [World.supply_apply_effects lawfulFinal based]
      dsimp only
      omega

namespace Destruction

/-- A contract that destroys itself in its own favour. -/
def world : World :=
  (World.insertAccount {} 10 { balance := 1000000 }).insertAccount 11
    { balance := 100, code := .ofBytes [0x30, 0xFF] }

def payment : Transaction :=
  { sender := 10, recipient := some 11, value := 5, maxFee := 9, maxPriorityFee := 1,
    gasLimit := 50000 }

def feeBlock : BlockContext :=
  { baseFee := some 7, coinbase := 12 }

end Destruction

open Destruction in
/-- The contract is deleted with what it had and what it was sent. -/
theorem destruction_conserves :
    ∃ outcome, payment.apply ⟨.london, 1⟩ world.view feeBlock (fun _ => none) 50000 =
        .ok outcome ∧
      (world.apply outcome.effects).view.supply + outcome.gasUsed.toNat * 7 + 105 =
        world.view.supply := by
  have evaluated :
      (match payment.check ⟨.london, 1⟩ feeBlock.baseFee 50000 { base := world.view } with
        | .ok _ checked =>
            match payment.runAndPay (BlockRules.schedule ⟨.london, 1⟩) feeBlock (fun _ => none)
                checked with
            | .ok (root, _) paid => paid.readings.holdings root.selfDestructs.toList == 105
            | .error _ _ => false
        | .error _ _ => false) = true := by
    decide +kernel
  have accepted : (payment.apply ⟨.london, 1⟩ world.view feeBlock (fun _ => none)
      50000).toOption.isSome = true := by
    decide +kernel
  cases applied : payment.apply ⟨.london, 1⟩ world.view feeBlock (fun _ => none) 50000 with
  | error failure =>
      rw [applied] at accepted
      cases accepted
  | ok outcome =>
      obtain ⟨checked, root, nonce, paid, final, checking, ran, -, -, -, -, conserved⟩ :=
        apply_conserves applied
      rw [checking] at evaluated
      dsimp only at evaluated
      rw [ran] at evaluated
      rw [beq_iff_eq.mp evaluated] at conserved
      exact ⟨outcome, rfl, conserved⟩

end Transaction

end ExecutionLayer
