import ExecutionLayer.Proofs.Execution.Failures
import ExecutionLayer.Proofs.Transaction.Amounts
import ExecutionLayer.Proofs.World.Finalization

/-!
# Failed transactions

When the root frame fails, its sender pays for the gas that was used, the fee recipient gets
the tip, and nothing else of the transaction is left.
-/

set_option autoImplicit false

namespace ExecutionLayer

open JournaledWorld

/-- A root frame that fails leaves no trace. -/
theorem Configuration.process_failed {schedule : GasSchedule} {context : Context}
    {root finished : Frame} {world after : JournaledWorld}
    (status : root.status = .notStarted)
    (ran : process schedule context root world = .ok (finished, after))
    (failed : finished.status ≠ .completedSuccess) :
    after.readings = world.readings ∧ finished.logs = [] ∧ finished.selfDestructs = ∅ := by
  obtain ⟨last, reached, ended⟩ := process_eq_ok ran
  obtain ⟨rfl, rfl, parents, completed⟩ := finished_of_advance ended
  have orderly : Orderly schedule ⟨root, [], world⟩ := orderly_of_notStarted status world
  have completedFailed : last.current.status = .completedFailed := by
    cases ended : last.current.status <;> simp_all [Frame.Status.isCompleted]
  obtain ⟨logs, selfDestructs, _⟩ :=
    (reached.orderly orderly).failed (by rw [completedFailed]; rfl)
  have starts : Starts schedule context ⟨root, [], world⟩ ⟨root, [], world⟩ last :=
    ⟨.inl rfl, by rw [parents], reached⟩
  obtain ⟨alike, _⟩ := starts.alike orderly status completedFailed
  exact ⟨alike.readings, logs, selfDestructs⟩

namespace Readings

/-- The readings of a pre-state after its sender was charged and its fee recipient paid. -/
def feesPaid (view : WorldView) (sender coinbase : Address) (payer payee : Account) : Readings :=
  ((ofView view).writeAccount sender (some payer)).writeAccount coinbase (some payee)

variable {world : World} {view : WorldView} {sender coinbase : Address} {payer payee : Account}

theorem coherent_feesPaid (world : World) (sender coinbase : Address) (payer payee : Account) :
    (feesPaid world.view sender coinbase payer payee).Coherent :=
  ((Coherent.ofView world.view).writeAccount _ _).writeAccount _ _

theorem account_feesPaid (address : Address) :
    (feesPaid world.view sender coinbase payer payee).account address =
      if address = coinbase then .ok (some payee)
      else if address = sender then .ok (some payer)
      else .ok (world.account? address) := by
  simp only [feesPaid, writeAccount, ofView, World.view, eq_comm]

theorem slot_feesPaid (address : Address) (slot : Word) :
    (feesPaid world.view sender coinbase payer payee).slot address slot =
      .ok (world.slot address slot) := rfl

theorem mem_touched_feesPaid (address : Address) :
    address ∈ (feesPaid view sender coinbase payer payee).touched ↔
      address = coinbase ∨ address = sender := by
  simp [feesPaid, writeAccount, ofView, @eq_comm Address _ address]

/-- Of the two accounts only the fee recipient's can be empty. -/
theorem emptied_feesPaid (counted : 0 < payer.nonce.toNat) (address : Address) :
    address ∈ (feesPaid world.view sender coinbase payer payee).touched.toList ∧
        (feesPaid world.view sender coinbase payer payee).EmptyAt address ↔
      address = coinbase ∧ payee.isEmpty = true := by
  rw [Std.ExtTreeSet.mem_toList, mem_touched_feesPaid]
  constructor
  · rintro ⟨touched, account, isAccount, isEmpty⟩
    rw [account_feesPaid] at isAccount
    by_cases payeeHere : address = coinbase
    · rw [if_pos payeeHere] at isAccount
      cases isAccount
      exact ⟨payeeHere, isEmpty⟩
    · rw [if_neg payeeHere, if_pos (touched.resolve_left payeeHere)] at isAccount
      cases isAccount
      cases isEmpty.symm.trans (Account.isEmpty_of_nonce counted)
  · rintro ⟨rfl, isEmpty⟩
    exact ⟨.inl rfl, payee, by rw [account_feesPaid, if_pos rfl], isEmpty⟩

end Readings

/-- What fees leave in the world once the touched accounts that are empty are deleted. -/
theorem World.apply_feesPaid {world : World} {sender coinbase : Address} {payer payee : Account}
    {final : JournaledWorld} (counted : 0 < payer.nonce.toNat)
    (swept : Readings.Swept (Readings.feesPaid world.view sender coinbase payer payee).touched.toList
      (Readings.feesPaid world.view sender coinbase payer payee) final.readings)
    (based : final.base = world.view) :
    (∀ address, (world.apply final.effects).account? address =
      if address = coinbase then (if payee.isEmpty then none else some payee)
      else if address = sender then some payer else world.account? address) ∧
    ∀ address slot, (world.apply final.effects).slot address slot =
      if address = coinbase ∧ payee.isEmpty then 0 else world.slot address slot := by
  have coherent := Readings.coherent_feesPaid world sender coinbase payer payee
  obtain ⟨accounts, slots⟩ := World.view_apply (swept.coherent coherent) based
  have emptied := @Readings.emptied_feesPaid world sender coinbase payer payee counted
  constructor
  · intro address
    apply Except.ok.inj
    refine (accounts address).trans ?_
    by_cases removed : address = coinbase ∧ payee.isEmpty = true
    · obtain ⟨touched, isEmpty⟩ := (emptied address).mpr removed
      rw [(swept.gone address touched isEmpty).1, if_pos removed.1, if_pos removed.2]
    · rw [(swept.kept address (mt (emptied address).mp removed)).1, Readings.account_feesPaid]
      by_cases payeeHere : address = coinbase
      · have stays := mt (And.intro payeeHere) removed
        simp [payeeHere, stays]
      · rw [if_neg payeeHere, if_neg payeeHere]
        split <;> rfl
  · intro address slot
    apply Except.ok.inj
    refine (slots address slot).trans ?_
    by_cases removed : address = coinbase ∧ payee.isEmpty = true
    · obtain ⟨touched, isEmpty⟩ := (emptied address).mpr removed
      rw [(swept.gone address touched isEmpty).2, if_pos removed]
    · rw [(swept.kept address (mt (emptied address).mp removed)).2, Readings.slot_feesPaid,
        if_neg removed]

namespace Transaction

variable {rules : BlockRules} {block : BlockContext} {blockHash : UInt64 → Option Hash}
  {remaining : UInt64} {transaction : Transaction}

/-- The readings once a failed transaction paid its fees. -/
theorem failed_readings {view : WorldView} {checked final : JournaledWorld} {root : Frame}
    {nonce : UInt64} (passes : Passes rules view block.baseFee remaining transaction)
    (fresh : checked.readings = .ofView view)
    (executed : transaction.execute rules.schedule block blockHash checked =
      .ok (root, nonce) final)
    (failed : root.status ≠ .completedSuccess) :
    ∃ found other payer payee,
      view.account transaction.sender = .ok found ∧
      (found.getD {}).Pays ((transaction.gasUsed rules.schedule root).toNat *
        (transaction.effectiveGasPrice block.baseFee).toNat) payer ∧
      ((Readings.ofView view).writeAccount transaction.sender (some payer)).account
        block.coinbase = .ok other ∧
      (other.getD {}).Earns ((transaction.gasUsed rules.schedule root).toNat *
        (priorityFee block.baseFee (transaction.effectiveGasPrice block.baseFee)).toNat) payee ∧
      Readings.Swept
        (Readings.feesPaid view transaction.sender block.coinbase payer payee).touched.toList
        (Readings.feesPaid view transaction.sender block.coinbase payer payee) final.readings ∧
      final.base = view ∧ root.logs = [] := by
  obtain ⟨amounts, _⟩ := execute_bounds passes executed
  obtain ⟨bought, message, asked, finished, buying, asking, running, settling⟩ :=
    execute_ok executed
  obtain ⟨found, started, read, _, pays, sameBought⟩ := buyGas_eq_ok buying
  obtain ⟨_, _, _, sameAsked⟩ := rootMessage_ok asking
  obtain ⟨sameFinished, logs, nothing⟩ := Configuration.process_failed rfl running failed
  obtain ⟨refunded, tipped, refunding, tipping, finalizing⟩ := settle_eq_ok settling
  obtain ⟨again, payer, readAgain, refund, sameRefunded⟩ := Journaled.addBalance_eq_ok refunding
  obtain ⟨other, payee, readOther, tip, sameTipped⟩ := Journaled.addBalance_eq_ok tipping
  rw [sameFinished, sameAsked, sameBought] at readAgain sameRefunded
  rw [Readings.writeAccount_writeAccount, fresh] at sameRefunded
  cases readAgain.symm.trans (if_pos rfl)
  rw [fresh] at read
  rw [sameRefunded] at readOther sameTipped
  rw [amounts.purchase] at pays
  rw [amounts.payback] at refund
  rw [amounts.fee] at tip
  obtain ⟨swept, continues⟩ := Journaled.finalize_ok finalizing
  rw [nothing] at swept
  change Readings.Swept tipped.readings.touched.toList tipped.readings final.readings at swept
  rw [sameTipped] at swept
  refine ⟨found, other, payer, payee, read, ?_, readOther, tip, swept, ?_, logs⟩
  · rw [← amounts.unused, Nat.add_mul, Nat.add_comm] at pays
    exact pays.earns refund
  · rw [continues.base_eq, ← readings_base, sameTipped]
    rfl

/-- After a failed transaction its sender's nonce is counted up and the gas that was used is
paid for, the fee recipient has the tip and is gone if that leaves it empty, and every other
account and slot is as it was. -/
theorem failed_pays {world : World} {outcome : Outcome}
    (applied : transaction.apply rules world.view block blockHash remaining = .ok outcome)
    (failed : outcome.success = false) :
    outcome.logs = [] ∧
      ∃ payer payee : Account,
        ((world.account? transaction.sender).getD {}).Pays
          (outcome.gasUsed.toNat * (transaction.effectiveGasPrice block.baseFee).toNat) payer ∧
        (if transaction.sender = block.coinbase then payer
          else (world.account? block.coinbase).getD {}).Earns
          (outcome.gasUsed.toNat *
            (priorityFee block.baseFee (transaction.effectiveGasPrice block.baseFee)).toNat)
          payee ∧
        (∀ address, (world.apply outcome.effects).account? address =
          if address = block.coinbase then (if payee.isEmpty then none else some payee)
          else if address = transaction.sender then some payer else world.account? address) ∧
        ∀ address slot, (world.apply outcome.effects).slot address slot =
          if address = block.coinbase ∧ payee.isEmpty then 0 else world.slot address slot := by
  obtain ⟨checked, root, nonce, final, checking, executed, rfl⟩ := apply_eq_ok applied
  obtain ⟨passes, fresh, _⟩ := check_ok checking
  dsimp only at failed ⊢
  obtain ⟨found, other, payer, payee, read, pays, readOther, earns, swept, based, logs⟩ :=
    failed_readings passes fresh executed (of_decide_eq_false failed)
  cases read
  -- The sender may be the fee recipient, and is then charged before it is paid.
  have before : other.getD {} = if transaction.sender = block.coinbase then payer
      else (world.account? block.coinbase).getD {} := by
    simp only [Readings.writeAccount, Readings.ofView, World.view] at readOther
    split at readOther <;> cases readOther <;> rename_i here <;> simp [here]
  rw [before] at earns
  have counted : 0 < payer.nonce.toNat := by
    rw [pays.nonce]
    omega
  exact ⟨logs, payer, payee, pays, earns, World.apply_feesPaid counted swept based⟩

namespace Refusal

/-- A contract that writes its first slot and then reverts. -/
def world : World :=
  (World.insertAccount {} 10 { balance := 1000000 }).insertAccount 11
    { balance := 100, code := .ofBytes [0x60, 1, 0x60, 0, 0x55, 0x60, 0, 0x60, 0, 0xFD] }

def payment : Transaction :=
  { sender := 10, recipient := some 11, value := 5, maxFee := 9, maxPriorityFee := 1,
    gasLimit := 50000 }

def feeBlock : BlockContext :=
  { baseFee := some 7, coinbase := 12 }

end Refusal

open Refusal in
/-- The payment is refused, and its gas is paid for at a price of eight. -/
theorem refusal_pays :
    ∃ outcome payer payee, payment.apply ⟨.london, 1⟩ world.view feeBlock (fun _ => none) 50000 =
        .ok outcome ∧ outcome.success = false ∧ outcome.logs = [] ∧
      (world.apply outcome.effects).account? 10 = some payer ∧ payer.nonce.toNat = 1 ∧
      payer.balance.toNat + outcome.gasUsed.toNat * 8 = 1000000 ∧
      (world.apply outcome.effects).account? 12 =
        (if payee.isEmpty then none else some payee) ∧
      payee.balance.toNat = outcome.gasUsed.toNat * 1 ∧
      (world.apply outcome.effects).account? 11 = world.account? 11 ∧
      (world.apply outcome.effects).slot 11 0 = world.slot 11 0 := by
  have refused : (payment.apply ⟨.london, 1⟩ world.view feeBlock (fun _ => none)
      50000).toOption.any (fun outcome => !outcome.success) = true := by
    decide +kernel
  have payerBefore : ((world.account? payment.sender).getD {}).nonce.toNat = 0 ∧
      ((world.account? payment.sender).getD {}).balance.toNat = 1000000 ∧
      (payment.effectiveGasPrice feeBlock.baseFee).toNat = 8 := by
    decide +kernel
  have payeeBefore : ((world.account? feeBlock.coinbase).getD {}).balance.toNat = 0 ∧
      (priorityFee feeBlock.baseFee (payment.effectiveGasPrice feeBlock.baseFee)).toNat = 1 := by
    decide +kernel
  cases applied : payment.apply ⟨.london, 1⟩ world.view feeBlock (fun _ => none) 50000 with
  | error failure =>
      rw [applied] at refused
      cases refused
  | ok outcome =>
      rw [applied] at refused
      have failed : outcome.success = false := Bool.not_inj refused
      obtain ⟨logs, payer, payee, pays, earns, accounts, slots⟩ := failed_pays applied failed
      refine ⟨outcome, payer, payee, rfl, failed, logs, accounts 10, ?_, ?_, accounts 12, ?_,
        accounts 11, slots 11 0⟩
      · rw [pays.nonce, payerBefore.1]
      · rw [← payerBefore.2.1, ← pays.balance, payerBefore.2.2]
      · rw [if_neg (by decide)] at earns
        rw [earns.balance, payeeBefore.1, payeeBefore.2, Nat.zero_add]

end Transaction

end ExecutionLayer
