import ExecutionLayer.Proofs.Execution.Gas
import ExecutionLayer.Proofs.Transaction.Application
import ExecutionLayer.Proofs.World.Payments

/-!
# Stages of an application

An applied transaction was checked, bought its gas, ran its root frame and was settled.
-/

set_option autoImplicit false

namespace ExecutionLayer.Transaction

open JournaledWorld

def context (block : BlockContext) (blockHash : UInt64 → Option Hash)
    (transaction : Transaction) : Context :=
  { block, transaction := ⟨transaction.sender, transaction.effectiveGasPrice block.baseFee⟩,
    blockHash }

/-- The frame that a transaction runs for its message. -/
def rootFrame (schedule : GasSchedule) (block : BlockContext) (transaction : Transaction)
    (message : Message) : Frame :=
  .ofMessage message (transaction.warmAddresses schedule block.coinbase message.recipient)
    transaction.warmSlots

variable {rules : BlockRules} {view : WorldView} {block : BlockContext}
  {blockHash : UInt64 → Option Hash} {remaining : UInt64} {transaction : Transaction}

theorem check_ok {baseFee : Option Word} {checked : JournaledWorld}
    (ran : transaction.check rules baseFee remaining { base := view } = .ok (.ok ()) checked) :
    Passes rules view baseFee remaining transaction ∧ checked.readings = .ofView view ∧
      Continues { base := view } checked := by
  have passes : Passes rules view baseFee remaining transaction := by
    unfold check at ran
    cases inBlock : transaction.checkInBlock rules baseFee remaining with
    | error reason =>
        rw [inBlock] at ran
        cases ran
    | ok =>
        rw [inBlock] at ran
        obtain ⟨found, asked, answered, ran⟩ := Journaled.bind_eq_ok ran
        obtain ⟨read, _, _⟩ := (Journaled.follows_account transaction.sender).ask_eq_ok answered
        rw [readings_ofView] at read
        exact ⟨inBlock, found, read, (EStateM.Result.ok.inj ran).1⟩
  obtain ⟨world, checked, same, continues⟩ := check_of_passes passes
  rw [ran] at checked
  cases checked
  exact ⟨passes, same, continues⟩

/-- The sender pays for all gas that it may use, and for nothing else. -/
theorem buyGas_eq_ok {world bought : JournaledWorld} {price : Word} {nonce : UInt64}
    (ran : transaction.buyGas price world = .ok nonce bought) :
    ∃ found payer, world.readings.account transaction.sender = .ok found ∧
      nonce = (found.getD {}).nonce ∧
      (found.getD {}).Pays (Word.ofUInt64 transaction.gasLimit * price).toNat payer ∧
      bought.readings = world.readings.writeAccount transaction.sender (some payer) := by
  obtain ⟨_, asked, asking, ran⟩ := Journaled.bind_eq_ok ran
  obtain ⟨found, read, rfl, sameAsked⟩ :=
    Journaled.question_ok (fun account => (account.getD {}).nonce) asking
  obtain ⟨_, taken, taking, ran⟩ := Journaled.bind_eq_ok ran
  obtain ⟨held, less, readHeld, debited, sameTaken⟩ := Journaled.modifyAccount_ok taking
  obtain ⟨_, counted, counting, ran⟩ := Journaled.bind_eq_ok ran
  obtain ⟨left, payer, readLeft, raised, sameCounted⟩ := Journaled.modifyAccount_ok counting
  cases ran
  rw [sameAsked, read] at readHeld
  cases readHeld
  rw [sameTaken, sameAsked] at readLeft
  cases readLeft.symm.trans (if_pos rfl)
  obtain ⟨sameNonce, sameCode, paid⟩ := Account.debit_eq_ok debited
  obtain ⟨nonce, code, balance⟩ := Account.countUp_eq_ok raised
  refine ⟨found, payer, read, rfl, ⟨?_, ?_, ?_⟩, ?_⟩
  · rw [nonce, Option.getD_some, sameNonce]
  · rw [balance]
    exact paid
  · exact code.trans sameCode
  · rw [sameCounted, sameTaken, sameAsked, Readings.writeAccount_writeAccount]

theorem execute_ok {schedule : GasSchedule} {world final : JournaledWorld} {root : Frame}
    {nonce : UInt64}
    (executed : transaction.execute schedule block blockHash world = .ok (root, nonce) final) :
    ∃ bought message asked finished,
      transaction.buyGas (transaction.effectiveGasPrice block.baseFee) world = .ok nonce bought ∧
      transaction.rootMessage schedule nonce bought = .ok message asked ∧
      process schedule (transaction.context block blockHash)
          (transaction.rootFrame schedule block message) asked = .ok (root, finished) ∧
      transaction.settle block (transaction.effectiveGasPrice block.baseFee)
          (transaction.gasUsed schedule root) root finished = .ok () final := by
  obtain ⟨_, bought, buying, executed⟩ := Journaled.bind_eq_ok executed
  obtain ⟨message, asked, asking, executed⟩ := Journaled.bind_eq_ok executed
  obtain ⟨_, finished, running, executed⟩ := Journaled.bind_eq_ok executed
  obtain ⟨_, _, settling, executed⟩ := Journaled.bind_eq_ok executed
  cases executed
  refine ⟨bought, message, asked, finished, buying, asking, ?_, settling⟩
  unfold runRoot at running
  split at running
  · rename_i processed
    cases running
    exact processed
  · cases running

/-- The root frame is left with no more gas than its message gave. -/
theorem rootFrame_gas_le {schedule : GasSchedule} {context : Context} {message : Message}
    {world after : JournaledWorld} {root : Frame}
    (ran : process schedule context (transaction.rootFrame schedule block message) world =
      .ok (root, after)) : root.gas ≤ message.gas := by
  obtain ⟨_, reached, ended⟩ := Configuration.process_eq_ok ran
  have left := reached.finished_gas_le (Configuration.handedOver_of_root _ world) ended
  rw [Configuration.totalGas_of_root rfl] at left
  exact UInt64.le_iff_toNat_le.mpr left

theorem settle_eq_ok {price : Word} {used : UInt64} {root : Frame}
    {world final : JournaledWorld}
    (ran : transaction.settle block price used root world = .ok () final) :
    ∃ refunded tipped,
      Journaled.addBalance transaction.sender
        (Word.ofUInt64 (transaction.gasLimit - used) * price) world = .ok () refunded ∧
      Journaled.addBalance block.coinbase
        (Word.ofUInt64 used * priorityFee block.baseFee price) refunded = .ok () tipped ∧
      Journaled.finalize root.selfDestructs tipped = .ok () final := by
  obtain ⟨_, refunded, refunding, ran⟩ := Journaled.bind_eq_ok ran
  obtain ⟨_, tipped, tipping, ran⟩ := Journaled.bind_eq_ok ran
  exact ⟨refunded, tipped, refunding, tipping, ran⟩

theorem apply_eq_ok {outcome : Outcome}
    (applied : transaction.apply rules view block blockHash remaining = .ok outcome) :
    ∃ checked root nonce final,
      transaction.check rules block.baseFee remaining { base := view } = .ok (.ok ()) checked ∧
      transaction.execute rules.schedule block blockHash checked = .ok (root, nonce) final ∧
      outcome =
        { effects := final.effects
          gasUsed := transaction.gasUsed rules.schedule root
          success := root.status = .completedSuccess
          logs := root.logs
          contractAddress := transaction.contractAddress nonce } := by
  unfold apply at applied
  split at applied
  · cases applied
  · cases applied
  · rename_i checked checking
    split at applied
    · cases applied
    · rename_i root nonce final executed
      cases applied
      exact ⟨checked, root, nonce, final, checking, executed, rfl⟩

end ExecutionLayer.Transaction
