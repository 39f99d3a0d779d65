import ExecutionLayer.Proofs.Execution.Bystanders
import ExecutionLayer.Proofs.Transaction.Stages
import ExecutionLayer.Proofs.World.Finalization

/-!
# Nonces of accounts without code

A transaction counts its sender's nonce up by one, whatever it runs. The sender is there after
it, and so is every other account without code whose nonce was counted before.
-/

set_option autoImplicit false

namespace ExecutionLayer.Transaction

open JournaledWorld
open Readings (Alters)

variable {rules : BlockRules} {view : WorldView} {block : BlockContext}
  {blockHash : UInt64 → Option Hash} {remaining : UInt64} {transaction : Transaction}
  {world : JournaledWorld} {address : Address} {count : UInt64}

/-- By how much the transaction counts up the nonce of an account without code. -/
def raise (transaction : Transaction) (address : Address) : Nat :=
  if address = transaction.sender then 1 else 0

theorem buyGas_shows {price : Word} {nonce : UInt64} {bought : JournaledWorld}
    (ran : transaction.buyGas price world = .ok nonce bought)
    (shows : world.readings.Shows view address count)
    (stays : address = transaction.sender ∨ count ≠ 0) :
    ∃ next, next ≠ 0 ∧ next.toNat = count.toNat + transaction.raise address ∧
      bought.readings.Shows view address next := by
  obtain ⟨found, payer, read, _, pays, same⟩ := buyGas_eq_ok ran
  rw [same]
  have writes := Alters.writeAccount world.readings transaction.sender payer
  by_cases own : address = transaction.sender
  · subst own
    obtain ⟨rfl, codeless⟩ := shows.of_read read
    refine ⟨payer.nonce, ?_, ?_, writes.coherent shows.coherent, shows.based, ?_⟩
    · intro none
      have counted := pays.nonce
      rw [none] at counted
      cases counted
    · rw [pays.nonce, raise, if_pos rfl]
    · rw [Readings.standing_writeAccount, if_pos rfl, pays.code, codeless]
  · refine ⟨count, stays.resolve_left own, ?_, shows.alters writes own⟩
    rw [raise, if_neg own, Nat.add_zero]

/-- A call of the account finds no code to run. -/
theorem rootMessage_spares {schedule : GasSchedule} {nonce : UInt64} {message : Message}
    {asked : JournaledWorld} (ran : transaction.rootMessage schedule nonce world = .ok message asked)
    (shows : world.readings.Shows view address count) : message.Spares address := by
  unfold rootMessage at ran
  cases aim : transaction.recipient with
  | none =>
      rw [aim] at ran
      cases ran
      exact fun _ kind => nomatch kind
  | some recipient =>
      rw [aim] at ran
      obtain ⟨code, _, answered, ran⟩ := Journaled.bind_eq_ok ran
      obtain ⟨found, read, rfl, _⟩ :=
        Journaled.question_ok (fun account => (account.getD {}).code) answered
      cases ran
      rintro rfl _
      exact (shows.of_read read).2

theorem settle_shows {price : Word} {used : UInt64} {root : Frame} {final : JournaledWorld}
    (ran : transaction.settle block price used root world = .ok () final)
    (shows : world.readings.Shows view address count) (counted : count ≠ 0)
    (spared : address ∉ root.selfDestructs) : final.readings.Shows view address count := by
  obtain ⟨refunded, tipped, refunding, tipping, finalizing⟩ := settle_eq_ok ran
  have paid := (Journaled.alters_addBalance refunding).trans (Journaled.alters_addBalance tipping)
  have shown := shows.alters paid (Set.notMem_empty address)
  obtain ⟨account, read, nonce⟩ := shown.exists_account counted
  have isEmpty : account.isEmpty = false := by
    simp [Account.isEmpty, nonce, counted]
  have kept := Journaled.finalize_account finalizing spared read isEmpty
  have base : final.readings.base = tipped.readings.base :=
    (Journaled.finalize_ok finalizing).2.base_eq
  refine ⟨Journaled.finalize_coherent finalizing shown.coherent, base.trans shown.based, ?_⟩
  rw [Readings.standing_of_read kept, ← Readings.standing_of_read read]
  exact shown.stands

theorem execute_shows {schedule : GasSchedule} {root : Frame} {nonce : UInt64}
    {final : JournaledWorld}
    (executed : transaction.execute schedule block blockHash world = .ok (root, nonce) final)
    (shows : world.readings.Shows view address count)
    (stays : address = transaction.sender ∨ count ≠ 0) :
    ∃ next, next ≠ 0 ∧ next.toNat = count.toNat + transaction.raise address ∧
      final.readings.Shows view address next := by
  obtain ⟨bought, message, asked, finished, buying, asking, running, settling⟩ :=
    execute_ok executed
  obtain ⟨next, counted, raised, shownBought⟩ := buyGas_shows buying shows stays
  obtain ⟨_, _, _, same⟩ := rootMessage_ok asking
  have shownAsked : asked.readings.Shows view address next := same ▸ shownBought
  obtain ⟨shown, spared⟩ := process_standsBy rfl counted shownAsked
    (Frame.spares_ofMessage address message _ _) (rootMessage_spares asking shownBought) running
  exact ⟨next, counted, raised, settle_shows settling shown counted spared⟩

/-- The sender had the nonce of the transaction and no code. It and all other accounts without
code that had a nonce before are there after it. -/
theorem apply_shows {outcome : Outcome}
    (applied : transaction.apply rules view block blockHash remaining = .ok outcome) :
    ∃ final : JournaledWorld, outcome.effects = final.effects ∧
      (Readings.ofView view).standing transaction.sender = .ok (transaction.nonce, Code.empty) ∧
      ∀ address count, (Readings.ofView view).standing address = .ok (count, Code.empty) →
        address = transaction.sender ∨ count ≠ 0 →
        ∃ next, next ≠ 0 ∧ next.toNat = count.toNat + transaction.raise address ∧
          final.readings.Shows view address next := by
  obtain ⟨checked, root, nonce, final, checking, executed, rfl⟩ := apply_eq_ok applied
  obtain ⟨⟨_, found, read, bySender⟩, fresh, _⟩ := check_ok checking
  refine ⟨final, rfl, ?_, fun address count stood stays => ?_⟩
  · obtain ⟨sameNonce, _, _, codeless⟩ := checkSender_ok bySender
    have readFresh : (Readings.ofView view).account transaction.sender = .ok found := read
    rw [Readings.standing_of_read readFresh, sameNonce, Code.isEmpty_iff.mp codeless]
  · have shows : checked.readings.Shows view address count := by
      rw [fresh]
      exact ⟨.ofView view, rfl, stood⟩
    exact execute_shows executed shows stays

end ExecutionLayer.Transaction
