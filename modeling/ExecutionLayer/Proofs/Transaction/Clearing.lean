import ExecutionLayer.Proofs.Execution.Residents
import ExecutionLayer.Proofs.Transaction.Stages
import ExecutionLayer.Proofs.World.Clearing

/-!
# Clearing

What edits keep holds up to the end of a transaction. There all accounts that it left empty are
removed, and every removed account is removed with its storage.
-/

set_option autoImplicit false

namespace ExecutionLayer.Transaction

open Readings (Lasting)

variable {rules : BlockRules} {view : WorldView} {block : BlockContext}
  {blockHash : UInt64 → Option Hash} {remaining : UInt64} {transaction : Transaction}
  {world : JournaledWorld} {property : Readings → Prop}

/-- The root frame runs for an account that is there. -/
theorem rootMessage_resides {schedule : GasSchedule} {nonce : UInt64} {message : Message}
    {asked : JournaledWorld}
    (ran : transaction.rootMessage schedule nonce world = .ok message asked) :
    message.Resides asked.readings := by
  unfold rootMessage at ran
  cases aim : transaction.recipient with
  | none =>
      rw [aim] at ran
      cases ran
      exact fun kind => nomatch kind
  | some recipient =>
      rw [aim] at ran
      obtain ⟨code, _, answered, ran⟩ := Journaled.bind_eq_ok ran
      obtain ⟨found, read, rfl, same⟩ :=
        Journaled.question_ok (fun account => (account.getD {}).code) answered
      cases ran
      intro _ written
      rw [← same] at read
      exact Readings.has_of_standing (Readings.standing_of_read read) written

theorem execute_lasting {schedule : GasSchedule} {root : Frame} {nonce : UInt64}
    {final : JournaledWorld} (lasts : Lasting property) (holds : property world.readings)
    (executed : transaction.execute schedule block blockHash world = .ok (root, nonce) final) :
    ∃ tipped : JournaledWorld, property tipped.readings ∧
      Journaled.finalize root.selfDestructs tipped = .ok () final := by
  obtain ⟨bought, message, asked, finished, buying, asking, running, settling⟩ :=
    execute_ok executed
  obtain ⟨_, payer, _, _, _, sameBought⟩ := buyGas_eq_ok buying
  obtain ⟨_, _, _, sameAsked⟩ := rootMessage_ok asking
  have holdsAsked : property asked.readings := by
    rw [sameAsked, sameBought]
    exact lasts.write holds transaction.sender payer
  have holdsFinished :=
    process_lasting lasts rfl rfl holdsAsked (rootMessage_resides asking) running
  obtain ⟨refunded, tipped, refunding, tipping, finalizing⟩ := settle_eq_ok settling
  have paid : Readings.Edits ∅ finished.readings tipped.readings :=
    (Journaled.edits_modifyAccount refunding).trans (Journaled.edits_modifyAccount tipping)
  exact ⟨tipped, paid.lasting lasts (by simp) holdsFinished, finalizing⟩

/-- The effects of a transaction are those of a world right after its end. What edits keep holds
right before. -/
theorem apply_lasting {outcome : Outcome} (lasts : Lasting property)
    (holds : property (.ofView view))
    (applied : transaction.apply rules view block blockHash remaining = .ok outcome) :
    ∃ (destroyed : Std.ExtTreeSet Address) (tipped final : JournaledWorld),
      property tipped.readings ∧ Journaled.finalize destroyed tipped = .ok () final ∧
        outcome.effects = final.effects := by
  obtain ⟨checked, root, nonce, final, checking, executed, rfl⟩ := apply_eq_ok applied
  obtain ⟨_, fresh, _⟩ := check_ok checking
  obtain ⟨tipped, holdsTipped, finalizing⟩ := execute_lasting lasts (fresh ▸ holds) executed
  exact ⟨root.selfDestructs, tipped, final, holdsTipped, finalizing, rfl⟩

/-- A transaction writes no account that is empty, and deletes none but with all its slots. -/
theorem apply_clears {outcome : Outcome}
    (applied : transaction.apply rules view block blockHash remaining = .ok outcome) :
    (∀ (address : Address) (account : Account),
      outcome.effects.accounts[address]? = some (some account) →
      ¬(account.nonce = 0 ∧ account.balance = 0 ∧ account.code = Code.empty)) ∧
    ∀ address : Address, outcome.effects.accounts[address]? = some none →
      ∃ delta : StorageDelta, outcome.effects.storage[address]? = some delta ∧
        delta.cleared = true ∧ delta.slots = ∅ := by
  obtain ⟨destroyed, tipped, final, marked, finalizing, same⟩ :=
    apply_lasting Readings.lasting_marked (.ofView view) applied
  obtain ⟨occupied, wiped⟩ := Journaled.finalize_cleared finalizing marked
  rw [same]
  refine ⟨fun address account written isEmpty => ?_, fun address gone => ?_⟩
  · have present := occupied ((final.account?_effects address).symm.trans written)
    obtain ⟨nonce, balance, code⟩ := isEmpty
    simp [Account.isEmpty, nonce, balance, Code.isEmpty_iff.mpr code] at present
  · obtain ⟨cleared, unwritten⟩ := wiped ((final.account?_effects address).symm.trans gone)
    have contained : final.cleared.contains address = true :=
      Std.ExtTreeSet.contains_iff_mem.mpr cleared
    exact ⟨_, JournaledWorld.storage_effects_of_cleared contained unwritten, rfl, rfl⟩

namespace Demolition

/-- A contract with a slot that destroys itself when it is called. -/
def site : World :=
  ((World.insertAccount {} 10 { balance := 1000000 }).insertAccount 11
    { balance := 7, code := .ofBytes [0x60, 0x0A, 0xFF] }).insertStorage 11 1 5

/-- A call of the contract, for nothing. -/
def call : Transaction :=
  { sender := 10, recipient := some 11, gasLimit := 50000 }

def quiet : BlockContext :=
  { coinbase := 12 }

end Demolition

open Demolition in
/-- The contract goes with its slot, and so does the fee recipient, which got nothing. The
caller is there and not empty. -/
theorem demolition_clears :
    ∃ outcome, call.apply ⟨.berlin, 1⟩ site.view quiet (fun _ => none) 50000 = .ok outcome ∧
      (∃ delta : StorageDelta, outcome.effects.accounts[(11 : Address)]? = some none ∧
        outcome.effects.storage[(11 : Address)]? = some delta ∧ delta.cleared = true ∧
        delta.slots = ∅) ∧
      outcome.effects.accounts[(12 : Address)]? = some none ∧
      ∃ account : Account, outcome.effects.accounts[(10 : Address)]? = some (some account) ∧
        ¬(account.nonce = 0 ∧ account.balance = 0 ∧ account.code = Code.empty) := by
  have evaluated : (call.apply ⟨.berlin, 1⟩ site.view quiet (fun _ => none) 50000).toOption.any
      (fun outcome => outcome.effects.accounts[(11 : Address)]? == some none &&
        outcome.effects.accounts[(12 : Address)]? == some none &&
        (outcome.effects.accounts[(10 : Address)]?.bind id).isSome) = true := by
    decide +kernel
  cases applied : call.apply ⟨.berlin, 1⟩ site.view quiet (fun _ => none) 50000 with
  | error failure =>
      rw [applied] at evaluated
      cases evaluated
  | ok outcome =>
      rw [applied] at evaluated
      simp only [Except.toOption, Option.any_some, Bool.and_eq_true, beq_iff_eq] at evaluated
      obtain ⟨⟨gone, tip⟩, caller⟩ := evaluated
      obtain ⟨account, held⟩ := Option.isSome_iff_exists.mp caller
      obtain ⟨_, kept, rfl⟩ := Option.bind_eq_some_iff.mp held
      obtain ⟨occupied, wiped⟩ := apply_clears applied
      obtain ⟨delta, found, cleared, slots⟩ := wiped 11 gone
      exact ⟨outcome, rfl, ⟨delta, gone, found, cleared, slots⟩, tip, account, kept,
        occupied 10 account kept⟩

end ExecutionLayer.Transaction
