import ExecutionLayer.Proofs.World.Conservation

/-!
# Payments

What credits, debits and counts make of an account, in numbers.
-/

set_option autoImplicit false

namespace ExecutionLayer

namespace Account

variable {address : Address} {amount : Word} {account changed : Account}

theorem credit_eq_ok (credited : credit address amount account = .ok changed) :
    changed.nonce = account.nonce ∧ changed.code = account.code ∧
      changed.balance.toNat = account.balance.toNat + amount.toNat := by
  unfold credit at credited
  split at credited
  · rename_i fits
    cases credited
    exact ⟨rfl, rfl, BitVec.toNat_add_of_lt fits⟩
  · cases credited

theorem credit_eq_error {error : StateError}
    (failed : credit address amount account = .error error) :
    Word.size ≤ account.balance.toNat + amount.toNat ∧
      error = .inconsistent address "balance overflow" := by
  unfold credit at failed
  split at failed
  case isTrue => cases failed
  case isFalse full =>
    cases failed
    exact ⟨Nat.le_of_not_lt full, rfl⟩

theorem credit_of_full (full : Word.size ≤ account.balance.toNat + amount.toNat) :
    credit address amount account = .error (.inconsistent address "balance overflow") :=
  if_neg (Nat.not_lt.mpr full)

theorem debit_eq_ok (debited : debit address amount account = .ok changed) :
    changed.nonce = account.nonce ∧ changed.code = account.code ∧
      changed.balance.toNat + amount.toNat = account.balance.toNat := by
  unfold debit at debited
  split at debited
  · rename_i covered
    cases debited
    refine ⟨rfl, rfl, ?_⟩
    dsimp only
    rw [BitVec.toNat_sub_of_le covered]
    exact Nat.sub_add_cancel (BitVec.le_def.mp covered)
  · cases debited

/-- What was taken off an account can be given back to it. -/
theorem credit_ne_error_of_debit {error : StateError}
    (debited : debit address amount account = .ok changed) :
    credit address amount changed ≠ .error error := by
  intro failed
  have full := (credit_eq_error failed).1
  rw [(debit_eq_ok debited).2.2] at full
  exact Nat.not_lt.mpr full account.balance.isLt

theorem countUp_eq_ok (counted : countUp address account = .ok changed) :
    changed.nonce.toNat = account.nonce.toNat + 1 ∧ changed.code = account.code ∧
      changed.balance = account.balance := by
  unfold countUp at counted
  split at counted
  · rename_i below
    cases counted
    refine ⟨?_, rfl, rfl⟩
    dsimp only
    rw [UInt64.toNat_add]
    exact Nat.mod_eq_of_lt below
  · cases counted

/-- The account pays an amount for its next transaction. -/
structure Pays (amount : Nat) (before after : Account) : Prop where
  nonce : after.nonce.toNat = before.nonce.toNat + 1
  balance : after.balance.toNat + amount = before.balance.toNat
  code : after.code = before.code

/-- The account gets an amount. -/
structure Earns (amount : Nat) (before after : Account) : Prop where
  nonce : after.nonce = before.nonce
  balance : after.balance.toNat = before.balance.toNat + amount
  code : after.code = before.code

/-- Part of what was paid comes back. -/
theorem Pays.earns {paid back : Nat} {before between after : Account}
    (pays : before.Pays (paid + back) between) (earns : between.Earns back after) :
    before.Pays paid after := by
  obtain ⟨nonce, balance, code⟩ := pays
  obtain ⟨sameNonce, more, sameCode⟩ := earns
  exact ⟨sameNonce ▸ nonce, by omega, sameCode.trans code⟩

theorem isEmpty_of_nonce (counted : 0 < account.nonce.toNat) : account.isEmpty = false := by
  have different : account.nonce ≠ 0 := by
    rintro none
    rw [none] at counted
    cases counted
  simp [isEmpty, different]

end Account

theorem Readings.writeAccount_writeAccount (readings : Readings) (address : Address)
    (first second : Option Account) :
    (readings.writeAccount address first).writeAccount address second =
      readings.writeAccount address second := by
  unfold writeAccount
  congr 1
  · funext other
    by_cases here : address = other <;> simp [here]
  · funext other
    by_cases here : address = other <;> simp [here]
  · ext other
    simp

theorem Journaled.addBalance_eq_ok {address : Address} {amount : Word}
    {world after : JournaledWorld} (ran : addBalance address amount world = .ok () after) :
    ∃ found account, world.readings.account address = .ok found ∧
      (found.getD {}).Earns amount.toNat account ∧
      after.readings = world.readings.writeAccount address (some account) := by
  obtain ⟨found, account, read, credited, written⟩ := modifyAccount_ok ran
  obtain ⟨nonce, code, balance⟩ := Account.credit_eq_ok credited
  exact ⟨found, account, read, ⟨nonce, balance, code⟩, written⟩

end ExecutionLayer
