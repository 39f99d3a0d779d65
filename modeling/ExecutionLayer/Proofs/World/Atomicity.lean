import ExecutionLayer.Proofs.World.Standing

/-!
# Operations that fail

An operation on a world asks all that it needs before it writes, so that one that fails has written
nothing. A transfer is two such operations in a row. If the second one fails, the first one stays
done: the value was taken off the sender and the recipient did not get it.
-/

set_option autoImplicit false

namespace ExecutionLayer

/-! ## Failures -/

def Journaled.failure? {Value : Type} (operation : Journaled Value) (world : JournaledWorld) :
    Option StateError :=
  match operation world with
  | .ok _ _ => none
  | .error error _ => some error

def WorldAccess.failure? : WorldAccess → JournaledWorld → Option StateError
  | .account address => (Journaled.account address).failure?
  | .isPresent address => (Journaled.isPresent address).failure?
  | .isEmptyOrAbsent address => (Journaled.isEmptyOrAbsent address).failure?
  | .blocksDeployment address => (Journaled.blocksDeployment address).failure?
  | .balance address => (Journaled.balance address).failure?
  | .nonce address => (Journaled.nonce address).failure?
  | .code address => (Journaled.code address).failure?
  | .storage address slot => (Journaled.storage address slot).failure?
  | .originalStorage address slot => (Journaled.originalStorage address slot).failure?
  | .touch address => (Journaled.touch address).failure?
  | .addBalance address amount => (Journaled.addBalance address amount).failure?
  | .subBalance address amount => (Journaled.subBalance address amount).failure?
  | .transfer sender recipient value => (Journaled.transfer sender recipient value).failure?
  | .incrementNonce address => (Journaled.incrementNonce address).failure?
  | .createContract address => (Journaled.createContract address).failure?
  | .setCode address deployed => (Journaled.setCode address deployed).failure?
  | .setStorage address slot value => (Journaled.setStorage address slot value).failure?
  | .deleteAccount address => (Journaled.deleteAccount address).failure?
  | .finalize destroyed => (Journaled.finalize destroyed).failure?

/-- No read and no effects tell the worlds apart. -/
structure JournaledWorld.Indistinct (left right : JournaledWorld) : Prop where
  account : ∀ address,
    (Journaled.account address).answer left = (Journaled.account address).answer right
  storage : ∀ address slot,
    (Journaled.storage address slot).answer left = (Journaled.storage address slot).answer right
  originalStorage : ∀ address slot,
    (Journaled.originalStorage address slot).answer left =
      (Journaled.originalStorage address slot).answer right
  effects : left.effects = right.effects

open Journaled in
theorem JournaledWorld.Indistinct.of_readings {left right : JournaledWorld}
    (same : left.readings = right.readings) : Indistinct left right where
  account address := ((follows_account address).congr same).1
  storage address slot := ((follows_storage address slot).congr same).1
  originalStorage address slot := ((follows_originalStorage address slot).congr same).1
  effects := effects_congr same

/-! ## Failures that leave nothing behind -/

namespace Observed

variable {Value Result : Type}

/-- Where the operation fails, it leaves the readings as they were. -/
def Atomic (model : Observed Value) : Prop :=
  ∀ readings error after, model readings = .error error after → after = readings

namespace Atomic

theorem ask (question : Readings → Except StateError Value) : Atomic (Observed.ask question) := by
  intro readings error after failed
  unfold Observed.ask at failed
  split at failed
  · cases failed
  · cases failed
    rfl

/-- A question in front of an operation changes nothing. -/
theorem ask_bind {question : Readings → Except StateError Value} {next : Value → Observed Result}
    (rest : ∀ value, Atomic (next value)) : Atomic (Observed.ask question >>= next) := by
  intro readings error after failed
  simp only [bind, EStateM.bind, Observed.ask] at failed
  cases answer : question readings with
  | error raised =>
      rw [answer] at failed
      cases failed
      rfl
  | ok value =>
      rw [answer] at failed
      exact rest value readings error after failed

theorem pure (value : Value) : Atomic (Pure.pure value) :=
  fun _ _ _ failed => by cases failed

theorem modify (change : Readings → Readings) : Atomic (modify change) :=
  fun _ _ _ failed => by cases failed

theorem question (question : Option Account → Value) (address : Address) :
    Atomic (do return question (← Observed.account address)) :=
  ask_bind fun _ => .pure _

theorem modifyAccount (address : Address) (change : Account → Except StateError Account) :
    Atomic (Observed.modifyAccount address change) :=
  ask_bind fun _ => ask_bind fun _ => .modify _

theorem createContract (address : Address) : Atomic (Observed.createContract address) := by
  rw [Observed.createContract, Observed.balance, bind_assoc]
  exact ask_bind fun _ _ _ _ failed => by cases failed

end Atomic

end Observed

namespace Journaled

variable {Value : Type} {world : JournaledWorld} {error : StateError}

theorem Follows.failed {operation : Journaled Value} {model : Observed Value}
    (follows : Follows operation model) (failed : operation.failure? world = some error) :
    model world.readings = .error error (operation.after world).readings := by
  have ran := follows world
  unfold failure? at failed
  cases answer : model world.readings with
  | ok value readings =>
      rw [answer] at ran
      obtain ⟨after, succeeded, -⟩ := ran
      rw [succeeded] at failed
      cases failed
  | error raised readings =>
      rw [answer] at ran
      obtain ⟨after, stopped, rfl, -⟩ := ran
      rw [stopped] at failed
      cases failed
      rw [Journaled.after, stopped]

theorem Follows.atomic {operation : Journaled Value} {model : Observed Value}
    (follows : Follows operation model) (atomic : model.Atomic)
    (failed : operation.failure? world = some error) :
    (operation.after world).readings = world.readings :=
  atomic _ _ _ (follows.failed failed)

end Journaled

namespace WorldAccess

variable {access : WorldAccess} {world : JournaledWorld} {error : StateError}

open Journaled in
/-- Apart from transfers, single operations write only when nothing can fail any more. -/
theorem readings_of_failure (single : ∀ destroyed, access ≠ .finalize destroyed)
    (noTransfer : ∀ sender recipient value, access ≠ .transfer sender recipient value)
    (failed : access.failure? world = some error) :
    (access.after world).readings = world.readings := by
  cases access with
  | account address => exact (follows_account address).atomic (.ask _) failed
  | isPresent address => exact (follows_question _ address).atomic (.question _ address) failed
  | isEmptyOrAbsent address => exact (follows_question _ address).atomic (.question _ address) failed
  | blocksDeployment address =>
      exact (follows_question _ address).atomic (.question _ address) failed
  | balance address => exact (follows_balance address).atomic (.question _ address) failed
  | nonce address =>
      exact (follows_question (fun account => (account.getD {}).nonce) address).atomic
        (.question _ address) failed
  | code address =>
      exact (follows_question (fun account => (account.getD {}).code) address).atomic
        (.question _ address) failed
  | storage address slot => exact (follows_storage address slot).atomic (.ask _) failed
  | originalStorage address slot =>
      exact (follows_originalStorage address slot).atomic (.ask _) failed
  | touch address => exact (follows_touch address).atomic (.modify _) failed
  | addBalance address amount =>
      exact (follows_modifyAccount address _).atomic (.modifyAccount address _) failed
  | subBalance address amount =>
      exact (follows_modifyAccount address _).atomic (.modifyAccount address _) failed
  | transfer sender recipient value => exact absurd rfl (noTransfer sender recipient value)
  | incrementNonce address =>
      exact (follows_modifyAccount address _).atomic (.modifyAccount address _) failed
  | createContract address =>
      exact (follows_createContract address).atomic (.createContract address) failed
  | setCode address deployed =>
      exact (follows_modifyAccount address _).atomic (.modifyAccount address _) failed
  | setStorage address slot value =>
      exact (follows_setStorage address slot value).atomic (.modify _) failed
  | deleteAccount address => exact (follows_deleteAccount address).atomic (.modify _) failed
  | finalize destroyed => exact absurd rfl (single destroyed)

end WorldAccess

/-! ## Transfers that stop halfway -/

namespace Journaled

variable {Value : Type} {world between : JournaledWorld} {error : StateError}
  {address sender recipient : Address} {value : Word}

theorem failure?_modifyAccount (address : Address) (change : Account → Except StateError Account)
    (world : JournaledWorld) :
    (modifyAccount address change).failure? world = some error ↔
      (world.readings.account address >>= fun found => change (found.getD {})) = .error error := by
  unfold failure?
  cases read : world.readings.account address with
  | error raised =>
      obtain ⟨after, failed⟩ : ∃ after, modifyAccount address change world = .error raised after :=
        run_modifyAccount_unread read
      rw [failed, error_bind]
      simp
  | ok found =>
      rw [ok_bind]
      cases made : change (found.getD {}) with
      | error raised =>
          obtain ⟨after, failed⟩ := run_modifyAccount_error read made
          rw [failed]
          simp
      | ok changed =>
          obtain ⟨after, succeeded, _⟩ := run_modifyAccount read made
          rw [succeeded]
          simp

/-- The sender holds a value to be moved, and the recipient, another account, cannot be read or
would hold more than a word can. -/
structure Strands (sender recipient : Address) (value : Word) (world : JournaledWorld)
    (error : StateError) : Prop where
  moves : value ≠ 0
  apart : sender ≠ recipient
  covered : ∃ held, (balance sender).answer world = .ok held ∧ value ≤ held
  refused : (balance recipient).answer world = .error error ∨
    ∃ had, (balance recipient).answer world = .ok had ∧
      Word.size ≤ had.toNat + value.toNat ∧ error = .inconsistent recipient "balance overflow"

theorem transfer_eq_bind (moves : value ≠ 0) :
    transfer sender recipient value =
      (subBalance sender value >>= fun _ => addBalance recipient value) :=
  if_neg moves

theorem credit_refused_iff (world : JournaledWorld) :
    (world.readings.account recipient >>= fun found =>
        Account.credit recipient value (found.getD {})) = .error error ↔
      (balance recipient).answer world = .error error ∨
        ∃ had, (balance recipient).answer world = .ok had ∧
          Word.size ≤ had.toNat + value.toNat ∧
          error = .inconsistent recipient "balance overflow" := by
  rw [answer_balance]
  cases read : world.readings.account recipient with
  | error raised => simp [error_bind, Except.map]
  | ok found =>
      rw [ok_bind]
      constructor
      · intro failed
        obtain ⟨full, rfl⟩ := Account.credit_eq_error failed
        exact .inr ⟨_, rfl, full, rfl⟩
      · rintro (unread | ⟨had, answered, full, rfl⟩)
        · cases unread
        · cases answered
          exact Account.credit_of_full full

/-- Behind the debit only the credit of another account can fail, as it would have in front of it. -/
theorem failure?_credit_iff (moves : value ≠ 0)
    (debited : subBalance sender value world = .ok () between) :
    (addBalance recipient value).failure? between = some error ↔
      Strands sender recipient value world error := by
  obtain ⟨held, less, read, taken, written⟩ := modifyAccount_ok debited
  have elsewhere (apart : sender ≠ recipient) :
      between.readings.account recipient = world.readings.account recipient := by
    rw [written]
    exact if_neg apart
  rw [addBalance, failure?_modifyAccount]
  constructor
  · intro failed
    have apart : sender ≠ recipient := by
      rintro rfl
      have own : between.readings.account sender = .ok (some less) := by
        rw [written]
        exact if_pos rfl
      rw [own, ok_bind] at failed
      exact Account.credit_ne_error_of_debit taken failed
    have answered : (balance sender).answer world = .ok (held.getD {}).balance := by
      rw [answer_balance, read]
      rfl
    have covered : value ≤ (held.getD {}).balance := by
      rw [BitVec.le_def, ← (Account.debit_eq_ok taken).2.2]
      exact Nat.le_add_left _ _
    rw [elsewhere apart] at failed
    exact ⟨moves, apart, ⟨_, answered, covered⟩, (credit_refused_iff world).mp failed⟩
  · intro strands
    rw [elsewhere strands.apart]
    exact (credit_refused_iff world).mpr strands.refused

namespace Strands

theorem debited (strands : Strands sender recipient value world error) :
    ∃ between found account, subBalance sender value world = .ok () between ∧
      world.readings.account sender = .ok found ∧
      between.readings = world.readings.writeAccount sender (some account) ∧
      account.balance.toNat + value.toNat = (found.getD {}).balance.toNat := by
  obtain ⟨held, answered, covered⟩ := strands.covered
  rw [answer_balance] at answered
  cases read : world.readings.account sender with
  | error raised =>
      rw [read] at answered
      cases answered
  | ok found =>
      rw [read] at answered
      cases answered
      obtain ⟨between, _, ran, _⟩ := run_subBalance read covered
      obtain ⟨_, account, readAgain, taken, written⟩ := modifyAccount_ok ran
      cases read.symm.trans readAgain
      exact ⟨between, found, account, ran, rfl, written, (Account.debit_eq_ok taken).2.2⟩

/-- The transfer fails and leaves what taking the value off the sender leaves. -/
theorem fails (strands : Strands sender recipient value world error) :
    (transfer sender recipient value).failure? world = some error ∧
      ((transfer sender recipient value).after world).readings =
        ((subBalance sender value).after world).readings := by
  obtain ⟨between, _, _, ran, -⟩ := strands.debited
  have refused := (failure?_credit_iff strands.moves ran).mpr strands
  have kept := (follows_modifyAccount recipient _).atomic (.modifyAccount recipient _) refused
  rw [transfer_eq_bind strands.moves, failure?, after, after, run_bind_ok ran, ran]
  exact ⟨refused, kept⟩

/-- The sender's account reads differently from before. -/
theorem distinct (strands : Strands sender recipient value world error) :
    ¬JournaledWorld.Indistinct ((transfer sender recipient value).after world) world := by
  intro same
  obtain ⟨between, found, account, ran, read, written, sum⟩ := strands.debited
  have left := same.account sender
  rw [(follows_account sender).answer_ask, (follows_account sender).answer_ask, strands.fails.2,
    Journaled.after, ran, written, read] at left
  have kept : some account = found := by
    have now : (world.readings.writeAccount sender (some account)).account sender =
        .ok (some account) := if_pos rfl
    exact Except.ok.inj (now.symm.trans left)
  rw [← kept, Option.getD_some] at sum
  exact strands.moves (BitVec.eq_of_toNat_eq (by simpa using sum))

end Strands

/-- A transfer that fails was stopped by its debit and left nothing, or by its credit. -/
theorem transfer_failed (failed : (transfer sender recipient value).failure? world = some error) :
    ((transfer sender recipient value).after world).readings = world.readings ∨
      Strands sender recipient value world error := by
  by_cases moves : value = 0
  · have touched : transfer sender recipient value = touch recipient := if_pos moves
    rw [touched] at failed ⊢
    exact .inl ((follows_touch recipient).atomic (.modify _) failed)
  rw [transfer_eq_bind moves] at failed ⊢
  cases debit : subBalance sender value world with
  | error raised stopped =>
      rw [failure?, run_bind_error debit, ← debit, ← failure?] at failed
      rw [after, run_bind_error debit, ← debit, ← after]
      exact .inl ((follows_modifyAccount sender _).atomic (.modifyAccount sender _) failed)
  | ok _ between =>
      rw [failure?, run_bind_ok debit, ← failure?] at failed
      exact .inr ((failure?_credit_iff moves debit).mp failed)

end Journaled

namespace WorldAccess

open Journaled JournaledWorld

variable {access : WorldAccess}

/-- A single operation that fails leaves every answer and the effects as they were, unless it is a
transfer whose value the sender holds and the recipient cannot get. Such a transfer fails, and it
leaves the world with the value taken off the sender. -/
theorem failure_distinct_iff (single : ∀ destroyed, access ≠ .finalize destroyed)
    (world : JournaledWorld) (error : StateError) :
    (access.failure? world = some error ∧ ¬Indistinct (access.after world) world ↔
        ∃ sender recipient value, access = .transfer sender recipient value ∧
          Strands sender recipient value world error) ∧
      ∀ sender recipient value, access = .transfer sender recipient value →
        Strands sender recipient value world error →
          Indistinct (access.after world) ((subBalance sender value).after world) := by
  refine ⟨⟨?_, ?_⟩, ?_⟩
  · rintro ⟨failed, distinct⟩
    by_cases transfers : ∃ sender recipient value, access = .transfer sender recipient value
    · obtain ⟨sender, recipient, value, rfl⟩ := transfers
      rcases transfer_failed failed with same | strands
      · exact absurd (.of_readings same) distinct
      · exact ⟨sender, recipient, value, rfl, strands⟩
    · have same := readings_of_failure single
        (fun sender recipient value transfer => transfers ⟨sender, recipient, value, transfer⟩) failed
      exact absurd (.of_readings same) distinct
  · rintro ⟨sender, recipient, value, rfl, strands⟩
    exact ⟨strands.fails.1, strands.distinct⟩
  · rintro sender recipient value rfl strands
    exact .of_readings strands.fails.2

namespace Unreachable

/-- The account at one holds a thousand, and the account at two cannot be read. -/
def world : JournaledWorld where
  base :=
    { account := fun address =>
        if address = 2 then .error (.unavailable "account")
        else .ok (if address = 1 then some { balance := 1000 } else none)
      storage := fun _ _ => .ok 0 }

/-- A part of the thousand goes to the account that cannot be read. -/
def payment : WorldAccess :=
  .transfer 1 2 400

end Unreachable

open Unreachable in
/-- The payment fails, and its sender holds less than before. -/
theorem failure_distinct_unreachable :
    (∀ destroyed, payment ≠ .finalize destroyed) ∧
      payment.failure? world = some (.unavailable "account") ∧
      ¬Indistinct (payment.after world) world ∧
      (Journaled.account 1).answer world = .ok (some { balance := 1000 }) ∧
      (Journaled.account 1).answer (payment.after world) = .ok (some { balance := 600 }) := by
  have single : ∀ destroyed, payment ≠ .finalize destroyed := fun _ same => by cases same
  have strands : Strands 1 2 400 world (.unavailable "account") :=
    ⟨by decide, by decide, ⟨1000, rfl, by decide⟩, .inl rfl⟩
  obtain ⟨breaks, leaves⟩ := failure_distinct_iff single world (.unavailable "account")
  obtain ⟨failed, distinct⟩ := breaks.mpr ⟨1, 2, 400, rfl, strands⟩
  have debited : (Journaled.account 1).answer ((subBalance 1 400).after world) =
      .ok (some { balance := 600 }) := by decide +kernel
  exact ⟨single, failed, distinct, rfl, ((leaves 1 2 400 rfl strands).account 1).trans debited⟩

end WorldAccess

end ExecutionLayer
