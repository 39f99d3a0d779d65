import ExecutionLayer.Proofs.Results
import ExecutionLayer.Proofs.World.Supply

/-!
# No value appears or vanishes

Operations on a world keep what all accounts hold together, and the faults they have over a
view that never fails are overflows of balances. Only the deletion of an account takes away
what it holds.
-/

set_option autoImplicit false

namespace ExecutionLayer

/-- A balance overflowed, and all accounts together hold as much as no word can. -/
def Overflows (supply : Nat) (error : StateError) : Prop :=
  Word.size ≤ supply ∧ ∃ address, error = .inconsistent address "balance overflow"

theorem Overflows.mono {smaller larger : Nat} {error : StateError} (le : smaller ≤ larger)
    (overflows : Overflows smaller error) : Overflows larger error :=
  ⟨Nat.le_trans overflows.1 le, overflows.2⟩

namespace JournaledWorld

/-- The later world leads back to the earlier one, and no value appeared or vanished in
between. -/
structure Conserves (before after : JournaledWorld) : Prop where
  continues : Continues before after
  lawful : before.readings.Lawful → after.readings.Lawful
  supply : before.readings.Lawful → after.readings.supply = before.readings.supply

namespace Conserves

variable {before middle after : JournaledWorld}

theorem of_readings (same : after.readings = before.readings)
    (continues : Continues before after) : Conserves before after := by
  refine ⟨continues, ?_, fun _ => congrArg Readings.supply same⟩
  rw [same]
  exact id

theorem refl (world : JournaledWorld) : Conserves world world :=
  of_readings rfl (.refl world)

theorem trans (first : Conserves before middle) (second : Conserves middle after) :
    Conserves before after := by
  refine ⟨first.continues.trans second.continues, ?_, ?_⟩ <;> intro lawful
  · exact second.lawful (first.lawful lawful)
  · exact (second.supply (first.lawful lawful)).trans (first.supply lawful)

end Conserves

end JournaledWorld

namespace Journaled

open JournaledWorld

variable {Value Result : Type}

/-- No value appears in the world or vanishes, and the only fault over a view without faults
is that a balance overflows. -/
def SafeAt (operation : Journaled Value) (world : JournaledWorld) : Prop :=
  match operation world with
  | .ok _ after => Conserves world after
  | .error error _ => world.readings.Lawful → Overflows world.readings.supply error

namespace SafeAt

variable {operation : Journaled Value} {next : Value → Journaled Result} {world : JournaledWorld}

theorem conserves (safe : SafeAt operation world) {value : Value} {after : JournaledWorld}
    (ran : operation world = .ok value after) : Conserves world after := by
  rw [SafeAt, ran] at safe
  exact safe

theorem overflows (safe : SafeAt operation world) {error : StateError} {after : JournaledWorld}
    (failed : operation world = .error error after) (lawful : world.readings.Lawful) :
    Overflows world.readings.supply error := by
  rw [SafeAt, failed] at safe
  exact safe lawful

theorem of_ok {value : Value} {after : JournaledWorld} (ran : operation world = .ok value after)
    (conserves : Conserves world after) : SafeAt operation world := by
  rw [SafeAt, ran]
  exact conserves

theorem of_error {error : StateError} {after : JournaledWorld}
    (failed : operation world = .error error after)
    (overflows : world.readings.Lawful → Overflows world.readings.supply error) :
    SafeAt operation world := by
  rw [SafeAt, failed]
  exact overflows

theorem pure (value : Value) (world : JournaledWorld) : SafeAt (Pure.pure value) world :=
  of_ok rfl (.refl world)

theorem bind (first : SafeAt operation world)
    (second : ∀ value after, operation world = .ok value after → SafeAt (next value) after) :
    SafeAt (operation >>= next) world := by
  cases ran : operation world with
  | error error after =>
      exact of_error (run_bind_error ran) (first.overflows ran)
  | ok value middle =>
      have start : (operation >>= next) world = next value middle := run_bind_ok ran
      have conserved := first.conserves ran
      have later := second value middle ran
      cases finished : next value middle with
      | ok result after =>
          exact of_ok (start.trans finished) (conserved.trans (later.conserves finished))
      | error error after =>
          apply of_error (start.trans finished)
          intro lawful
          exact (later.overflows finished (conserved.lawful lawful)).mono
            (conserved.supply lawful).le

end SafeAt

/-! ## Reads -/

theorem Follows.ask_ok {operation : Journaled Value}
    {question : Readings → Except StateError Value} (follows : Follows operation (.ask question))
    {world : JournaledWorld} {value : Value} (answer : question world.readings = .ok value) :
    ∃ after, operation world = .ok value after ∧ after.readings = world.readings ∧
      Continues world after := by
  have ran := follows world
  simp only [Observed.ask, answer] at ran
  exact ran

theorem Follows.ask_error {operation : Journaled Value}
    {question : Readings → Except StateError Value} (follows : Follows operation (.ask question))
    {world : JournaledWorld} {error : StateError} (answer : question world.readings = .error error) :
    ∃ after, operation world = .error error after := by
  have ran := follows world
  simp only [Observed.ask, answer] at ran
  obtain ⟨after, failed, _⟩ := ran
  exact ⟨after, failed⟩

theorem Follows.safeAt_ask {operation : Journaled Value}
    {question : Readings → Except StateError Value} (follows : Follows operation (.ask question))
    (answers : ∀ {readings}, readings.Lawful → ∃ value, question readings = .ok value)
    (world : JournaledWorld) : SafeAt operation world := by
  cases answer : question world.readings with
  | ok value =>
      obtain ⟨after, ran, same, continues⟩ := follows.ask_ok answer
      exact .of_ok ran (.of_readings same continues)
  | error error =>
      obtain ⟨after, failed⟩ := follows.ask_error answer
      apply SafeAt.of_error failed
      intro lawful
      obtain ⟨value, answered⟩ := answers lawful
      rw [answer] at answered
      cases answered

theorem safeAt_account (address : Address) (world : JournaledWorld) :
    SafeAt (account address) world :=
  (follows_account address).safeAt_ask (fun lawful => lawful.exists_account address) world

theorem safeAt_question (question : Option Account → Value) (address : Address)
    (world : JournaledWorld) : SafeAt (do return question (← account address)) world :=
  (safeAt_account address world).bind fun _ after _ => .pure _ after

theorem run_question (question : Option Account → Value) {address : Address}
    {world : JournaledWorld} {found : Option Account}
    (read : world.readings.account address = .ok found) :
    ∃ after, (do return question (← account address) : Journaled Value) world =
        .ok (question found) after ∧
      after.readings = world.readings ∧ Continues world after := by
  obtain ⟨after, answered, same, continues⟩ := (follows_account address).ask_ok read
  exact ⟨after, run_bind_ok answered, same, continues⟩

theorem question_ok (question : Option Account → Value) {address : Address}
    {world after : JournaledWorld} {value : Value}
    (ran : (do return question (← account address) : Journaled Value) world = .ok value after) :
    ∃ found, world.readings.account address = .ok found ∧ value = question found ∧
      after.readings = world.readings := by
  obtain ⟨found, middle, asked, answered⟩ := bind_eq_ok ran
  cases answered
  obtain ⟨read, same, _⟩ := (follows_account address).ask_eq_ok asked
  exact ⟨found, read, rfl, same⟩

theorem safeAt_storage (address : Address) (slot : Word) (world : JournaledWorld) :
    SafeAt (storage address slot) world :=
  (follows_storage address slot).safeAt_ask (fun lawful => lawful.slot address slot) world

theorem safeAt_originalStorage (address : Address) (slot : Word) (world : JournaledWorld) :
    SafeAt (originalStorage address slot) world :=
  (follows_originalStorage address slot).safeAt_ask
    (fun lawful => lawful.exists_original address slot) world

/-! ## Writes -/

theorem Follows.safeAt_modify {operation : Journaled Unit} {change : Readings → Readings}
    (follows : Follows operation (modify change)) {world : JournaledWorld}
    (lawful : world.readings.Lawful → (change world.readings).Lawful)
    (supply : (change world.readings).supply = world.readings.supply) : SafeAt operation world := by
  obtain ⟨after, ran, same, continues⟩ := follows world
  apply SafeAt.of_ok ran
  refine ⟨continues, ?_, fun _ => ?_⟩ <;> rw [same]
  · exact lawful
  · exact supply

theorem safeAt_touch (address : Address) (world : JournaledWorld) : SafeAt (touch address) world :=
  (follows_touch address).safeAt_modify (fun lawful => lawful.touch address)
    (world.readings.supply_touch address)

theorem safeAt_setStorage (address : Address) (slot value : Word) (world : JournaledWorld) :
    SafeAt (setStorage address slot value) world :=
  (follows_setStorage address slot value).safeAt_modify
    (fun lawful => lawful.setStorage address slot value)
    (world.readings.supply_setStorage address slot value)

theorem run_modifyAccount {address : Address} {change : Account → Except StateError Account}
    {world : JournaledWorld} {found : Option Account} {changed : Account}
    (read : world.readings.account address = .ok found)
    (makes : change (found.getD {}) = .ok changed) :
    ∃ after, modifyAccount address change world = .ok () after ∧
      after.readings = world.readings.writeAccount address (some changed) ∧
      Continues world after := by
  have ran := follows_modifyAccount address change world
  simp only [Observed.modifyAccount, Observed.account, Observed.ask, bind, EStateM.bind, read,
    makes] at ran
  exact ran

theorem run_modifyAccount_error {address : Address} {change : Account → Except StateError Account}
    {world : JournaledWorld} {found : Option Account} {error : StateError}
    (read : world.readings.account address = .ok found)
    (fails : change (found.getD {}) = .error error) :
    ∃ after, modifyAccount address change world = .error error after := by
  have ran := follows_modifyAccount address change world
  simp only [Observed.modifyAccount, Observed.account, Observed.ask, bind, EStateM.bind, read,
    fails] at ran
  obtain ⟨after, failed, _⟩ := ran
  exact ⟨after, failed⟩

theorem run_modifyAccount_unread {address : Address} {change : Account → Except StateError Account}
    {world : JournaledWorld} {error : StateError}
    (unread : world.readings.account address = .error error) :
    ∃ after, modifyAccount address change world = .error error after := by
  have ran := follows_modifyAccount address change world
  simp only [Observed.modifyAccount, Observed.account, Observed.ask, bind, EStateM.bind,
    unread] at ran
  obtain ⟨after, failed, _⟩ := ran
  exact ⟨after, failed⟩

theorem modifyAccount_ok {address : Address} {change : Account → Except StateError Account}
    {world after : JournaledWorld} (ran : modifyAccount address change world = .ok () after) :
    ∃ found changed, world.readings.account address = .ok found ∧
      change (found.getD {}) = .ok changed ∧
      after.readings = world.readings.writeAccount address (some changed) := by
  obtain ⟨modified, _⟩ := (follows_modifyAccount address change).run_ok ran
  obtain ⟨found, _, asked, later⟩ := sequence_eq_ok modified
  obtain ⟨read, rfl⟩ := Observed.ask_eq_ok asked
  obtain ⟨changed, _, changing, written⟩ := sequence_eq_ok later
  obtain ⟨makes, rfl⟩ := Observed.ask_eq_ok changing
  injection written with _ same
  exact ⟨found, changed, read, makes, same.symm⟩

theorem safeAt_modifyAccount {address : Address} {change : Account → Except StateError Account}
    {world : JournaledWorld}
    (changes : ∀ account, ∃ changed, change account = .ok changed ∧
      changed.balance = account.balance) :
    SafeAt (modifyAccount address change) world := by
  cases read : world.readings.account address with
  | error error =>
      obtain ⟨after, failed⟩ := run_modifyAccount_unread read
      apply SafeAt.of_error failed
      intro lawful
      obtain ⟨found, answered⟩ := lawful.exists_account address
      rw [read] at answered
      cases answered
  | ok found =>
      obtain ⟨changed, makes, kept⟩ := changes (found.getD {})
      obtain ⟨after, ran, same, continues⟩ := run_modifyAccount read makes
      apply SafeAt.of_ok ran
      refine ⟨continues, ?_, fun _ => ?_⟩ <;> rw [same]
      · exact fun lawful => lawful.writeAccount address (some changed)
      · have moved := world.readings.supply_writeAccount address (some changed)
        have held : world.readings.balance address = (found.getD {}).balance := by
          rw [Readings.balance, read]
          rfl
        rw [held, Option.getD_some, kept] at moved
        omega

theorem safeAt_setCode (address : Address) (code : Code) (world : JournaledWorld) :
    SafeAt (setCode address code) world :=
  safeAt_modifyAccount fun account => ⟨{ account with code }, rfl, rfl⟩

/-! ## Moving value -/

/-- What an account with enough balance holds after an amount was taken off. -/
theorem run_subBalance {address : Address} {amount : Word} {world : JournaledWorld}
    {found : Option Account} (read : world.readings.account address = .ok found)
    (holds : amount ≤ (found.getD {}).balance) :
    ∃ after account, subBalance address amount world = .ok () after ∧
      after.readings = world.readings.writeAccount address (some account) ∧
      account = { found.getD {} with balance := (found.getD {}).balance - amount } ∧
      Continues world after ∧
      after.readings.supply + amount.toNat = world.readings.supply := by
  let account := { found.getD {} with balance := (found.getD {}).balance - amount }
  have taken : Account.debit address amount (found.getD {}) = .ok account := if_pos holds
  obtain ⟨after, ran, same, continues⟩ := run_modifyAccount read taken
  refine ⟨after, account, ran, same, rfl, continues, ?_⟩
  have moved := world.readings.supply_writeAccount address (some account)
  have held : world.readings.balance address = (found.getD {}).balance := by
    rw [Readings.balance, read]
    rfl
  have left : account.balance.toNat = (found.getD {}).balance.toNat - amount.toNat :=
    BitVec.toNat_sub_of_le holds
  rw [BitVec.le_def] at holds
  rw [held, Option.getD_some, left] at moved
  rw [same]
  omega

/-- An amount is added, unless the sum is more than a word can hold. -/
theorem addBalance_cases {address : Address} (amount : Word) {world : JournaledWorld}
    {found : Option Account} (read : world.readings.account address = .ok found) :
    (∃ after account, addBalance address amount world = .ok () after ∧
        after.readings = world.readings.writeAccount address (some account) ∧
        account = { found.getD {} with balance := (found.getD {}).balance + amount } ∧
        Continues world after ∧
        after.readings.supply = world.readings.supply + amount.toNat) ∨
      ∃ after, addBalance address amount world =
          .error (.inconsistent address "balance overflow") after ∧
        Word.size ≤ world.readings.supply + amount.toNat := by
  have held : world.readings.balance address = (found.getD {}).balance := by
    rw [Readings.balance, read]
    rfl
  by_cases fits : (found.getD {}).balance.toNat + amount.toNat < Word.size
  · let account := { found.getD {} with balance := (found.getD {}).balance + amount }
    have given : Account.credit address amount (found.getD {}) = .ok account := if_pos fits
    obtain ⟨after, ran, same, continues⟩ := run_modifyAccount read given
    refine .inl ⟨after, account, ran, same, rfl, continues, ?_⟩
    have moved := world.readings.supply_writeAccount address (some account)
    have sum : account.balance.toNat = (found.getD {}).balance.toNat + amount.toNat :=
      BitVec.toNat_add_of_lt fits
    rw [held, Option.getD_some, sum] at moved
    rw [same]
    omega
  · have refused : Account.credit address amount (found.getD {}) =
        .error (.inconsistent address "balance overflow") := if_neg fits
    obtain ⟨after, failed⟩ := run_modifyAccount_error read refused
    refine .inr ⟨after, failed, ?_⟩
    have bound := world.readings.balance_le_supply address
    rw [held] at bound
    omega

/-- Value that an account holds can be moved to another, or the other's balance overflows. -/
theorem safeAt_move {sender recipient : Address} {amount : Word} {world : JournaledWorld}
    {found : Option Account} (read : world.readings.account sender = .ok found)
    (holds : amount ≤ (found.getD {}).balance) :
    SafeAt (do subBalance sender amount; addBalance recipient amount) world := by
  obtain ⟨middle, account, taken, same, _, continues, supply⟩ := run_subBalance read holds
  have start : (do subBalance sender amount; addBalance recipient amount : Journaled Unit) world =
      addBalance recipient amount middle := run_bind_ok taken
  have lawfulMiddle (lawful : world.readings.Lawful) : middle.readings.Lawful := by
    rw [same]
    exact lawful.writeAccount sender (some account)
  cases readRecipient : middle.readings.account recipient with
  | error error =>
      obtain ⟨after, failed⟩ := run_modifyAccount_unread readRecipient
      apply SafeAt.of_error (start.trans failed)
      intro lawful
      obtain ⟨other, answered⟩ := (lawfulMiddle lawful).exists_account recipient
      rw [readRecipient] at answered
      cases answered
  | ok other =>
      rcases addBalance_cases amount readRecipient with
        ⟨after, credited, ran, sameAfter, _, later, total⟩ | ⟨after, failed, full⟩
      · apply SafeAt.of_ok (start.trans ran)
        refine ⟨continues.trans later, ?_, fun _ => by omega⟩
        intro lawful
        rw [sameAfter]
        exact (lawfulMiddle lawful).writeAccount recipient (some credited)
      · apply SafeAt.of_error (start.trans failed)
        exact fun _ => ⟨by omega, recipient, rfl⟩

theorem run_incrementNonce {address : Address} {world : JournaledWorld} {found : Option Account}
    (read : world.readings.account address = .ok found)
    (below : (found.getD {}).nonce.toNat + 1 < UInt64.size) :
    ∃ after account, incrementNonce address world = .ok () after ∧
      after.readings = world.readings.writeAccount address (some account) ∧
      account = { found.getD {} with nonce := (found.getD {}).nonce + 1 } ∧
      Continues world after ∧ after.readings.supply = world.readings.supply := by
  let account := { found.getD {} with nonce := (found.getD {}).nonce + 1 }
  have counted : Account.countUp address (found.getD {}) = .ok account := if_pos below
  obtain ⟨after, ran, same, continues⟩ := run_modifyAccount read counted
  refine ⟨after, account, ran, same, rfl, continues, ?_⟩
  have moved := world.readings.supply_writeAccount address (some account)
  have held : world.readings.balance address = (found.getD {}).balance := by
    rw [Readings.balance, read]
    rfl
  have kept : account.balance = (found.getD {}).balance := rfl
  rw [held, Option.getD_some, kept] at moved
  rw [same]
  omega

theorem run_incrementNonce_greatest {address : Address} {world : JournaledWorld}
    {found : Option Account} (read : world.readings.account address = .ok found)
    (greatest : ¬(found.getD {}).nonce.toNat + 1 < UInt64.size) :
    ∃ after, incrementNonce address world =
      .error (.inconsistent address "nonce overflow") after :=
  run_modifyAccount_error read (if_neg greatest)

theorem safeAt_incrementNonce {address : Address} {world : JournaledWorld} {found : Option Account}
    (read : world.readings.account address = .ok found)
    (below : (found.getD {}).nonce.toNat + 1 < UInt64.size) :
    SafeAt (incrementNonce address) world := by
  obtain ⟨after, account, ran, same, _, continues, supply⟩ := run_incrementNonce read below
  apply SafeAt.of_ok ran
  refine ⟨continues, fun lawful => ?_, fun _ => supply⟩
  rw [same]
  exact lawful.writeAccount address (some account)

/-- The sender can pay what a transfer moves. -/
def Funded (world : JournaledWorld) (sender : Address) (value : Word) : Prop :=
  value = 0 ∨ ∃ found, world.readings.account sender = .ok found ∧
    value ≤ (found.getD {}).balance

theorem safeAt_transfer {sender recipient : Address} {value : Word} {world : JournaledWorld}
    (funded : Funded world sender value) : SafeAt (transfer sender recipient value) world := by
  unfold transfer
  by_cases nothing : value = 0
  · rw [if_pos nothing]
    exact safeAt_touch recipient world
  · rw [if_neg nothing]
    obtain ⟨found, read, holds⟩ := funded.resolve_left nothing
    exact safeAt_move read holds

theorem Funded.congr {before after : JournaledWorld} {sender : Address} {value : Word}
    (funded : Funded before sender value) (same : after.readings = before.readings) :
    Funded after sender value := by
  rw [Funded, same]
  exact funded

theorem Funded.incrementNonce {before after : JournaledWorld} {sender address : Address}
    {value : Word} {found : Option Account} (funded : Funded before sender value)
    (read : before.readings.account address = .ok found)
    (below : (found.getD {}).nonce.toNat + 1 < UInt64.size)
    (ran : Journaled.incrementNonce address before = .ok () after) :
    Funded after sender value := by
  obtain ⟨_, account, ranAgain, same, counted, _, _⟩ := run_incrementNonce read below
  rw [ran] at ranAgain
  cases ranAgain
  rcases funded with nothing | ⟨paying, readPaying, holds⟩
  · exact .inl nothing
  · right
    rw [same]
    by_cases here : address = sender
    · subst here
      rw [read] at readPaying
      cases readPaying
      refine ⟨some account, if_pos rfl, ?_⟩
      rw [counted]
      exact holds
    · exact ⟨paying, (if_neg here).trans readPaying, holds⟩

/-! ## Contracts and deletions -/

theorem run_createContract {address : Address} {world : JournaledWorld}
    {found : Option Account} (read : world.readings.account address = .ok found) :
    ∃ after, createContract address world = .ok () after ∧
      after.readings = (world.readings.clearStorage address).writeAccount address
        (some { nonce := 1, balance := (found.getD {}).balance }) ∧
      Continues world after := by
  have ran := follows_createContract address world
  simp only [Observed.createContract, Observed.balance, Observed.account, Observed.ask, bind,
    EStateM.bind, read] at ran
  exact ran

theorem createContract_eq_ok {address : Address} {world after : JournaledWorld}
    (ran : createContract address world = .ok () after) :
    ∃ found, world.readings.account address = .ok found ∧
      after.readings = (world.readings.clearStorage address).writeAccount address
        (some { nonce := 1, balance := (found.getD {}).balance }) := by
  obtain ⟨balance, asked, read, _⟩ := bind_eq_ok ran
  obtain ⟨found, held, _⟩ := question_ok (fun account => (account.getD {}).balance) read
  obtain ⟨created, succeeded, written, _⟩ := run_createContract held
  cases ran.symm.trans succeeded
  exact ⟨found, held, written⟩

theorem safeAt_createContract (address : Address) (world : JournaledWorld) :
    SafeAt (createContract address) world := by
  cases read : world.readings.account address with
  | error error =>
      have ran := follows_createContract address world
      simp only [Observed.createContract, Observed.balance, Observed.account, Observed.ask, bind,
        EStateM.bind, read] at ran
      obtain ⟨after, failed, _⟩ := ran
      apply SafeAt.of_error failed
      intro lawful
      obtain ⟨found, answered⟩ := lawful.exists_account address
      rw [read] at answered
      cases answered
  | ok found =>
      obtain ⟨after, ran, same, continues⟩ := run_createContract read
      apply SafeAt.of_ok ran
      refine ⟨continues, ?_, fun _ => ?_⟩ <;> rw [same]
      · exact fun lawful => (lawful.clearStorage address).writeAccount address _
      · have moved := (world.readings.clearStorage address).supply_writeAccount address
          (some { nonce := 1, balance := (found.getD {}).balance })
        have held : (world.readings.clearStorage address).balance address =
            (found.getD {}).balance := by
          rw [Readings.balance, Readings.clearStorage, read]
          rfl
        rw [held, Option.getD_some, Readings.supply_clearStorage] at moved
        dsimp only at moved
        omega

theorem Funded.createContract {before after : JournaledWorld} {sender address : Address}
    {value : Word} (funded : Funded before sender value)
    (ran : Journaled.createContract address before = .ok () after) : Funded after sender value := by
  rcases funded with nothing | ⟨found, read, holds⟩
  · exact .inl nothing
  · right
    obtain ⟨contract, readContract, same⟩ := createContract_eq_ok ran
    rw [same]
    by_cases here : address = sender
    · subst here
      rw [read] at readContract
      cases readContract
      exact ⟨_, if_pos rfl, holds⟩
    · exact ⟨found, (if_neg here).trans read, holds⟩

theorem balance_of_isEmpty {found : Option Account} (isEmpty : found.any Account.isEmpty = true) :
    heldBy (.ok found) = 0 := by
  cases found with
  | none => rfl
  | some account =>
      simp only [Option.any_some, Account.isEmpty, Bool.and_eq_true, beq_iff_eq] at isEmpty
      exact isEmpty.1.2

theorem nodup_toList (addresses : Std.ExtTreeSet Address) : addresses.toList.Nodup := by
  have distinct := addresses.distinct_toList
  exact distinct.imp fun different same => different (by simp [same])

theorem run_deleteEmptyAccounts (addresses : List Address) {world : JournaledWorld}
    (lawful : world.readings.Lawful) :
    ∃ after, deleteEmptyAccounts addresses world = .ok () after ∧ Conserves world after := by
  induction addresses generalizing world with
  | nil => exact ⟨world, rfl, .refl world⟩
  | cons address rest ih =>
      obtain ⟨found, read⟩ := lawful.exists_account address
      obtain ⟨asked, answered, same, continues⟩ := (follows_account address).ask_ok read
      have asking : Conserves world asked := .of_readings same continues
      unfold deleteEmptyAccounts
      rw [run_bind_ok answered]
      by_cases isEmpty : found.any Account.isEmpty
      · obtain ⟨deleted, ran, readings, onward⟩ := follows_deleteAccount address asked
        have deleting : Conserves asked deleted := by
          refine ⟨onward, ?_, fun _ => ?_⟩ <;> rw [readings]
          · exact fun lawful => lawful.deleteAccount address
          · -- An account that is empty holds nothing.
            have moved := asked.readings.supply_deleteAccount address
            have held : asked.readings.balance address = 0 := by
              rw [Readings.balance, same, read]
              exact balance_of_isEmpty isEmpty
            have nothing : (0 : Word).toNat = 0 := rfl
            rw [held, nothing, Nat.add_zero] at moved
            exact moved
        obtain ⟨after, finished, others⟩ := ih (deleting.lawful (asking.lawful lawful))
        refine ⟨after, ?_, (asking.trans deleting).trans others⟩
        simp only [isEmpty, ↓reduceIte]
        rw [run_bind_ok ran]
        exact finished
      · obtain ⟨after, finished, others⟩ := ih (asking.lawful lawful)
        refine ⟨after, ?_, asking.trans others⟩
        simp only [isEmpty]
        exact finished

/-- The destroyed accounts take along what they hold. -/
theorem run_finalize (destroyed : Std.ExtTreeSet Address) {world : JournaledWorld}
    (lawful : world.readings.Lawful) :
    ∃ after, finalize destroyed world = .ok () after ∧ Continues world after ∧
      after.readings.Lawful ∧
      after.readings.supply + world.readings.holdings destroyed.toList =
        world.readings.supply := by
  obtain ⟨deleted, ran, readings, continues⟩ := follows_deleteAccounts destroyed.toList world
  dsimp only at readings
  have lawfulDeleted : deleted.readings.Lawful := by
    rw [readings]
    exact lawful.foldl_deleteAccount destroyed.toList
  obtain ⟨after, finished, conserves⟩ :=
    run_deleteEmptyAccounts deleted.touched.toList lawfulDeleted
  refine ⟨after, ?_, continues.trans conserves.continues, conserves.lawful lawfulDeleted, ?_⟩
  · unfold finalize
    rw [run_bind_ok ran]
    exact finished
  · have taken := world.readings.supply_foldl_deleteAccount (nodup_toList destroyed)
    rw [← readings, ← conserves.supply lawfulDeleted] at taken
    exact taken

end Journaled

end ExecutionLayer
