import ExecutionLayer.Proofs.World.Commitment
import ExecutionLayer.Proofs.World.Payments

/-!
# Nonces and codes

What operations on a world do to the nonce and the code of an account. Payments leave both as
they are and a count moves the nonce up. A contract is founded only where there is neither, and
until its code is installed there is none.
-/

set_option autoImplicit false

namespace ExecutionLayer

theorem Code.isEmpty_iff {code : Code} : code.isEmpty = true ↔ code = Code.empty := by
  constructor
  · intro noByte
    exact Code.ext (Array.isEmpty_iff.mp noByte)
  · rintro rfl
    rfl

theorem Account.blocksDeployment_eq_false {found : Option Account} :
    found.any Account.blocksDeployment = false ↔
      (found.getD {}).nonce = 0 ∧ (found.getD {}).code = Code.empty := by
  cases found with
  | none => exact ⟨fun _ => ⟨rfl, rfl⟩, fun _ => rfl⟩
  | some account => simp [blocksDeployment, Code.isEmpty_iff]

namespace Readings

/-- The nonce and the code at an address, where an absent account has neither. -/
def standing (readings : Readings) (address : Address) : Except StateError (UInt64 × Code) :=
  (readings.account address).map fun found => ((found.getD {}).nonce, (found.getD {}).code)

variable {readings before middle after : Readings} {address other : Address}
  {addresses more : Set Address}

theorem standing_of_read {found : Option Account} (read : readings.account address = .ok found) :
    readings.standing address = .ok ((found.getD {}).nonce, (found.getD {}).code) := by
  rw [standing, read]
  rfl

theorem standing_eq_ok {nonce : UInt64} {code : Code}
    (stands : readings.standing address = .ok (nonce, code)) :
    ∃ found, readings.account address = .ok found ∧ (found.getD {}).nonce = nonce ∧
      (found.getD {}).code = code := by
  unfold standing at stands
  cases read : readings.account address with
  | error error =>
      rw [read] at stands
      cases stands
  | ok found =>
      rw [read] at stands
      cases stands
      exact ⟨found, rfl, rfl, rfl⟩

theorem standing_writeAccount (readings : Readings) (address other : Address)
    (account : Account) :
    (readings.writeAccount address (some account)).standing other =
      if address = other then .ok (account.nonce, account.code) else readings.standing other := by
  by_cases here : address = other <;> simp [standing, writeAccount, here, Except.map]

/-- Nonces and codes are as they were, but at some addresses. -/
structure Alters (addresses : Set Address) (before after : Readings) : Prop where
  base : after.base = before.base
  coherent : before.Coherent → after.Coherent
  standing : ∀ address ∉ addresses, after.standing address = before.standing address

/-- Codes are as they were, and nonces were counted up at some addresses. -/
structure Counts (addresses : Set Address) (before after : Readings) : Prop
    extends Alters addresses before after where
  grown : ∀ address nonce code, before.standing address = .ok (nonce, code) →
    ∃ later, nonce ≤ later ∧ after.standing address = .ok (later, code)

namespace Alters

theorem of_eq (same : after = before) : Alters addresses before after := by
  subst same
  exact ⟨rfl, id, fun _ _ => rfl⟩

theorem trans (first : Alters addresses before middle) (second : Alters addresses middle after) :
    Alters addresses before after :=
  ⟨second.base.trans first.base, fun coherent => second.coherent (first.coherent coherent),
    fun address outside => (second.standing address outside).trans
      (first.standing address outside)⟩

theorem mono (subset : addresses ⊆ more) (alters : Alters addresses before after) :
    Alters more before after :=
  ⟨alters.base, alters.coherent, fun address outside => alters.standing address (mt (subset ·) outside)⟩

theorem widen (alters : Alters ∅ before after) : Alters addresses before after :=
  alters.mono (Set.empty_subset _)

theorem stands (alters : Alters ∅ before after) (address : Address) :
    after.standing address = before.standing address :=
  alters.standing address (Set.notMem_empty address)

theorem touch (readings : Readings) (address : Address) :
    Alters ∅ readings (readings.touch address) :=
  ⟨rfl, fun coherent => coherent.touch address, fun _ _ => rfl⟩

theorem setStorage (readings : Readings) (address : Address) (slot value : Word) :
    Alters ∅ readings (readings.setStorage address slot value) :=
  ⟨rfl, fun coherent => coherent.setStorage address slot value, fun _ _ => rfl⟩

theorem clearStorage (readings : Readings) (address : Address) :
    Alters ∅ readings (readings.clearStorage address) :=
  ⟨rfl, fun coherent => coherent.clearStorage address, fun _ _ => rfl⟩

theorem writeAccount (readings : Readings) (address : Address) (account : Account) :
    Alters {address} readings (readings.writeAccount address (some account)) := by
  refine ⟨rfl, fun coherent => coherent.writeAccount address _, fun other outside => ?_⟩
  rw [standing_writeAccount, if_neg (Ne.symm outside)]

/-- An account was replaced by one with the same nonce and code. -/
theorem replace {found : Option Account} {account : Account}
    (read : readings.account address = .ok found) (nonce : account.nonce = (found.getD {}).nonce)
    (code : account.code = (found.getD {}).code) :
    Alters ∅ readings (readings.writeAccount address (some account)) := by
  refine ⟨rfl, fun coherent => coherent.writeAccount address _, fun other _ => ?_⟩
  rw [standing_writeAccount]
  split
  case isTrue here => rw [← here, standing_of_read read, nonce, code]
  case isFalse => rfl

end Alters

namespace Counts

theorem of_alters (alters : Alters ∅ before after) : Counts addresses before after :=
  ⟨alters.widen, fun address nonce _ stands =>
    ⟨nonce, UInt64.le_refl nonce, (alters.stands address).trans stands⟩⟩

theorem of_eq (same : after = before) : Counts addresses before after :=
  .of_alters (.of_eq same)

theorem trans (first : Counts addresses before middle) (second : Counts addresses middle after) :
    Counts addresses before after := by
  refine ⟨first.toAlters.trans second.toAlters, fun address nonce code stands => ?_⟩
  obtain ⟨later, grown, between⟩ := first.grown address nonce code stands
  obtain ⟨last, still, stands⟩ := second.grown address later code between
  exact ⟨last, UInt64.le_trans grown still, stands⟩

end Counts

end Readings

/-! ## Operations -/

namespace Journaled

open Readings

variable {world after : JournaledWorld} {address : Address}

theorem alters_modifyAccount {change : Account → Except StateError Account}
    (keeps : ∀ account changed, change account = .ok changed →
      changed.nonce = account.nonce ∧ changed.code = account.code)
    (ran : modifyAccount address change world = .ok () after) :
    Alters ∅ world.readings after.readings := by
  obtain ⟨found, changed, read, made, written⟩ := modifyAccount_ok ran
  obtain ⟨nonce, code⟩ := keeps (found.getD {}) changed made
  rw [written]
  exact .replace read nonce code

theorem alters_addBalance {amount : Word} (ran : addBalance address amount world = .ok () after) :
    Alters ∅ world.readings after.readings := by
  refine alters_modifyAccount (fun _ _ credited => ?_) ran
  obtain ⟨nonce, code, _⟩ := Account.credit_eq_ok credited
  exact ⟨nonce, code⟩

theorem alters_subBalance {amount : Word} (ran : subBalance address amount world = .ok () after) :
    Alters ∅ world.readings after.readings := by
  refine alters_modifyAccount (fun _ _ debited => ?_) ran
  obtain ⟨nonce, code, _⟩ := Account.debit_eq_ok debited
  exact ⟨nonce, code⟩

theorem alters_transfer {sender recipient : Address} {value : Word}
    (ran : transfer sender recipient value world = .ok () after) :
    Alters ∅ world.readings after.readings := by
  unfold transfer at ran
  split at ran
  · rw [(follows_touch recipient).modify_eq_ok ran]
    exact .touch world.readings recipient
  · obtain ⟨_, between, debited, credited⟩ := bind_eq_ok ran
    exact (alters_subBalance debited).trans (alters_addBalance credited)

theorem alters_setStorage {slot value : Word}
    (ran : setStorage address slot value world = .ok () after) :
    Alters ∅ world.readings after.readings := by
  rw [(follows_setStorage address slot value).modify_eq_ok ran]
  exact .setStorage world.readings address slot value

theorem counts_incrementNonce (ran : incrementNonce address world = .ok () after) :
    Counts {address} world.readings after.readings := by
  obtain ⟨found, counted, read, counts, written⟩ := modifyAccount_ok ran
  obtain ⟨nonce, code, _⟩ := Account.countUp_eq_ok counts
  rw [written]
  refine ⟨.writeAccount _ address counted, fun other before current stands => ?_⟩
  rw [standing_writeAccount]
  split
  case isFalse => exact ⟨before, UInt64.le_refl before, stands⟩
  case isTrue here =>
    subst here
    cases (standing_of_read read).symm.trans stands
    exact ⟨counted.nonce, UInt64.le_iff_toNat_le.mpr (by omega), by rw [code]⟩

/-- Code is installed in place of what was there, and the nonce stays. -/
theorem setCode_ok {code : Code} (ran : setCode address code world = .ok () after) :
    Alters {address} world.readings after.readings ∧
      ∃ nonce former, world.readings.standing address = .ok (nonce, former) ∧
        after.readings.standing address = .ok (nonce, code) := by
  obtain ⟨found, changed, read, made, written⟩ := modifyAccount_ok ran
  cases made
  rw [written]
  refine ⟨.writeAccount _ address _, _, _, standing_of_read read, ?_⟩
  rw [standing_writeAccount, if_pos rfl]

theorem createContract_ok (ran : createContract address world = .ok () after) :
    Alters {address} world.readings after.readings ∧
      after.readings.standing address = .ok (1, Code.empty) := by
  obtain ⟨_, _, written⟩ := createContract_eq_ok ran
  rw [written]
  refine ⟨(Alters.clearStorage _ address).widen.trans (.writeAccount _ address _), ?_⟩
  rw [standing_writeAccount, if_pos rfl]

/-- Something stands in the way of a deployment wherever there is a nonce or code. -/
theorem blocksDeployment_ok {isTaken : Bool}
    (asked : blocksDeployment address world = .ok isTaken after) :
    after.readings = world.readings ∧
      (isTaken = false ↔ world.readings.standing address = .ok (0, Code.empty)) := by
  obtain ⟨found, read, rfl, same⟩ :=
    question_ok (fun account => account.any Account.blocksDeployment) asked
  refine ⟨same, ?_⟩
  rw [Account.blocksDeployment_eq_false, standing_of_read read, Except.ok.injEq, Prod.mk.injEq]

theorem answer_question {Value : Type} (question : Option Account → Value) (address : Address)
    (world : JournaledWorld) :
    (do return question (← account address) : Journaled Value).answer world =
      (world.readings.account address).map question := by
  cases read : world.readings.account address with
  | error error =>
      obtain ⟨_, failed⟩ := (follows_account address).ask_error read
      rw [answer, run_bind_error failed]
      rfl
  | ok found =>
      obtain ⟨_, answered, _⟩ := run_question question read
      rw [answer, answered]
      rfl

theorem answer_balance (address : Address) (world : JournaledWorld) :
    (balance address).answer world =
      (world.readings.account address).map fun account => (account.getD {}).balance :=
  answer_question (fun account => (account.getD {}).balance) address world

theorem answer_nonce (address : Address) (world : JournaledWorld) :
    (nonce address).answer world = (world.readings.standing address).map Prod.fst := by
  refine (answer_question (fun account => (account.getD {}).nonce) address world).trans ?_
  unfold standing
  cases world.readings.account address <;> rfl

theorem answer_code (address : Address) (world : JournaledWorld) :
    (code address).answer world = (world.readings.standing address).map Prod.snd := by
  refine (answer_question (fun account => (account.getD {}).code) address world).trans ?_
  unfold standing
  cases world.readings.account address <;> rfl

end Journaled

end ExecutionLayer
