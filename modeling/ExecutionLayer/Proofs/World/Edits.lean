import ExecutionLayer.Proofs.World.Standing

/-!
# Edits

What frames do to a world before its transaction ends, one write at a time. No account is
removed by then, and slots are written only for the account that code runs for. So whatever
such writes keep, from an account that is there for its slots, holds over a whole run.
-/

set_option autoImplicit false

namespace ExecutionLayer

namespace Readings

variable {before middle after : Readings} {owners : Set Address} {address : Address}

/-- There is an account at the address. -/
def Has (readings : Readings) (address : Address) : Prop :=
  ∃ account, readings.account address = .ok (some account)

theorem has_writeAccount (readings : Readings) (address : Address) (account : Account) :
    (readings.writeAccount address (some account)).Has address :=
  ⟨account, if_pos rfl⟩

/-- Where there is code there is an account. -/
theorem has_of_standing {readings : Readings} {nonce : UInt64} {code : Code}
    (stands : readings.standing address = .ok (nonce, code)) (written : code.isEmpty = false) :
    readings.Has address := by
  obtain ⟨found, read, _, rfl⟩ := standing_eq_ok stands
  cases found with
  | none => cases written
  | some account => exact ⟨account, read⟩

theorem has_of_nonce {readings : Readings} {nonce : UInt64} {code : Code}
    (stands : readings.standing address = .ok (nonce, code)) (counted : nonce ≠ 0) :
    readings.Has address := by
  obtain ⟨found, read, rfl, _⟩ := standing_eq_ok stands
  cases found with
  | none => exact absurd rfl counted
  | some account => exact ⟨account, read⟩

/-- Any number of writes, where slots are written of some accounts only. -/
inductive Edits (owners : Set Address) (before : Readings) : Readings → Prop where
  | refl : Edits owners before before
  | touch {middle : Readings} (earlier : Edits owners before middle) (address : Address) :
      Edits owners before (middle.touch address)
  | write {middle : Readings} (earlier : Edits owners before middle) (address : Address)
      (account : Account) : Edits owners before (middle.writeAccount address (some account))
  | found {middle : Readings} (earlier : Edits owners before middle) (address : Address)
      (account : Account) :
      Edits owners before ((middle.clearStorage address).writeAccount address (some account))
  | store {middle : Readings} (earlier : Edits owners before middle) {owner : Address}
      (own : owner ∈ owners) (slot value : Word) :
      Edits owners before (middle.setStorage owner slot value)

/-- A property of readings that no write breaks, where slots are written of accounts that
are there. -/
structure Lasting (property : Readings → Prop) : Prop where
  touch : ∀ {readings}, property readings → ∀ address, property (readings.touch address)
  write : ∀ {readings}, property readings → ∀ address account,
    property (readings.writeAccount address (some account))
  found : ∀ {readings}, property readings → ∀ address account,
    property ((readings.clearStorage address).writeAccount address (some account))
  store : ∀ {readings}, property readings → ∀ {address}, readings.Has address →
    ∀ slot value, property (readings.setStorage address slot value)

namespace Edits

theorem of_eq (same : after = before) : Edits owners before after :=
  same ▸ .refl

theorem trans (first : Edits owners before middle) (second : Edits owners middle after) :
    Edits owners before after := by
  induction second with
  | refl => exact first
  | touch _ address ih => exact ih.touch address
  | write _ address account ih => exact ih.write address account
  | found _ address account ih => exact ih.found address account
  | store _ own slot value ih => exact ih.store own slot value

theorem widen (edits : Edits ∅ before after) : Edits owners before after := by
  induction edits with
  | refl => exact .refl
  | touch _ address ih => exact ih.touch address
  | write _ address account ih => exact ih.write address account
  | found _ address account ih => exact ih.found address account
  | store _ own => exact absurd own (Set.notMem_empty _)

/-- An account that is there stays, whoever writes. -/
theorem has (edits : Edits owners before after) (has : before.Has address) : after.Has address := by
  have written {readings : Readings} (has : readings.Has address) (other : Address)
      (account : Account) : (readings.writeAccount other (some account)).Has address := by
    by_cases here : other = address
    · exact here ▸ has_writeAccount readings other account
    · obtain ⟨held, read⟩ := has
      exact ⟨held, (if_neg here).trans read⟩
  induction edits with
  | refl => exact has
  | touch _ _ ih => exact ih
  | write _ other account ih => exact written ih other account
  | found _ other account ih => exact written ih other account
  | store _ _ _ _ ih => exact ih

theorem lasting {property : Readings → Prop} (edits : Edits owners before after)
    (lasts : Lasting property) (has : ∀ owner ∈ owners, before.Has owner)
    (holds : property before) : property after := by
  induction edits with
  | refl => exact holds
  | touch _ address ih => exact lasts.touch ih address
  | write _ address account ih => exact lasts.write ih address account
  | found _ address account ih => exact lasts.found ih address account
  | store earlier own slot value ih =>
      exact lasts.store ih (earlier.has (has _ own)) slot value

end Edits

theorem Lasting.and {left right : Readings → Prop} (lastsLeft : Lasting left)
    (lastsRight : Lasting right) : Lasting fun readings => left readings ∧ right readings where
  touch holds address := ⟨lastsLeft.touch holds.1 address, lastsRight.touch holds.2 address⟩
  write holds address account :=
    ⟨lastsLeft.write holds.1 address account, lastsRight.write holds.2 address account⟩
  found holds address account :=
    ⟨lastsLeft.found holds.1 address account, lastsRight.found holds.2 address account⟩
  store holds _ has slot value :=
    ⟨lastsLeft.store holds.1 has slot value, lastsRight.store holds.2 has slot value⟩

theorem lasting_coherent : Lasting Coherent where
  touch coherent address := coherent.touch address
  write coherent address account := coherent.writeAccount address (some account)
  found coherent address account :=
    (coherent.clearStorage address).writeAccount address (some account)
  store coherent address _ slot value := coherent.setStorage address slot value

theorem lasting_base (view : WorldView) : Lasting (·.base = view) where
  touch based _ := based
  write based _ _ := based
  found based _ _ := based
  store based _ _ _ _ := based

end Readings

/-! ## Operations -/

namespace Journaled

open JournaledWorld Readings

variable {world after : JournaledWorld} {owners : Set Address} {owner address : Address}

theorem edits_modifyAccount {change : Account → Except StateError Account}
    (ran : modifyAccount address change world = .ok () after) :
    Edits owners world.readings after.readings := by
  obtain ⟨_, changed, _, _, written⟩ := modifyAccount_ok ran
  rw [written]
  exact .write .refl address changed

theorem edits_transfer {sender recipient : Address} {value : Word}
    (ran : transfer sender recipient value world = .ok () after) :
    Edits owners world.readings after.readings := by
  unfold transfer at ran
  split at ran
  · rw [(follows_touch recipient).modify_eq_ok ran]
    exact .touch .refl recipient
  · obtain ⟨_, between, debited, credited⟩ := bind_eq_ok ran
    exact (edits_modifyAccount debited).trans (edits_modifyAccount credited)

theorem edits_createContract (ran : createContract address world = .ok () after) :
    Edits owners world.readings after.readings := by
  obtain ⟨_, _, written⟩ := createContract_eq_ok ran
  rw [written]
  exact .found .refl address _

theorem edits_setStorage {slot value : Word} (own : owner ∈ owners)
    (ran : setStorage owner slot value world = .ok () after) :
    Edits owners world.readings after.readings := by
  rw [(follows_setStorage owner slot value).modify_eq_ok ran]
  exact .store .refl own slot value

end Journaled

end ExecutionLayer
