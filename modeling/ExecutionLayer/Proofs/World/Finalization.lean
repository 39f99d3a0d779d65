import ExecutionLayer.Proofs.World.Commitment
import ExecutionLayer.Proofs.World.Conservation

/-!
# The end of a transaction

Destroyed accounts are deleted, and so are those touched accounts that are left empty. All
others stay as they are.
-/

set_option autoImplicit false

namespace ExecutionLayer

namespace Readings

variable {readings before after : Readings} {address other : Address} {addresses : List Address}

/-- There is an account, without nonce, balance and code. -/
def EmptyAt (readings : Readings) (address : Address) : Prop :=
  ∃ account, readings.account address = .ok (some account) ∧ account.isEmpty = true

theorem not_emptyAt {found : Option Account} (read : readings.account address = .ok found)
    (present : found.any Account.isEmpty = false) : ¬readings.EmptyAt address := by
  rintro ⟨account, same, isEmpty⟩
  cases read.symm.trans same
  rw [Option.any_some, isEmpty] at present
  cases present

theorem account_deleteAccount :
    (readings.deleteAccount address).account other =
      if address = other then .ok none else readings.account other := rfl

theorem slot_deleteAccount (slot : Word) :
    (readings.deleteAccount address).slot other slot =
      if address = other then .ok 0 else readings.slot other slot := rfl

theorem emptyAt_deleteAccount :
    (readings.deleteAccount address).EmptyAt other ↔
      address ≠ other ∧ readings.EmptyAt other := by
  unfold EmptyAt
  rw [account_deleteAccount]
  by_cases here : address = other <;> simp [here]

/-- Those of the accounts that were empty are gone, with their slots. -/
structure Swept (addresses : List Address) (before after : Readings) : Prop where
  coherent : before.Coherent → after.Coherent
  gone : ∀ address ∈ addresses, before.EmptyAt address →
    after.account address = .ok none ∧ ∀ slot, after.slot address slot = .ok 0
  kept : ∀ address, ¬(address ∈ addresses ∧ before.EmptyAt address) →
    after.account address = before.account address ∧
      ∀ slot, after.slot address slot = before.slot address slot

theorem Swept.skip (occupied : ¬before.EmptyAt address) (swept : Swept addresses before after) :
    Swept (address :: addresses) before after := by
  refine ⟨swept.coherent, ?_, ?_⟩
  · intro other member isEmpty
    rcases List.mem_cons.mp member with rfl | later
    · exact absurd isEmpty occupied
    · exact swept.gone other later isEmpty
  · intro other stays
    exact swept.kept other fun ⟨later, isEmpty⟩ => stays ⟨by simp [later], isEmpty⟩

theorem Swept.delete (isEmpty : before.EmptyAt address)
    (swept : Swept addresses (before.deleteAccount address) after) :
    Swept (address :: addresses) before after := by
  have goneHere := swept.kept address fun ⟨_, still⟩ => (emptyAt_deleteAccount.mp still).1 rfl
  rw [account_deleteAccount, if_pos rfl] at goneHere
  simp only [slot_deleteAccount, if_pos] at goneHere
  refine ⟨fun coherent => swept.coherent (coherent.deleteAccount address), ?_, ?_⟩
  · intro other member isEmptyOther
    by_cases here : address = other
    · exact here ▸ goneHere
    · have later := (List.mem_cons.mp member).resolve_left (Ne.symm here)
      exact swept.gone other later (emptyAt_deleteAccount.mpr ⟨here, isEmptyOther⟩)
  · intro other stays
    have elsewhere : address ≠ other := by
      rintro rfl
      exact stays ⟨by simp, isEmpty⟩
    have kept := swept.kept other fun ⟨later, still⟩ =>
      stays ⟨by simp [later], (emptyAt_deleteAccount.mp still).2⟩
    rw [account_deleteAccount, if_neg elsewhere] at kept
    simp only [slot_deleteAccount, if_neg elsewhere] at kept
    exact kept

theorem account_foldl_deleteAccount (absent : address ∉ addresses) :
    (addresses.foldl deleteAccount readings).account address = readings.account address := by
  induction addresses generalizing readings with
  | nil => rfl
  | cons first rest ih =>
      rw [List.mem_cons, not_or] at absent
      rw [List.foldl_cons, ih absent.2, account_deleteAccount, if_neg (Ne.symm absent.1)]

theorem Coherent.foldl_deleteAccount (coherent : readings.Coherent) (addresses : List Address) :
    (addresses.foldl Readings.deleteAccount readings).Coherent := by
  induction addresses generalizing readings with
  | nil => exact coherent
  | cons first rest ih => exact ih (coherent.deleteAccount first)

end Readings

theorem Observed.deleteEmptyAccounts_ok {addresses : List Address} {before after : Readings}
    (ran : Observed.deleteEmptyAccounts addresses before = .ok () after) :
    Readings.Swept addresses before after := by
  induction addresses generalizing before with
  | nil =>
      cases ran
      exact ⟨id, by simp, fun _ _ => ⟨rfl, fun _ => rfl⟩⟩
  | cons address rest ih =>
      obtain ⟨found, asked, reading, later⟩ := sequence_eq_ok ran
      obtain ⟨read, rfl⟩ := Observed.ask_eq_ok reading
      by_cases isEmpty : found.any Account.isEmpty = true
      · rw [if_pos isEmpty] at later
        obtain ⟨account, rfl, isEmpty⟩ := (Option.any_eq_true _ _).mp isEmpty
        exact (ih later).delete ⟨account, read, isEmpty⟩
      · rw [if_neg isEmpty] at later
        exact (ih later).skip (Readings.not_emptyAt read (by simpa using isEmpty))

namespace Journaled

/-- Nothing but empty accounts goes after the destroyed ones. -/
theorem finalize_ok {destroyed : Std.ExtTreeSet Address} {world after : JournaledWorld}
    (ran : finalize destroyed world = .ok () after) :
    Readings.Swept (destroyed.toList.foldl Readings.deleteAccount world.readings).touched.toList
      (destroyed.toList.foldl Readings.deleteAccount world.readings) after.readings ∧
      JournaledWorld.Continues world after := by
  obtain ⟨finalized, continues⟩ := (follows_finalize destroyed).run_ok ran
  obtain ⟨_, deleted, deleting, finalized⟩ := sequence_eq_ok finalized
  cases deleting
  exact ⟨Observed.deleteEmptyAccounts_ok finalized, continues⟩

/-- An account that is neither destroyed nor empty outlives the transaction. -/
theorem finalize_account {destroyed : Std.ExtTreeSet Address} {world after : JournaledWorld}
    {address : Address} {found : Option Account}
    (ran : finalize destroyed world = .ok () after)
    (spared : address ∉ destroyed)
    (read : world.readings.account address = .ok found)
    (present : found.any Account.isEmpty = false) :
    after.readings.account address = .ok found := by
  obtain ⟨swept, _⟩ := finalize_ok ran
  have absent : address ∉ destroyed.toList := mt Std.ExtTreeSet.mem_toList.mp spared
  have same := (Readings.account_foldl_deleteAccount absent).trans read
  have kept := swept.kept address fun ⟨_, isEmpty⟩ => Readings.not_emptyAt same present isEmpty
  exact kept.1.trans same

theorem finalize_coherent {destroyed : Std.ExtTreeSet Address} {world after : JournaledWorld}
    (ran : finalize destroyed world = .ok () after) (coherent : world.readings.Coherent) :
    after.readings.Coherent :=
  (finalize_ok ran).1.coherent (coherent.foldl_deleteAccount _)

end Journaled

end ExecutionLayer
