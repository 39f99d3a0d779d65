import ExecutionLayer.Proofs.World.Edits
import ExecutionLayer.Proofs.World.Effects
import ExecutionLayer.Proofs.World.Finalization

/-!
# Cleared accounts

Every account that was written is touched, at every point of a transaction, and none is removed
before its end. So the sweep at the end finds all that are left empty, and what is removed goes
with its storage.
-/

set_option autoImplicit false

namespace ExecutionLayer

namespace Readings

variable {readings before after : Readings} {address other : Address} {addresses : List Address}
  {marks more : Address → Prop}

/-! ## Before the end -/

/-- All accounts that were written are touched, and none was removed. -/
structure Marked (readings : Readings) : Prop where
  coherent : readings.Coherent
  touched : ∀ {address found}, readings.writtenAccount address = some found →
    address ∈ readings.touched
  present : ∀ address, readings.writtenAccount address ≠ some none

theorem Marked.ofView (view : WorldView) : Marked (.ofView view) :=
  ⟨.ofView view, nofun, nofun⟩

theorem Marked.writeAccount (marked : readings.Marked) (address : Address) (account : Account) :
    (readings.writeAccount address (some account)).Marked := by
  refine ⟨marked.coherent.writeAccount address _, fun {other found} written => ?_, fun other => ?_⟩
  · apply Std.ExtTreeSet.mem_insert.mpr
    by_cases here : address = other
    · exact .inl (Std.compare_eq_iff_eq.mpr here)
    · exact .inr (marked.touched ((if_neg here).symm.trans written))
  · by_cases here : address = other
    · simp [Readings.writeAccount, here]
    · simpa [Readings.writeAccount, here] using marked.present other

theorem lasting_marked : Lasting Marked where
  touch marked address :=
    ⟨marked.coherent.touch address,
      fun written => Std.ExtTreeSet.mem_insert.mpr (.inr (marked.touched written)), marked.present⟩
  write marked address account := marked.writeAccount address account
  found marked address account :=
    Marked.writeAccount ⟨marked.coherent.clearStorage address, marked.touched, marked.present⟩
      address account
  store marked _ _ slot value :=
    ⟨marked.coherent.setStorage _ slot value, marked.touched, marked.present⟩

/-! ## Removals -/

/-- All slots of the account were forgotten, and none was written since. -/
structure Wiped (readings : Readings) (address : Address) : Prop where
  cleared : address ∈ readings.cleared
  unwritten : ∀ slot, readings.writtenSlot address slot = none

/-- The accounts that were written are among the marked ones, and those that were removed are
wiped. -/
structure Culled (marks : Address → Prop) (readings : Readings) : Prop where
  coherent : readings.Coherent
  marked : ∀ {address found}, readings.writtenAccount address = some found → marks address
  wiped : ∀ {address}, readings.writtenAccount address = some none → readings.Wiped address

theorem Marked.culled (marked : readings.Marked) : Culled (· ∈ readings.touched) readings :=
  ⟨marked.coherent, marked.touched, fun {address} gone => absurd gone (marked.present address)⟩

namespace Culled

theorem mono (culled : Culled marks readings) (weaken : ∀ address, marks address → more address) :
    Culled more readings :=
  ⟨culled.coherent, fun written => weaken _ (culled.marked written), culled.wiped⟩

theorem delete (culled : Culled marks readings) (marked : marks address) :
    Culled marks (readings.deleteAccount address) := by
  refine ⟨culled.coherent.deleteAccount address, fun {other found} written => ?_,
    fun {other} gone => ⟨?_, fun slot => ?_⟩⟩
  · by_cases here : address = other
    · exact here ▸ marked
    · exact culled.marked ((if_neg here).symm.trans written)
  · apply Std.ExtTreeSet.mem_insert.mpr
    by_cases here : address = other
    · exact .inl (Std.compare_eq_iff_eq.mpr here)
    · exact .inr (culled.wiped ((if_neg here).symm.trans gone)).cleared
  · by_cases here : address = other
    · exact if_pos here
    · exact (if_neg here).trans ((culled.wiped ((if_neg here).symm.trans gone)).unwritten slot)

/-- Removals touch what they remove. -/
theorem foldl_deleteAccount (culled : Culled (· ∈ readings.touched) readings)
    (addresses : List Address) :
    Culled (· ∈ (addresses.foldl deleteAccount readings).touched)
      (addresses.foldl deleteAccount readings) := by
  induction addresses generalizing readings with
  | nil => exact culled
  | cons address rest ih =>
      have marks (other : Address) (touched : other ∈ readings.touched) :
          other ∈ (readings.deleteAccount address).touched :=
        Std.ExtTreeSet.mem_insert.mpr (.inr touched)
      exact ih ((culled.mono marks).delete Std.ExtTreeSet.mem_insert_self)

end Culled

/-- No account that was written is empty, and those that were removed are wiped. -/
structure Cleared (readings : Readings) : Prop where
  occupied : ∀ {address account}, readings.writtenAccount address = some (some account) →
    account.isEmpty = false
  wiped : ∀ {address}, readings.writtenAccount address = some none → readings.Wiped address

/-- Once the marked accounts are swept, none that was written is left empty. -/
theorem Swept.cleared (swept : Swept addresses before after)
    (culled : Culled (· ∈ addresses) after) : after.Cleared := by
  refine ⟨fun {address account} written => ?_, culled.wiped⟩
  have read : after.account address = .ok (some account) := by
    rw [culled.coherent.account, written]
  cases isEmpty : account.isEmpty with
  | false => rfl
  | true =>
      have member := culled.marked written
      by_cases wasEmpty : before.EmptyAt address
      · cases read.symm.trans (swept.gone address member wasEmpty).1
      · have same := (swept.kept address fun stays => wasEmpty stays.2).1
        exact absurd ⟨account, same.symm.trans read, isEmpty⟩ wasEmpty

end Readings

theorem Observed.culled_deleteEmptyAccounts {marks : Address → Prop} {addresses : List Address}
    {before after : Readings} (culled : Readings.Culled marks before)
    (marked : ∀ address ∈ addresses, marks address)
    (ran : Observed.deleteEmptyAccounts addresses before = .ok () after) :
    Readings.Culled marks after := by
  induction addresses generalizing before with
  | nil =>
      cases ran
      exact culled
  | cons address rest ih =>
      obtain ⟨here, others⟩ := List.forall_mem_cons.mp marked
      obtain ⟨found, asked, reading, later⟩ := sequence_eq_ok ran
      obtain ⟨_, rfl⟩ := Observed.ask_eq_ok reading
      split at later
      · exact ih (culled.delete here) others later
      · exact ih culled others later

/-! ## The end of a transaction -/

namespace Journaled

/-- The sweep reaches every account that was written. -/
theorem finalize_cleared {destroyed : Std.ExtTreeSet Address} {world after : JournaledWorld}
    (ran : finalize destroyed world = .ok () after) (marked : world.readings.Marked) :
    after.readings.Cleared := by
  obtain ⟨swept, _⟩ := finalize_ok ran
  obtain ⟨finalized, _⟩ := (follows_finalize destroyed).run_ok ran
  obtain ⟨_, deleted, deleting, sweeping⟩ := sequence_eq_ok finalized
  cases deleting
  have culled := (marked.culled.foldl_deleteAccount destroyed.toList).mono
    fun _ => Std.ExtTreeSet.mem_toList.mpr
  exact swept.cleared (Observed.culled_deleteEmptyAccounts culled (fun _ => id) sweeping)

end Journaled

end ExecutionLayer
