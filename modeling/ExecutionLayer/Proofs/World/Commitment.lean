import ExecutionLayer.Proofs.Results
import ExecutionLayer.Proofs.World.Merging
import ExecutionLayer.Proofs.World.Rollback
import ExecutionLayer.World.Store

/-!
# What gets committed

A journaled world shows what its effects make of the base. The invariant that carries this
speaks of every place in the journal, since going back may end at any of them, also within
what one operation wrote.
-/

set_option autoImplicit false

namespace ExecutionLayer

open JournaledWorld

/-! ## Coherent readings -/

/-- Every account and slot reads as it was written, or as the base has it, where the slots
of a cleared account are zero in the base. -/
structure Readings.Coherent (readings : Readings) : Prop where
  account : ∀ address, readings.account address =
    match readings.writtenAccount address with
    | some account => .ok account
    | none => readings.base.account address
  slot : ∀ address slot, readings.slot address slot =
    match readings.writtenSlot address slot with
    | some value => .ok value
    | none => readings.original address slot

namespace Readings.Coherent

variable {readings : Readings}

theorem ofView (view : WorldView) : Coherent (.ofView view) := by
  refine ⟨fun _ => rfl, fun address slot => ?_⟩
  simp [Readings.ofView, original]

theorem touch (coherent : readings.Coherent) (address : Address) :
    (readings.touch address).Coherent :=
  ⟨coherent.account, coherent.slot⟩

theorem writeAccount (coherent : readings.Coherent) (address : Address)
    (account : Option Account) : (readings.writeAccount address account).Coherent := by
  refine ⟨fun other => ?_, coherent.slot⟩
  have before := coherent.account other
  by_cases here : address = other <;> simp [Readings.writeAccount, here, before]

theorem clearStorage (coherent : readings.Coherent) (address : Address) :
    (readings.clearStorage address).Coherent := by
  refine ⟨coherent.account, fun other slot => ?_⟩
  have before := coherent.slot other slot
  by_cases here : address = other <;>
    simp [Readings.clearStorage, original, here, before, Std.ExtTreeSet.contains_insert]

theorem deleteAccount (coherent : readings.Coherent) (address : Address) :
    (readings.deleteAccount address).Coherent :=
  (coherent.clearStorage address).writeAccount address none

theorem setStorage (coherent : readings.Coherent) (address : Address) (slot value : Word) :
    (readings.setStorage address slot value).Coherent := by
  refine ⟨coherent.account, fun other otherSlot => ?_⟩
  have before := coherent.slot other otherSlot
  by_cases here : address = other ∧ slot = otherSlot
  · simp [Readings.setStorage, here]
  · simp only [Readings.setStorage, if_neg here]
    exact before

end Readings.Coherent

/-! ## Coherent worlds -/

namespace JournaledWorld

/-- The readings are coherent at every place in the journal. -/
def Coherent (world : JournaledWorld) : Prop :=
  ∀ writes, (world.undoLast writes).readings.Coherent

theorem Coherent.readings {world : JournaledWorld} (coherent : world.Coherent) :
    world.readings.Coherent :=
  coherent 0

theorem coherent_ofView (view : WorldView) : Coherent { base := view } := by
  intro writes
  have untouched : undoLast { base := view } writes = { base := view } := by
    cases writes <;> rfl
  rw [untouched, readings_ofView]
  exact .ofView view

theorem Coherent.undoLast {world : JournaledWorld} (coherent : world.Coherent) (writes : Nat) :
    (world.undoLast writes).Coherent := by
  intro more
  rw [← undoLast_add]
  exact coherent (writes + more)

/-- Between a world and one that wrote at most once there is no other place in the journal. -/
theorem Coherent.continue {before after : JournaledWorld} (coherent : before.Coherent)
    (continues : Continues before after) (short : after.journal.length ≤ before.journal.length + 1)
    (readings : after.readings.Coherent) : after.Coherent := by
  obtain ⟨writes, length, toBefore⟩ := continues
  intro undone
  rcases Nat.lt_or_ge undone writes with inside | beyond
  · obtain rfl : undone = 0 := by omega
    exact readings
  · obtain ⟨more, rfl⟩ := Nat.exists_eq_add_of_le beyond
    rw [undoLast_add, (toBefore.undoLast more).readings]
    exact coherent more

end JournaledWorld

/-! ## Operations -/

namespace Journaled

variable {Value Result : Type}

/-- The operation leads from coherent worlds to coherent ones, also where it fails. -/
def KeepsCoherent (operation : Journaled Value) : Prop :=
  ∀ world, world.Coherent → (operation.after world).Coherent

namespace KeepsCoherent

theorem pure (value : Value) : KeepsCoherent (Pure.pure value) :=
  fun _ coherent => coherent

theorem bind {operation : Journaled Value} {next : Value → Journaled Result}
    (first : KeepsCoherent operation) (second : ∀ value, KeepsCoherent (next value)) :
    KeepsCoherent (operation >>= next) := by
  intro world coherent
  have middle := first world coherent
  cases ran : operation world with
  | error error stopped =>
      rw [Journaled.after, ran] at middle
      rwa [Journaled.after, run_bind_error ran]
  | ok value reached =>
      rw [Journaled.after, ran] at middle
      rw [Journaled.after, run_bind_ok ran, ← Journaled.after]
      exact second value reached middle

theorem ite {condition : Prop} [Decidable condition] {left right : Journaled Value}
    (whenTrue : KeepsCoherent left) (whenFalse : KeepsCoherent right) :
    KeepsCoherent (if condition then left else right) := by
  split
  · exact whenTrue
  · exact whenFalse

end KeepsCoherent

/-- An operation that writes at most once keeps worlds coherent if its model does. -/
theorem Follows.keepsCoherent {operation : Journaled Value} {model : Observed Value}
    (follows : Follows operation model)
    (short : ∀ world, (operation.after world).journal.length ≤ world.journal.length + 1)
    (keeps : ∀ readings, readings.Coherent →
      match model readings with
      | .ok _ after => after.Coherent
      | .error _ after => after.Coherent) : KeepsCoherent operation := by
  intro world coherent
  refine coherent.continue (follows.continues_after world) (short world) ?_
  have ran := follows world
  have kept := keeps world.readings coherent.readings
  cases answer : model world.readings with
  | ok value readings =>
      rw [answer] at ran kept
      obtain ⟨after, succeeded, rfl, _⟩ := ran
      rwa [Journaled.after, succeeded]
  | error error readings =>
      rw [answer] at ran kept
      obtain ⟨after, failed, rfl, _⟩ := ran
      rwa [Journaled.after, failed]

/-- An operation that only answers keeps worlds coherent. -/
theorem Follows.keepsCoherent_ask {operation : Journaled Value}
    {question : Readings → Except StateError Value} (follows : Follows operation (.ask question))
    (silent : ∀ world, (operation.after world).journal = world.journal) :
    KeepsCoherent operation := by
  refine follows.keepsCoherent (fun world => by rw [silent]; exact Nat.le_succ _) ?_
  intro readings coherent
  unfold Observed.ask
  cases question readings <;> exact coherent

private theorem after_get_bind (next : JournaledWorld → Journaled Value) (world : JournaledWorld) :
    (get >>= next : Journaled Value).after world = (next world).after world := rfl

theorem keepsCoherent_account (address : Address) : KeepsCoherent (account address) := by
  refine (follows_account address).keepsCoherent_ask fun world => ?_
  rw [account, after_get_bind]
  cases world.accounts[address]? with
  | some cached => rfl
  | none =>
      cases world.base.account address <;> rfl

theorem keepsCoherent_storage (address : Address) (slot : Word) :
    KeepsCoherent (storage address slot) := by
  refine (follows_storage address slot).keepsCoherent_ask fun world => ?_
  rw [storage, after_get_bind]
  cases (world.storage.getD address ∅)[slot]? with
  | some cached => rfl
  | none =>
      cases world.cleared.contains address with
      | true => rfl
      | false => cases world.base.storage address slot <;> rfl

theorem keepsCoherent_originalStorage (address : Address) (slot : Word) :
    KeepsCoherent (originalStorage address slot) := by
  refine (follows_originalStorage address slot).keepsCoherent_ask fun world => ?_
  rw [originalStorage, after_get_bind]
  split
  · rfl
  · cases world.base.storage address slot <;> rfl

theorem keepsCoherent_lift (result : Except StateError Value) : KeepsCoherent (lift result) := by
  intro world coherent
  cases result <;> exact coherent

theorem keepsCoherent_question (question : Option Account → Value) (address : Address) :
    KeepsCoherent (do return question (← account address)) :=
  (keepsCoherent_account address).bind fun _ => .pure _

theorem keepsCoherent_touch (address : Address) : KeepsCoherent (touch address) := by
  refine (follows_touch address).keepsCoherent (fun world => ?_)
    fun readings coherent => coherent.touch address
  change (if world.touched.contains address then world else _).journal.length ≤ _
  split
  · exact Nat.le_succ _
  · exact Nat.le_refl _

theorem keepsCoherent_writeAccount (address : Address) (account : Option Account) :
    KeepsCoherent (writeAccount address account) := by
  refine KeepsCoherent.bind ?_ fun _ => keepsCoherent_touch address
  refine (follows_replaceAccount address account).keepsCoherent (fun world => Nat.le_refl _) ?_
  intro readings coherent
  exact ⟨(coherent.writeAccount address account).account, coherent.slot⟩

theorem keepsCoherent_modifyAccount (address : Address)
    (change : Account → Except StateError Account) :
    KeepsCoherent (modifyAccount address change) :=
  (keepsCoherent_account address).bind fun _ =>
    (keepsCoherent_lift _).bind fun changed => keepsCoherent_writeAccount address (some changed)

theorem keepsCoherent_transfer (sender recipient : Address) (value : Word) :
    KeepsCoherent (transfer sender recipient value) :=
  .ite (keepsCoherent_touch recipient)
    ((keepsCoherent_modifyAccount sender _).bind fun _ => keepsCoherent_modifyAccount recipient _)

theorem keepsCoherent_clearStorage (address : Address) : KeepsCoherent (clearStorage address) :=
  (follows_clearStorage address).keepsCoherent (fun _ => Nat.le_refl _)
    fun _ coherent => coherent.clearStorage address

theorem keepsCoherent_createContract (address : Address) :
    KeepsCoherent (createContract address) :=
  (keepsCoherent_question (fun account => (account.getD {}).balance) address).bind fun _ =>
    (keepsCoherent_clearStorage address).bind fun _ => keepsCoherent_writeAccount address _

theorem keepsCoherent_setStorage (address : Address) (slot value : Word) :
    KeepsCoherent (setStorage address slot value) :=
  (follows_setStorage address slot value).keepsCoherent (fun _ => Nat.le_refl _)
    fun _ coherent => coherent.setStorage address slot value

theorem keepsCoherent_deleteAccount (address : Address) : KeepsCoherent (deleteAccount address) :=
  (keepsCoherent_clearStorage address).bind fun _ => keepsCoherent_writeAccount address none

theorem keepsCoherent_deleteAccounts (addresses : List Address) :
    KeepsCoherent (deleteAccounts addresses) := by
  induction addresses with
  | nil => exact .pure ()
  | cons address rest ih => exact (keepsCoherent_deleteAccount address).bind fun _ => ih

theorem keepsCoherent_deleteEmptyAccounts (addresses : List Address) :
    KeepsCoherent (deleteEmptyAccounts addresses) := by
  induction addresses with
  | nil => exact .pure ()
  | cons address rest ih =>
      refine (keepsCoherent_account address).bind fun _ => ?_
      exact .ite ((keepsCoherent_deleteAccount address).bind fun _ => ih) ih

theorem keepsCoherent_finalize (destroyed : Std.ExtTreeSet Address) :
    KeepsCoherent (finalize destroyed) := by
  refine (keepsCoherent_deleteAccounts destroyed.toList).bind fun _ world coherent => ?_
  exact keepsCoherent_deleteEmptyAccounts world.touched.toList world coherent

end Journaled

/-! ## Sessions -/

open Journaled in
theorem WorldAccess.coherent_after (access : WorldAccess) {world : JournaledWorld}
    (coherent : world.Coherent) : (access.after world).Coherent := by
  cases access with
  | account address => exact keepsCoherent_account address world coherent
  | isPresent address => exact keepsCoherent_question _ address world coherent
  | isEmptyOrAbsent address => exact keepsCoherent_question _ address world coherent
  | blocksDeployment address => exact keepsCoherent_question _ address world coherent
  | balance address =>
      exact keepsCoherent_question (fun account => (account.getD {}).balance) address world coherent
  | nonce address =>
      exact keepsCoherent_question (fun account => (account.getD {}).nonce) address world coherent
  | code address =>
      exact keepsCoherent_question (fun account => (account.getD {}).code) address world coherent
  | storage address slot => exact keepsCoherent_storage address slot world coherent
  | originalStorage address slot => exact keepsCoherent_originalStorage address slot world coherent
  | touch address => exact keepsCoherent_touch address world coherent
  | addBalance address amount => exact keepsCoherent_modifyAccount address _ world coherent
  | subBalance address amount => exact keepsCoherent_modifyAccount address _ world coherent
  | transfer sender recipient value =>
      exact keepsCoherent_transfer sender recipient value world coherent
  | incrementNonce address => exact keepsCoherent_modifyAccount address _ world coherent
  | createContract address => exact keepsCoherent_createContract address world coherent
  | setCode address code => exact keepsCoherent_modifyAccount address _ world coherent
  | setStorage address slot value => exact keepsCoherent_setStorage address slot value world coherent
  | deleteAccount address => exact keepsCoherent_deleteAccount address world coherent
  | finalize destroyed => exact keepsCoherent_finalize destroyed world coherent

namespace WorldSession

theorem coherent_perform {session : WorldSession} (coherent : session.world.Coherent)
    (operation : WorldOperation) : (session.perform operation).world.Coherent := by
  cases operation with
  | access access => exact access.coherent_after coherent
  | checkpoint => exact coherent
  | revertTo index =>
      simp only [perform]
      split
      · exact coherent.undoLast _
      · exact coherent

theorem coherent_performAll {session : WorldSession} (coherent : session.world.Coherent)
    (operations : List WorldOperation) : (session.performAll operations).world.Coherent := by
  induction operations generalizing session with
  | nil => exact coherent
  | cons operation rest ih => exact ih (coherent_perform coherent operation)

theorem base_performAll (session : WorldSession) (operations : List WorldOperation) :
    (session.performAll operations).world.base = session.world.base := by
  induction operations generalizing session with
  | nil => rfl
  | cons operation rest ih =>
      refine (ih (session.perform operation)).trans ?_
      cases operation with
      | access access => exact (access.continues_after session.world).base_eq
      | checkpoint => rfl
      | revertTo index =>
          simp only [perform]
          split
          · exact base_undoLast _ _
          · rfl

end WorldSession

/-- Effects that come from coherent readings of a world in memory make of it what was read. -/
theorem World.view_apply {shown : JournaledWorld} {world : World}
    (coherent : shown.readings.Coherent) (based : shown.base = world.view) :
    (∀ address, (world.apply shown.effects).view.account address =
        shown.readings.account address) ∧
      ∀ address slot, (world.apply shown.effects).view.storage address slot =
        shown.readings.slot address slot := by
  constructor
  · intro address
    rw [← Overlay.view_eq_apply, Overlay.account_view, account?_effects,
      coherent.account, readings_base]
    cases shown.readings.writtenAccount address with
    | some account => rfl
    | none => exact congrArg (WorldView.account · address) based.symm
  · intro address slot
    rw [← Overlay.view_eq_apply, Overlay.storage_view, slot?_effects,
      coherent.slot, Readings.original, readings_base, based]
    cases shown.readings.writtenSlot address slot with
    | some value => rfl
    | none =>
        change _ = if shown.cleared.contains address then _ else _
        cases shown.cleared.contains address <;> rfl

open Journaled in
/-- Whatever was done to a world in memory through a journal, be it undone, finalized or
failed in between: its effects are applied, and every account and slot is then what it was
through the journal. -/
theorem WorldSession.commits_shown (world : World) (operations : List WorldOperation) :
    let shown := ((⟨{ base := world.view }, []⟩ : WorldSession).performAll operations).world
    ∃ committed, WorldStore.apply world shown.effects = .ok committed ∧
      (∀ address, (WorldStore.view committed).account address = (account address).answer shown) ∧
      ∀ address slot, (WorldStore.view committed).storage address slot =
        (storage address slot).answer shown := by
  intro shown
  have coherent : shown.Coherent := coherent_performAll (coherent_ofView world.view) operations
  have based : shown.base = world.view := base_performAll ⟨{ base := world.view }, []⟩ operations
  obtain ⟨accounts, slots⟩ := World.view_apply coherent.readings based
  refine ⟨world.apply shown.effects, rfl, ?_, ?_⟩
  · intro address
    rw [(follows_account address).answer_ask]
    exact accounts address
  · intro address slot
    rw [(follows_storage address slot).answer_ask]
    exact slots address slot

end ExecutionLayer
