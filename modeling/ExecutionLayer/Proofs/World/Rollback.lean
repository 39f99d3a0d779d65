import ExecutionLayer.Proofs.World.Effects

/-!
# Rolling back

Going back to a checkpoint restores every reading the world had there, and with them
the effects that the world would have, whatever was done in between.
-/

set_option autoImplicit false

namespace ExecutionLayer

open JournaledWorld

namespace Journaled

variable {Value : Type}

def answer (operation : Journaled Value) (world : JournaledWorld) : Except StateError Value :=
  match operation world with
  | .ok value _ => .ok value
  | .error error _ => .error error

/-- The world after an operation, also after one that failed. -/
def after (operation : Journaled Value) (world : JournaledWorld) : JournaledWorld :=
  match operation world with
  | .ok _ world => world
  | .error _ world => world

/-- Ends a transaction and takes its net changes. -/
def finish (destroyed : Std.ExtTreeSet Address) : Journaled StateEffects := do
  finalize destroyed
  return (← get).effects

theorem Follows.continues_after {operation : Journaled Value} {model : Observed Value}
    (follows : Follows operation model) (world : JournaledWorld) :
    Continues world (operation.after world) := by
  have ran := follows world
  cases answer : model world.readings with
  | ok value readings =>
      rw [answer] at ran
      obtain ⟨after, succeeded, _, continues⟩ := ran
      simpa only [Journaled.after, succeeded] using continues
  | error error readings =>
      rw [answer] at ran
      obtain ⟨after, failed, _, continues⟩ := ran
      simpa only [Journaled.after, failed] using continues

/-- What follows a model answers the same in worlds with the same readings, and leaves
them with the same readings. -/
theorem Follows.congr {operation : Journaled Value} {model : Observed Value}
    (follows : Follows operation model) {left right : JournaledWorld}
    (same : left.readings = right.readings) :
    operation.answer left = operation.answer right ∧
      (operation.after left).readings = (operation.after right).readings := by
  have ranLeft := follows left
  have ranRight := follows right
  rw [same] at ranLeft
  cases answer : model right.readings with
  | ok value readings =>
      rw [answer] at ranLeft ranRight
      obtain ⟨afterLeft, succeededLeft, readsLeft, _⟩ := ranLeft
      obtain ⟨afterRight, succeededRight, readsRight, _⟩ := ranRight
      simp only [Journaled.answer, Journaled.after, succeededLeft, succeededRight, readsLeft,
        readsRight, and_self]
  | error error readings =>
      rw [answer] at ranLeft ranRight
      obtain ⟨afterLeft, failedLeft, readsLeft, _⟩ := ranLeft
      obtain ⟨afterRight, failedRight, readsRight, _⟩ := ranRight
      simp only [Journaled.answer, Journaled.after, failedLeft, failedRight, readsLeft,
        readsRight, and_self]

theorem Follows.answer_ask {operation : Journaled Value}
    {question : Readings → Except StateError Value} (follows : Follows operation (.ask question))
    (world : JournaledWorld) : operation.answer world = question world.readings := by
  have ran := follows world
  unfold Observed.ask at ran
  cases answer : question world.readings with
  | ok value =>
      rw [answer] at ran
      obtain ⟨after, succeeded, _⟩ := ran
      rw [Journaled.answer, succeeded]
  | error error =>
      rw [answer] at ran
      obtain ⟨after, failed, _⟩ := ran
      rw [Journaled.answer, failed]

theorem answer_finish (destroyed : Std.ExtTreeSet Address) (world : JournaledWorld) :
    (finish destroyed).answer world =
      (fun _ => ((finalize destroyed).after world).effects) <$>
        (finalize destroyed).answer world := by
  simp only [answer, after, finish, bind, EStateM.bind]
  cases finalize destroyed world <;> rfl

theorem answer_finish_congr (destroyed : Std.ExtTreeSet Address) {left right : JournaledWorld}
    (same : left.readings = right.readings) :
    (finish destroyed).answer left = (finish destroyed).answer right := by
  obtain ⟨answers, readings⟩ := (follows_finalize destroyed).congr same
  rw [answer_finish, answer_finish, answers, effects_congr readings]

end Journaled

/-! ## Sessions -/

/-- An operation on a world that is not about checkpoints. -/
inductive WorldAccess where
  | account (address : Address)
  | isPresent (address : Address)
  | isEmptyOrAbsent (address : Address)
  | blocksDeployment (address : Address)
  | balance (address : Address)
  | nonce (address : Address)
  | code (address : Address)
  | storage (address : Address) (slot : Word)
  | originalStorage (address : Address) (slot : Word)
  | touch (address : Address)
  | addBalance (address : Address) (amount : Word)
  | subBalance (address : Address) (amount : Word)
  | transfer (sender recipient : Address) (value : Word)
  | incrementNonce (address : Address)
  | createContract (address : Address)
  | setCode (address : Address) (code : Code)
  | setStorage (address : Address) (slot value : Word)
  | deleteAccount (address : Address)
  | finalize (destroyed : Std.ExtTreeSet Address)

namespace WorldAccess

/-- The world after the operation, also if it failed. -/
def after : WorldAccess → JournaledWorld → JournaledWorld
  | .account address => (Journaled.account address).after
  | .isPresent address => (Journaled.isPresent address).after
  | .isEmptyOrAbsent address => (Journaled.isEmptyOrAbsent address).after
  | .blocksDeployment address => (Journaled.blocksDeployment address).after
  | .balance address => (Journaled.balance address).after
  | .nonce address => (Journaled.nonce address).after
  | .code address => (Journaled.code address).after
  | .storage address slot => (Journaled.storage address slot).after
  | .originalStorage address slot => (Journaled.originalStorage address slot).after
  | .touch address => (Journaled.touch address).after
  | .addBalance address amount => (Journaled.addBalance address amount).after
  | .subBalance address amount => (Journaled.subBalance address amount).after
  | .transfer sender recipient value => (Journaled.transfer sender recipient value).after
  | .incrementNonce address => (Journaled.incrementNonce address).after
  | .createContract address => (Journaled.createContract address).after
  | .setCode address deployed => (Journaled.setCode address deployed).after
  | .setStorage address slot value => (Journaled.setStorage address slot value).after
  | .deleteAccount address => (Journaled.deleteAccount address).after
  | .finalize destroyed => (Journaled.finalize destroyed).after

open Journaled in
theorem continues_after (access : WorldAccess) (world : JournaledWorld) :
    Continues world (access.after world) := by
  cases access with
  | account address => exact (follows_account address).continues_after world
  | isPresent address => exact (follows_question _ address).continues_after world
  | isEmptyOrAbsent address => exact (follows_question _ address).continues_after world
  | blocksDeployment address => exact (follows_question _ address).continues_after world
  | balance address => exact (follows_balance address).continues_after world
  | nonce address =>
      exact (follows_question (fun account => (account.getD {}).nonce) address).continues_after world
  | code address =>
      exact (follows_question (fun account => (account.getD {}).code) address).continues_after world
  | storage address slot => exact (follows_storage address slot).continues_after world
  | originalStorage address slot =>
      exact (follows_originalStorage address slot).continues_after world
  | touch address => exact (follows_touch address).continues_after world
  | addBalance address amount => exact (follows_modifyAccount address _).continues_after world
  | subBalance address amount => exact (follows_modifyAccount address _).continues_after world
  | transfer sender recipient value =>
      exact (follows_transfer sender recipient value).continues_after world
  | incrementNonce address => exact (follows_modifyAccount address _).continues_after world
  | createContract address => exact (follows_createContract address).continues_after world
  | setCode address deployed => exact (follows_modifyAccount address _).continues_after world
  | setStorage address slot value =>
      exact (follows_setStorage address slot value).continues_after world
  | deleteAccount address => exact (follows_deleteAccount address).continues_after world
  | finalize destroyed => exact (follows_finalize destroyed).continues_after world

end WorldAccess

/-- A step of a session. Checkpoints are named by their place among those taken. -/
inductive WorldOperation where
  | access (access : WorldAccess)
  | checkpoint
  | revertTo (index : Nat)

/-- A world in use, with the checkpoints taken so far, first to last. -/
structure WorldSession where
  world : JournaledWorld
  checkpoints : List Checkpoint := []

namespace WorldSession

/-- The session after a step. Going back to a checkpoint that was not taken does nothing. -/
def perform (session : WorldSession) : WorldOperation → WorldSession
  | .access access => { session with world := access.after session.world }
  | .checkpoint =>
      match Journaled.checkpoint session.world with
      | .ok checkpoint world => ⟨world, session.checkpoints ++ [checkpoint]⟩
      | .error _ world => { session with world }
  | .revertTo index =>
      match session.checkpoints[index]? with
      | some checkpoint =>
          { session with world := (Journaled.revertTo checkpoint).after session.world }
      | none => session

/-- The session after steps. -/
def performAll (session : WorldSession) (operations : List WorldOperation) : WorldSession :=
  operations.foldl perform session

/-- The session can go back to where it started, and no checkpoint lies before. -/
structure ReturnsTo (start : JournaledWorld) (session : WorldSession) : Prop where
  world : Continues start session.world
  checkpoints : ∀ checkpoint ∈ session.checkpoints, start.journal.length ≤ checkpoint

namespace ReturnsTo

variable {start : JournaledWorld} {session : WorldSession}

theorem perform (returns : ReturnsTo start session) (operation : WorldOperation) :
    ReturnsTo start (session.perform operation) := by
  cases operation with
  | access access =>
      exact ⟨returns.world.trans (access.continues_after session.world), returns.checkpoints⟩
  | checkpoint =>
      refine ⟨returns.world, ?_⟩
      intro checkpoint taken
      rcases List.mem_append.mp taken with earlier | here
      · exact returns.checkpoints checkpoint earlier
      · obtain rfl := List.mem_singleton.mp here
        exact returns.world.length_le
  | revertTo index =>
      simp only [WorldSession.perform]
      cases taken : session.checkpoints[index]? with
      | none => exact returns
      | some checkpoint =>
          have later := returns.checkpoints checkpoint (List.mem_of_getElem? taken)
          exact ⟨returns.world.revert later, returns.checkpoints⟩

theorem performAll (returns : ReturnsTo start session) (operations : List WorldOperation) :
    ReturnsTo start (session.performAll operations) := by
  induction operations generalizing session with
  | nil => exact returns
  | cons operation rest ih => exact ih (returns.perform operation)

end ReturnsTo

theorem checkpoints_prefix_performAll (session : WorldSession)
    (operations : List WorldOperation) :
    session.checkpoints <+: (session.performAll operations).checkpoints := by
  induction operations generalizing session with
  | nil => exact List.prefix_rfl
  | cons operation rest ih =>
      refine List.IsPrefix.trans ?_ (ih (session.perform operation))
      cases operation with
      | access access => exact List.prefix_rfl
      | checkpoint => exact List.prefix_append _ _
      | revertTo index =>
          simp only [perform]
          split <;> exact List.prefix_rfl

/-- Whatever follows a checkpoint, going back to it restores every reading. -/
theorem readings_rollback (there : JournaledWorld) (operations : List WorldOperation) :
    ((⟨there, []⟩ : WorldSession).performAll
      (.checkpoint :: operations ++ [.revertTo 0])).world.readings = there.readings := by
  have begun : ReturnsTo there (⟨there, [there.journal.length]⟩ : WorldSession) :=
    ⟨.refl there, by simp⟩
  have returns := begun.performAll operations
  have first : (performAll ⟨there, [there.journal.length]⟩ operations).checkpoints[0]? =
      some there.journal.length := by
    obtain ⟨later, taken⟩ := checkpoints_prefix_performAll ⟨there, [there.journal.length]⟩ operations
    rw [← taken]
    rfl
  have steps : (⟨there, []⟩ : WorldSession).performAll
      (.checkpoint :: operations ++ [.revertTo 0]) =
        (performAll ⟨there, [there.journal.length]⟩ operations).perform (.revertTo 0) := by
    simp only [performAll, List.foldl_append, List.cons_append, List.foldl_cons, List.foldl_nil]
    rfl
  rw [steps]
  simp only [perform, first]
  exact returns.world.rollback.readings

open Journaled in
/-- Whatever was done before a checkpoint and after it, going back to the checkpoint
restores the answer to every read and the effects that the world would have. -/
theorem rollback_exact (view : WorldView) (earlier later : List WorldOperation) :
    let there := ((⟨{ base := view }, []⟩ : WorldSession).performAll earlier).world
    let back := ((⟨there, []⟩ : WorldSession).performAll
      (.checkpoint :: later ++ [.revertTo 0])).world
    (∀ address, (account address).answer back = (account address).answer there) ∧
      (∀ address slot, (storage address slot).answer back = (storage address slot).answer there) ∧
      (∀ address slot,
        (originalStorage address slot).answer back =
          (originalStorage address slot).answer there) ∧
      ∀ destroyed, (finish destroyed).answer back = (finish destroyed).answer there := by
  intro there back
  have same : back.readings = there.readings := readings_rollback there later
  refine ⟨?_, ?_, ?_, ?_⟩
  · intro address
    exact ((follows_account address).congr same).1
  · intro address slot
    exact ((follows_storage address slot).congr same).1
  · intro address slot
    exact ((follows_originalStorage address slot).congr same).1
  · intro destroyed
    exact answer_finish_congr destroyed same

end WorldSession

end ExecutionLayer
