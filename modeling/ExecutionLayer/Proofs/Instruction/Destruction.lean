import ExecutionLayer.Proofs.Instruction.Evaluation
import ExecutionLayer.Proofs.Instruction.Turns
import ExecutionLayer.Proofs.World.Payments
import ExecutionLayer.Proofs.World.Standing

/-!
# Destruction

Code that destroys its account takes off what the account holds and adds it to the beneficiary's
balance. Another beneficiary gains all of it and nothing is left behind. If the beneficiary is the
account itself, the two changes cancel out: the account is scheduled for deletion, but until the
transaction ends it holds as much as before.
-/

set_option autoImplicit false

namespace ExecutionLayer

/-! ## Balances -/

/-- What each account holds, as the world answers. -/
def JournaledWorld.balances (world : JournaledWorld) (address : Address) :
    Except StateError Word :=
  (Journaled.balance address).answer world

/-- All that an account holds goes to a beneficiary. What the account gives to itself, it keeps. -/
structure Sweeps (owner beneficiary : Address) (sent : Word)
    (before after : Address → Except StateError Word) : Prop where
  held : before owner = .ok sent
  left : after owner = .ok (if beneficiary = owner then sent else 0)
  gained : beneficiary ≠ owner → ∃ had has, before beneficiary = .ok had ∧
    after beneficiary = .ok has ∧ has.toNat = had.toNat + sent.toNat
  others : ∀ address, address ≠ owner → address ≠ beneficiary → after address = before address

namespace JournaledWorld

theorem balances_eq (world : JournaledWorld) (address : Address) :
    world.balances address =
      (world.readings.account address).map fun account => (account.getD {}).balance :=
  Journaled.answer_balance address world

theorem balances_congr {world other : JournaledWorld} (same : other.readings = world.readings) :
    other.balances = world.balances := by
  funext address
  rw [balances_eq, balances_eq, same]

theorem balances_of_read {world : JournaledWorld} {address : Address} {found : Option Account}
    (read : world.readings.account address = .ok found) :
    world.balances address = .ok (found.getD {}).balance := by
  rw [balances_eq, read]
  rfl

theorem balances_of_written {world after : JournaledWorld} {address : Address} {account : Account}
    (written : after.readings = world.readings.writeAccount address (some account))
    (other : Address) :
    after.balances other = if address = other then .ok account.balance else world.balances other := by
  rw [balances_eq, balances_eq, written, Readings.writeAccount]
  dsimp only
  split <;> rfl

end JournaledWorld

namespace Journaled

open JournaledWorld

/-- A debit of the whole balance and a credit of as much, to whichever account. -/
theorem sweeps_of_ok {world debited credited : JournaledWorld} {owner beneficiary : Address}
    {sent : Word} (held : world.balances owner = .ok sent)
    (debit : subBalance owner sent world = .ok () debited)
    (credit : addBalance beneficiary sent debited = .ok () credited) :
    Sweeps owner beneficiary sent world.balances credited.balances := by
  obtain ⟨found, left, read, taken, writtenOwner⟩ := modifyAccount_ok debit
  obtain ⟨had, account, readBeneficiary, earns, written⟩ := addBalance_eq_ok credit
  have all : (found.getD {}).balance = sent :=
    Except.ok.inj ((balances_of_read read).symm.trans held)
  have empty : left.balance = 0 := by
    obtain ⟨-, -, rest⟩ := Account.debit_eq_ok taken
    apply BitVec.eq_of_toNat_eq
    rw [all] at rest
    simpa using rest
  have between := balances_of_written writtenOwner
  have final := balances_of_written written
  have grown : account.balance.toNat = (had.getD {}).balance.toNat + sent.toNat := earns.balance
  have before := balances_of_read readBeneficiary
  refine ⟨held, ?_, fun apart => ?_, fun address notOwner notBeneficiary => ?_⟩
  · by_cases own : beneficiary = owner
    · subst own
      have nothing : (had.getD {}).balance = 0 := by
        rw [between, if_pos rfl, empty] at before
        exact (Except.ok.inj before).symm
      rw [final, if_pos rfl, if_pos rfl]
      refine congrArg Except.ok (BitVec.eq_of_toNat_eq ?_)
      rw [grown, nothing]
      exact Nat.zero_add _
    · rw [final, if_neg own, between, if_pos rfl, if_neg own, empty]
  · rw [between, if_neg (Ne.symm apart)] at before
    refine ⟨_, _, before, ?_, grown⟩
    rw [final, if_pos rfl]
  · rw [final, if_neg (Ne.symm notBeneficiary), between, if_neg (Ne.symm notOwner)]

end Journaled

/-! ## The instruction -/

/-- The frame ended the code of its account, which gave all that it held to a beneficiary and is to
be deleted. -/
structure Machine.Destroys (beneficiary : Address) (sent : Word) (before after : Machine) :
    Prop where
  sweeps : Sweeps before.frame.message.recipient beneficiary sent before.world.balances
    after.world.balances
  scheduled : before.frame.message.recipient ∈ after.frame.selfDestructs
  status : after.frame.status = .codeSuccess

open Machine

namespace Action

variable {machine : Machine}

theorem leads_pop :
    Leads pop machine (fun _ => True) fun word after =>
      (∃ rest, machine.frame.stack.words = word :: rest) ∧ machine.Observes after := by
  cases words : machine.frame.stack.words with
  | nil =>
      have popped : machine.frame.pop = .error .insufficientStackItems := by
        simp only [Frame.pop, Stack.pop, words]
        rfl
      change Leads (ofExcept machine.frame.pop >>= _) _ _ _
      rw [popped]
      exact .ofExcept trivial fun _ found => by cases found
  | cons word rest =>
      obtain ⟨stack, -, popped⟩ := run_pop machine words
      have observes := observes_pop machine
      rw [Leads, popped] at observes ⊢
      exact ⟨⟨rest, rfl⟩, observes⟩

theorem leads_balance (address : Address) :
    Leads (onWorld (Journaled.balance address)) machine (fun _ => True) fun value after =>
      machine.world.balances address = .ok value ∧ machine.Observes after := by
  apply Leads.onWorld
  intro value world ran
  have answered : machine.world.balances address = .ok value := by
    rw [JournaledWorld.balances, Journaled.answer, ran]
  obtain ⟨readings, continues⟩ :=
    Journaled.asks_question (fun account => (account.getD {}).balance) address _ _ _ ran
  exact ⟨answered, .refl _, readings, continues⟩

theorem mem_addSelfDestruct {frame : Frame} (recording : frame.status.isRecording = true)
    (address : Address) : address ∈ (frame.addSelfDestruct address).selfDestructs := by
  rw [Frame.addSelfDestruct, if_pos recording]
  exact Std.ExtTreeSet.mem_insert_self

/-- Up to the payment the world is only asked. What is sent is what it answered. -/
theorem leads_selfDestruct (executing : machine.frame.status = .codeExecuting) :
    Leads selfDestruct machine (fun _ => True) fun _ after =>
      ∃ word rest sent, machine.frame.stack.words = word :: rest ∧
        machine.Destroys (Address.ofWord word) sent after := by
  apply leads_requireWritable trivial
  intro _
  apply Leads.bind
  apply leads_pop.mono
  rintro word popped ⟨⟨rest, words⟩, reached⟩
  apply Leads.frame
  have recipient := congrArg Message.recipient reached.frame.message
  apply Leads.bind
  apply (leads_balance _).mono
  rintro sent asked ⟨held, stillReached⟩
  rw [recipient, JournaledWorld.balances_congr reached.readings] at held
  replace reached := trans_of Observes reached stillReached
  apply (peeks_warmAddress _).observes.reach reached fun _ _ => trivial
  intro isCold _ reached
  apply Leads.join fun _ => machine.Observes
  · intro _
    exact (peeks_question (fun account => account.all Account.isEmpty) _).observes.reaches reached
      fun _ _ => trivial
  · exact fun _ => reached
  intro createsAccount _ reached
  apply (peeks_useGas _).observes.reach reached fun _ _ => trivial
  intro _ sender reached
  apply Leads.bind
  apply Leads.onWorld
  intro _ debited debit
  apply Leads.bind
  apply Leads.onWorld
  intro _ credited credit
  rw [recipient] at debit
  have same := JournaledWorld.balances_congr reached.readings
  have sweeps := Journaled.sweeps_of_ok (same ▸ held) debit credit
  have recording : sender.frame.status.isRecording = true := by
    rw [reached.frame.status, executing]
    rfl
  refine ⟨word, rest, sent, words, same ▸ sweeps, ?_, rfl⟩
  rw [← recipient]
  exact mem_addSelfDestruct recording _

end Action

/-! ## Steps -/

namespace Machine

/-- Code that destroys its account and does not halt gives all that the account holds to the
beneficiary. Every other account holds what it held. The account is to be deleted, and it holds
nothing any more unless it is its own beneficiary. -/
theorem destruction_sweeps {schedule : GasSchedule} {context : Context} {machine after : Machine}
    (executing : machine.frame.status = .codeExecuting)
    (opcode : machine.frame.currentOpcode = 0xFF)
    (stepped : machine.step schedule context = .ok after)
    (finished : after.frame.status ≠ .exceptionalHalt) :
    ∃ word rest sent, machine.frame.stack.words = word :: rest ∧
      machine.Destroys (Address.ofWord word) sent after := by
  have decoded : Instruction.ofOpcode? schedule machine.frame.currentOpcode =
      some .selfDestruct := by
    rw [opcode]
    rfl
  have leads : Action.Leads (Instruction.selfDestruct.execute schedule context) machine
      (fun _ => True) fun _ after => ∃ word rest sent,
        machine.frame.stack.words = word :: rest ∧
          machine.Destroys (Address.ofWord word) sent after :=
    .bind (Action.leads_selfDestruct executing)
  simp only [step, decoded] at stepped
  split at stepped
  · cases stepped
    exact absurd rfl finished
  unfold Action.Leads at leads
  split at stepped
  · rename_i count ended ran
    rw [ran] at leads
    obtain ⟨word, rest, sent, words, destroys⟩ := leads
    have stays : ended.advance count = ended :=
      if_neg (by rw [destroys.status]; decide)
    rw [stays] at stepped
    cases stepped
    exact ⟨word, rest, sent, words, destroys⟩
  · cases stepped
    exact absurd rfl finished
  · cases stepped

namespace Heirs

/-- The account at eleven destroys itself. -/
def view : WorldView where
  account address :=
    .ok (if address = 11 then some { balance := 1000, code := .ofBytes [0xFF] } else none)
  storage _ _ := .ok 0

def context : Context :=
  ⟨{}, {}, fun _ => none⟩

/-- About to give what the account holds to an heir. -/
def machine (heir : Word) : Machine where
  frame :=
    { message := { recipient := 11, contract := 11, code := .ofBytes [0xFF] }
      status := .codeExecuting, stack := ⟨[heir], Nat.le_add_left 1 1023⟩, gas := 50000 }
  world := { base := view }

end Heirs

open Heirs in
/-- What goes to another account is gone. What the account gives to itself is still there. -/
theorem destruction_keeps_own_balance :
    (∃ after, (machine 12).step (.ofFork .shanghai) context = .ok after ∧
      after.world.balances 11 = .ok 0 ∧ after.world.balances 12 = .ok 1000) ∧
    ∃ after, (machine 11).step (.ofFork .shanghai) context = .ok after ∧
      11 ∈ after.frame.selfDestructs ∧ after.world.balances 11 = .ok 1000 := by
  have held (heir : Word) : (machine heir).world.balances 11 = .ok 1000 := rfl
  have destroys (heir : Word)
      (completes : ((machine heir).step (.ofFork .shanghai) context).toOption.any
        (fun after => after.frame.status == .codeSuccess) = true) :
      ∃ after, (machine heir).step (.ofFork .shanghai) context = .ok after ∧
        (machine heir).Destroys (Address.ofWord heir) 1000 after := by
    have opcode : (machine heir).frame.currentOpcode = 0xFF := rfl
    cases stepped : (machine heir).step (.ofFork .shanghai) context with
    | error error =>
        rw [stepped] at completes
        cases completes
    | ok after =>
        rw [stepped] at completes
        have status : after.frame.status = .codeSuccess := beq_iff_eq.mp completes
        obtain ⟨word, rest, sent, words, destroys⟩ := destruction_sweeps rfl opcode stepped
          (by rw [status]; decide)
        cases words
        cases (held heir).symm.trans destroys.sweeps.held
        exact ⟨after, rfl, destroys⟩
  constructor
  · obtain ⟨after, stepped, destroys⟩ := destroys 12 (by decide +kernel)
    obtain ⟨had, has, before, now, sum⟩ := destroys.sweeps.gained (by decide)
    cases before
    exact ⟨after, stepped, destroys.sweeps.left, now.trans (congrArg _ (BitVec.eq_of_toNat_eq sum))⟩
  · obtain ⟨after, stepped, destroys⟩ := destroys 11 (by decide +kernel)
    exact ⟨after, stepped, destroys.scheduled, destroys.sweeps.left⟩

end Machine

end ExecutionLayer
