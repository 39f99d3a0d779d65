import ExecutionLayer.Block.Execution
import ExecutionLayer.Proofs.Results

/-!
# Executed blocks

Where the execution of a block stops, and what it commits to where it does not.
-/

set_option autoImplicit false

namespace ExecutionLayer

namespace Block

variable {rules : BlockRules} {context : BlockContext} {blockHash : UInt64 → Option Hash}

theorem Progress.execute_eq_error_iff {progress : Progress} {index : Nat}
    {transaction : Transaction} {error : ImportError} :
    progress.execute rules context blockHash index transaction = .error error ↔
      ∃ failure, transaction.apply rules progress.overlay.view context blockHash
          (remainingGas context.gasLimit progress.gasUsed) = .error failure ∧
        error = .ofFailure index failure := by
  unfold Progress.execute
  cases transaction.apply rules progress.overlay.view context blockHash
      (remainingGas context.gasLimit progress.gasUsed) with
  | ok outcome => simp
  | error failure => simp [eq_comm]

theorem Progress.execute_eq_ok {progress next : Progress} {index : Nat}
    {transaction : Transaction}
    (executed : progress.execute rules context blockHash index transaction = .ok next) :
    ∃ outcome, transaction.apply rules progress.overlay.view context blockHash
        (remainingGas context.gasLimit progress.gasUsed) = .ok outcome ∧
      next =
        { overlay := progress.overlay.apply outcome.effects
          gasUsed := progress.gasUsed + outcome.gasUsed
          receipts := progress.receipts ++
            [⟨transaction.kind, outcome.success, progress.gasUsed + outcome.gasUsed,
              outcome.logs⟩] } := by
  unfold Progress.execute at executed
  split at executed
  · cases executed
  · rename_i outcome applied
    cases executed
    exact ⟨outcome, applied, rfl⟩

/-- Executes transactions whose places in the block are counted from an offset. -/
def executeFrom (rules : BlockRules) (context : BlockContext) (blockHash : UInt64 → Option Hash)
    (offset : Nat) (progress : Progress) (transactions : List Transaction) :
    Except ImportError Progress :=
  (transactions.zipIdx offset).foldlM
    (fun progress (transaction, index) =>
      progress.execute rules context blockHash index transaction)
    progress

@[simp] theorem executeFrom_nil (offset : Nat) (progress : Progress) :
    executeFrom rules context blockHash offset progress [] = .ok progress := rfl

theorem executeFrom_cons (offset : Nat) (progress : Progress) (transaction : Transaction)
    (rest : List Transaction) :
    executeFrom rules context blockHash offset progress (transaction :: rest) =
      progress.execute rules context blockHash offset transaction >>= fun next =>
        executeFrom rules context blockHash (offset + 1) next rest := rfl

theorem executeFrom_eq_ok {offset index : Nat} {start finished : Progress}
    {transactions : List Transaction} {transaction : Transaction}
    (executed : executeFrom rules context blockHash offset start transactions = .ok finished)
    (found : transactions[index]? = some transaction) :
    ∃ progress next,
      executeFrom rules context blockHash offset start (transactions.take index) = .ok progress ∧
      progress.execute rules context blockHash (offset + index) transaction = .ok next ∧
      executeFrom rules context blockHash (offset + index + 1) next
        (transactions.drop (index + 1)) = .ok finished := by
  induction transactions generalizing offset index start with
  | nil => cases found
  | cons first rest ih =>
      rw [executeFrom_cons] at executed
      obtain ⟨next, step, later⟩ := bind_eq_ok executed
      cases index with
      | zero =>
          cases found
          exact ⟨start, next, rfl, step, later⟩
      | succ index =>
          obtain ⟨progress, after, before, here, onward⟩ := ih later found
          have place : offset + 1 + index = offset + (index + 1) := by omega
          rw [place] at here onward
          refine ⟨progress, after, ?_, here, onward⟩
          rw [List.take_succ_cons, executeFrom_cons, step]
          exact before

/-- Each transaction adds one receipt. -/
theorem executeFrom_receipts {offset : Nat} {start finished : Progress}
    {transactions : List Transaction}
    (executed : executeFrom rules context blockHash offset start transactions = .ok finished) :
    ∃ added, finished.receipts = start.receipts ++ added ∧
      added.length = transactions.length := by
  induction transactions generalizing offset start with
  | nil =>
      cases executed
      exact ⟨[], by simp, rfl⟩
  | cons first rest ih =>
      rw [executeFrom_cons] at executed
      obtain ⟨next, step, later⟩ := bind_eq_ok executed
      obtain ⟨outcome, _, rfl⟩ := Progress.execute_eq_ok step
      obtain ⟨added, same, length⟩ := ih later
      rw [List.append_assoc] at same
      exact ⟨_, same, by simp [length]⟩

theorem executeFrom_eq_error_iff {offset : Nat} {start : Progress}
    {transactions : List Transaction} {error : ImportError} :
    executeFrom rules context blockHash offset start transactions = .error error ↔
      ∃ index transaction progress, transactions[index]? = some transaction ∧
        executeFrom rules context blockHash offset start (transactions.take index) =
          .ok progress ∧
        progress.execute rules context blockHash (offset + index) transaction = .error error := by
  induction transactions generalizing start offset with
  | nil =>
      constructor
      · intro failed
        cases failed
      · rintro ⟨index, transaction, progress, found, _⟩
        cases found
  | cons first rest ih =>
      rw [executeFrom_cons]
      constructor
      · intro failed
        rcases bind_eq_error failed with here | ⟨next, step, later⟩
        · exact ⟨0, first, start, rfl, rfl, here⟩
        · obtain ⟨index, transaction, progress, found, before, stopped⟩ := ih.mp later
          refine ⟨index + 1, transaction, progress, found, ?_, ?_⟩
          · rw [List.take_succ_cons, executeFrom_cons, step]
            exact before
          · rw [← Nat.add_assoc, Nat.add_right_comm]
            exact stopped
      · rintro ⟨index, transaction, progress, found, before, stopped⟩
        cases index with
        | zero =>
            cases found
            cases before
            rw [Nat.add_zero] at stopped
            rw [stopped]
            rfl
        | succ index =>
            rw [List.take_succ_cons, executeFrom_cons] at before
            obtain ⟨next, step, later⟩ := bind_eq_ok before
            rw [step]
            apply ih.mpr
            refine ⟨index, transaction, progress, found, later, ?_⟩
            rw [Nat.add_right_comm, Nat.add_assoc]
            exact stopped

/-- Execution stops at the first transaction that cannot be applied after those before it. -/
theorem executeAll_eq_error_iff {start : Progress} {transactions : List Transaction}
    {error : ImportError} :
    executeAll rules context blockHash start transactions = .error error ↔
      ∃ index transaction progress failure, transactions[index]? = some transaction ∧
        executeAll rules context blockHash start (transactions.take index) = .ok progress ∧
        transaction.apply rules progress.overlay.view context blockHash
          (remainingGas context.gasLimit progress.gasUsed) = .error failure ∧
        error = .ofFailure index failure := by
  have whole (progress : Progress) (transactions : List Transaction) :
      executeAll rules context blockHash progress transactions =
        executeFrom rules context blockHash 0 progress transactions := rfl
  rw [whole, executeFrom_eq_error_iff]
  simp only [whole, Nat.zero_add, Progress.execute_eq_error_iff, exists_and_left]

theorem execute_eq_ok {world : World} {block : Block} {result : Result}
    (executed : block.execute rules world blockHash = .ok result) :
    result.stateRoot = (world.apply result.effects).root := by
  obtain ⟨finished, _, executed⟩ := bind_eq_ok executed
  obtain ⟨root, rooted, executed⟩ := bind_eq_ok executed
  cases rooted
  cases executed
  rfl

theorem execute_eq_error_iff {world : World} {block : Block} {error : ImportError} :
    block.execute rules world blockHash = .error error ↔
      executeAll rules (block.header.context rules.chainId) blockHash
        { overlay := { base := world.view } } block.transactions = .error error := by
  constructor
  · intro failed
    rcases bind_eq_error failed with stopped | ⟨finished, _, failed⟩
    · exact stopped
    · cases failed
  · intro stopped
    unfold execute
    exact congrArg (· >>= _) stopped

end Block

end ExecutionLayer
