import ExecutionLayer.Proofs.Block.Validation
import ExecutionLayer.Proofs.Transaction.Application

/-!
# Faults of blocks

No value appears while the transactions of a block are executed, so what a store holds
never grows from block to block, and a block is a fault only by one of its transactions.
-/

set_option autoImplicit false

namespace ExecutionLayer.Block

section

variable {rules : BlockRules} {context : BlockContext} {blockHash : UInt64 → Option Hash}

/-- The transaction at an index is reached: those before it were executed. -/
def Reaches (rules : BlockRules) (context : BlockContext) (blockHash : UInt64 → Option Hash)
    (world : World) (transactions : List Transaction) (index : Nat) (transaction : Transaction)
    (progress : Progress) : Prop :=
  transactions[index]? = some transaction ∧
    executeAll rules context blockHash { overlay := { base := world.view } }
      (transactions.take index) = .ok progress

/-- The progress is over a view without faults, and accounts hold at most an amount. -/
structure Progress.Holds (progress : Progress) (total : Nat) : Prop where
  faultFree : progress.overlay.base.FaultFree
  supply : progress.overlay.view.supply ≤ total

theorem Progress.execute_holds {progress next : Progress} {index total : Nat}
    {transaction : Transaction} (holds : progress.Holds total)
    (executed : progress.execute rules context blockHash index transaction = .ok next) :
    next.Holds total ∧ next.overlay.base = progress.overlay.base := by
  unfold Progress.execute at executed
  cases applied : transaction.apply rules progress.overlay.view context blockHash
      (remainingGas context.gasLimit progress.gasUsed) with
  | error failure =>
      rw [applied] at executed
      cases executed
  | ok outcome =>
      rw [applied] at executed
      cases executed
      obtain ⟨world, effects, based, lawful, supply⟩ :=
        Transaction.apply_ok (Overlay.faultFree_view holds.faultFree) applied
      refine ⟨⟨holds.faultFree, ?_⟩, rfl⟩
      dsimp only
      rw [effects, Overlay.supply_view_effects lawful based]
      exact supply.trans holds.supply

theorem executeFrom_holds {offset total : Nat} {start finished : Progress}
    {transactions : List Transaction} (holds : start.Holds total)
    (executed : executeFrom rules context blockHash offset start transactions = .ok finished) :
    finished.Holds total ∧ finished.overlay.base = start.overlay.base := by
  induction transactions generalizing start offset with
  | nil =>
      rw [executeFrom_nil] at executed
      cases executed
      exact ⟨holds, rfl⟩
  | cons transaction rest ih =>
      rw [executeFrom_cons] at executed
      obtain ⟨next, step, later⟩ := bind_eq_ok executed
      obtain ⟨holdsNext, baseNext⟩ := Progress.execute_holds holds step
      obtain ⟨holdsAfter, baseAfter⟩ := ih holdsNext later
      exact ⟨holdsAfter, baseAfter.trans baseNext⟩

theorem holds_start (world : World) :
    Progress.Holds { overlay := { base := world.view } } world.view.supply :=
  ⟨world.faultFree_view, (Overlay.supply_view_base world.view).le⟩

theorem executeAll_holds {world : World} {transactions : List Transaction} {finished : Progress}
    (executed : executeAll rules context blockHash { overlay := { base := world.view } }
      transactions = .ok finished) :
    finished.Holds world.view.supply ∧ finished.overlay.base = world.view :=
  executeFrom_holds (holds_start world) executed

theorem execute_supply_le {world : World} {block : Block} {result : Result}
    (executed : block.execute rules world blockHash = .ok result) :
    (world.apply result.effects).view.supply ≤ world.view.supply := by
  obtain ⟨finished, ran, executed⟩ := bind_eq_ok executed
  obtain ⟨root, _, executed⟩ := bind_eq_ok executed
  cases executed
  obtain ⟨holds, base⟩ := executeAll_holds ran
  have shown : Overlay.view ⟨world.view, finished.overlay.effects⟩ = finished.overlay.view := by
    rw [← base]
  rw [World.supply_apply, shown]
  exact holds.supply

theorem execute_eq_state_error_iff {world : World} {block : Block} {cause : StateError} :
    block.execute rules world blockHash = .error (.state cause) ↔
      ∃ index transaction progress,
        Reaches rules (block.header.context rules.chainId) blockHash world block.transactions
          index transaction progress ∧
        transaction.apply rules progress.overlay.view (block.header.context rules.chainId)
          blockHash (remainingGas block.header.gasLimit progress.gasUsed) =
            .error (.state cause) := by
  rw [execute_eq_error_iff, executeAll_eq_error_iff]
  constructor
  · rintro ⟨index, transaction, progress, failure, found, before, failed, same⟩
    cases failure with
    | invalid reason => cases same
    | state error =>
        cases same
        exact ⟨index, transaction, progress, ⟨found, before⟩, failed⟩
  · rintro ⟨index, transaction, progress, ⟨found, before⟩, failed⟩
    exact ⟨index, transaction, progress, _, found, before, failed, rfl⟩

theorem validate_supply_le {world : World} {chain : Blockchain} {block : Block} {result : Result}
    (valid : block.validate rules world chain = .ok result) :
    (world.apply result.effects).view.supply ≤ world.view.supply := by
  obtain ⟨_, _, _, executed, _⟩ := validate_eq_ok valid
  exact execute_supply_le executed

end

end ExecutionLayer.Block
