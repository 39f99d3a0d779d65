import ExecutionLayer.Proofs.Block.Validation
import ExecutionLayer.Proofs.Transaction.Clearing
import ExecutionLayer.Proofs.World.Owners

/-!
# Owners of slots after a block

What every transaction makes of a world in memory, once its effects are applied, the merged
effects of a block make of it. No transaction leaves a slot without an account.
-/

set_option autoImplicit false

namespace ExecutionLayer

open Readings in
theorem Transaction.apply_owned {rules : BlockRules} {world : World} {block : BlockContext}
    {blockHash : UInt64 → Option Hash} {remaining : UInt64} {transaction : Transaction}
    {outcome : Outcome} (owned : world.Owned)
    (applied : transaction.apply rules world.view block blockHash remaining = .ok outcome) :
    (world.apply outcome.effects).Owned := by
  have lasts := lasting_coherent.and ((lasting_base world.view).and lasting_owned)
  obtain ⟨destroyed, tipped, final, ⟨coherent, based, ownedTipped⟩, finalizing, same⟩ :=
    apply_lasting lasts ⟨.ofView world.view, rfl, owned.readings⟩ applied
  have base : final.readings.base = tipped.readings.base :=
    (Journaled.finalize_ok finalizing).2.base_eq
  rw [same]
  exact owned.apply (Journaled.finalize_coherent finalizing coherent) (base.trans based)
    (Journaled.finalize_owned finalizing ownedTipped)

namespace Block

variable {rules : BlockRules} {context : BlockContext} {blockHash : UInt64 → Option Hash}
  {property : World → Prop} {world : World}

/-- The progress is over a world that has a property once the effects so far are applied. -/
structure Progress.Makes (property : World → Prop) (world : World) (progress : Progress) :
    Prop where
  base : progress.overlay.base = world.view
  holds : property (world.apply progress.overlay.effects)

theorem executeFrom_makes
    (step : ∀ {before : World} {transaction : Transaction} {remaining : UInt64}
      {outcome : Transaction.Outcome}, property before →
      transaction.apply rules before.view context blockHash remaining = .ok outcome →
        property (before.apply outcome.effects))
    {offset : Nat} {start finished : Progress} {transactions : List Transaction}
    (makes : start.Makes property world)
    (executed : executeFrom rules context blockHash offset start transactions = .ok finished) :
    finished.Makes property world := by
  induction transactions generalizing start offset with
  | nil =>
      rw [executeFrom_nil] at executed
      cases executed
      exact makes
  | cons transaction rest ih =>
      rw [executeFrom_cons] at executed
      obtain ⟨next, executing, later⟩ := bind_eq_ok executed
      obtain ⟨outcome, applied, same⟩ := Progress.execute_eq_ok executing
      have shown : start.overlay.view = (world.apply start.overlay.effects).view := by
        rw [← Overlay.view_eq_apply, ← makes.base]
      rw [shown] at applied
      have makesNext : next.Makes property world := by
        rw [same]
        refine ⟨makes.base, ?_⟩
        dsimp only
        rw [Overlay.apply, World.apply_merge]
        exact step makes.holds applied
      exact ih makesNext later

/-- What holds of a world and is kept by every transaction, holds after a block. -/
theorem execute_makes {block : Block} {result : Result}
    (step : ∀ {before : World} {transaction : Transaction} {remaining : UInt64}
      {outcome : Transaction.Outcome}, property before →
      transaction.apply rules before.view (block.header.context rules.chainId) blockHash
        remaining = .ok outcome → property (before.apply outcome.effects))
    (start : property (world.apply {}))
    (executed : block.execute rules world blockHash = .ok result) :
    property (world.apply result.effects) := by
  obtain ⟨finished, ran, executed⟩ := bind_eq_ok executed
  obtain ⟨root, _, executed⟩ := bind_eq_ok executed
  cases executed
  exact (executeFrom_makes step ⟨rfl, start⟩ ran).holds

theorem validate_owned {chain : Blockchain} {block : Block} {result : Result}
    (owned : world.Owned) (valid : block.validate rules world chain = .ok result) :
    (world.apply result.effects).Owned := by
  obtain ⟨_, _, _, executed, _⟩ := validate_eq_ok valid
  exact execute_makes Transaction.apply_owned (owned.congr world.apply_empty_matches) executed

end Block

end ExecutionLayer
