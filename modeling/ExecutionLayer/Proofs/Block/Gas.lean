import ExecutionLayer.Proofs.Block.Execution
import ExecutionLayer.Proofs.Transaction.Amounts

/-!
# Gas of blocks

The gas of the transactions of a block adds up to no more than the block allows, and every
transaction takes some.
-/

set_option autoImplicit false

namespace ExecutionLayer.Block

section

variable {rules : BlockRules} {context : BlockContext} {blockHash : UInt64 → Option Hash}

theorem toNat_remainingGas {gasLimit gasUsed : UInt64} (within : gasUsed ≤ gasLimit) :
    (remainingGas gasLimit gasUsed).toNat + gasUsed.toNat = gasLimit.toNat := by
  have bound := UInt64.le_iff_toNat_le.mp within
  rw [remainingGas, if_pos within, UInt64.toNat_sub_of_le _ _ within]
  omega

/-- The gas so far is that of the last receipt and within the limit. -/
structure Progress.Metered (gasLimit : UInt64) (progress : Progress) : Prop where
  within : progress.gasUsed ≤ gasLimit
  last : (progress.receipts.map (·.cumulativeGasUsed)).getLastD 0 = progress.gasUsed

theorem Progress.toNat_gasUsed {progress : Progress} {transaction : Transaction}
    {outcome : Transaction.Outcome} (metered : progress.Metered context.gasLimit)
    (applied : transaction.apply rules progress.overlay.view context blockHash
      (remainingGas context.gasLimit progress.gasUsed) = .ok outcome) :
    (progress.gasUsed + outcome.gasUsed).toNat =
        progress.gasUsed.toNat + outcome.gasUsed.toNat ∧
      progress.gasUsed.toNat + outcome.gasUsed.toNat ≤ context.gasLimit.toNat := by
  obtain ⟨part, _⟩ := Transaction.apply_gasUsed applied
  rw [UInt64.le_iff_toNat_le] at part
  have remaining := toNat_remainingGas metered.within
  have within : progress.gasUsed.toNat + outcome.gasUsed.toNat ≤ context.gasLimit.toNat := by
    omega
  refine ⟨?_, within⟩
  rw [UInt64.toNat_add]
  exact Nat.mod_eq_of_lt (Nat.lt_of_le_of_lt within context.gasLimit.toNat_lt_size)

theorem Progress.execute_metered {progress next : Progress} {index : Nat}
    {transaction : Transaction} (metered : progress.Metered context.gasLimit)
    (executed : progress.execute rules context blockHash index transaction = .ok next) :
    next.Metered context.gasLimit ∧ progress.gasUsed ≤ next.gasUsed ∧
      (transaction.Addressable → progress.gasUsed < next.gasUsed) := by
  obtain ⟨outcome, applied, rfl⟩ := Progress.execute_eq_ok executed
  obtain ⟨whole, within⟩ := Progress.toNat_gasUsed metered applied
  obtain ⟨_, positive⟩ := Transaction.apply_gasUsed applied
  simp only [UInt64.le_iff_toNat_le, UInt64.lt_iff_toNat_lt, UInt64.toNat_zero] at positive ⊢
  refine ⟨⟨?_, ?_⟩, ?_, ?_⟩
  · rw [UInt64.le_iff_toNat_le]
    dsimp only
    omega
  · simp
  · omega
  · intro addressable
    have more := positive addressable
    omega

theorem executeFrom_metered {offset : Nat} {start finished : Progress}
    {transactions : List Transaction} (metered : start.Metered context.gasLimit)
    (executed : executeFrom rules context blockHash offset start transactions = .ok finished) :
    finished.Metered context.gasLimit := by
  induction transactions generalizing offset start with
  | nil =>
      cases executed
      exact metered
  | cons first rest ih =>
      rw [executeFrom_cons] at executed
      obtain ⟨next, step, later⟩ := bind_eq_ok executed
      exact ih (Progress.execute_metered metered step).1 later

/-- From one receipt to the next the gas rises, and it is never above that of the progress. -/
structure Progress.Rising (progress : Progress) : Prop where
  pairwise : (0 :: progress.receipts.map (·.cumulativeGasUsed)).Pairwise (· < ·)
  below : ∀ gas ∈ 0 :: progress.receipts.map (·.cumulativeGasUsed), gas ≤ progress.gasUsed

theorem Progress.execute_rising {progress next : Progress} {index : Nat}
    {transaction : Transaction} (metered : progress.Metered context.gasLimit)
    (rising : progress.Rising) (addressable : transaction.Addressable)
    (executed : progress.execute rules context blockHash index transaction = .ok next) :
    next.Rising := by
  obtain ⟨_, le, lt⟩ := Progress.execute_metered metered executed
  obtain ⟨outcome, applied, rfl⟩ := Progress.execute_eq_ok executed
  constructor
  · rw [List.map_append, ← List.cons_append, List.pairwise_append]
    refine ⟨rising.pairwise, List.pairwise_singleton _ _, ?_⟩
    intro gas earlier here same
    rw [List.mem_singleton.mp same]
    exact UInt64.lt_of_le_of_lt (rising.below gas earlier) (lt addressable)
  · intro gas member
    rw [List.map_append, ← List.cons_append, List.mem_append] at member
    rcases member with earlier | here
    · exact UInt64.le_trans (rising.below gas earlier) le
    · rw [List.mem_singleton.mp here]
      exact UInt64.le_refl _

theorem executeFrom_rising {offset : Nat} {start finished : Progress}
    {transactions : List Transaction} (metered : start.Metered context.gasLimit)
    (rising : start.Rising)
    (addressable : ∀ transaction ∈ transactions, transaction.Addressable)
    (executed : executeFrom rules context blockHash offset start transactions = .ok finished) :
    finished.Rising := by
  induction transactions generalizing offset start with
  | nil =>
      cases executed
      exact rising
  | cons first rest ih =>
      rw [executeFrom_cons] at executed
      obtain ⟨next, step, later⟩ := bind_eq_ok executed
      apply ih (Progress.execute_metered metered step).1 _ _ later
      · exact Progress.execute_rising metered rising (addressable first (by simp)) step
      · exact fun transaction member => addressable transaction (by simp [member])

theorem metered_start (view : WorldView) (gasLimit : UInt64) :
    Progress.Metered gasLimit { overlay := { base := view } } :=
  ⟨UInt64.zero_le, rfl⟩

theorem rising_start (view : WorldView) :
    Progress.Rising { overlay := { base := view } } :=
  ⟨List.pairwise_singleton _ _, by simp⟩

/-- The receipt of a transaction adds its gas to that of the transactions before it. -/
theorem executeAll_receipt {view : WorldView} {transactions : List Transaction}
    {finished : Progress} {index : Nat} {transaction : Transaction}
    (executed : executeAll rules context blockHash { overlay := { base := view } } transactions =
      .ok finished)
    (found : transactions[index]? = some transaction) :
    ∃ progress outcome receipt,
      executeAll rules context blockHash { overlay := { base := view } }
        (transactions.take index) = .ok progress ∧
      (remainingGas context.gasLimit progress.gasUsed).toNat + progress.gasUsed.toNat =
        context.gasLimit.toNat ∧
      transaction.apply rules progress.overlay.view context blockHash
        (remainingGas context.gasLimit progress.gasUsed) = .ok outcome ∧
      finished.receipts[index]? = some receipt ∧
      receipt.cumulativeGasUsed.toNat = progress.gasUsed.toNat + outcome.gasUsed.toNat := by
  obtain ⟨progress, next, before, step, later⟩ := executeFrom_eq_ok executed found
  have metered := executeFrom_metered (metered_start view context.gasLimit) before
  obtain ⟨earlier, sameBefore, length⟩ := executeFrom_receipts before
  obtain ⟨added, sameAfter, _⟩ := executeFrom_receipts later
  obtain ⟨outcome, applied, rfl⟩ := Progress.execute_eq_ok step
  obtain ⟨whole, _⟩ := Progress.toNat_gasUsed metered applied
  have place : progress.receipts.length = index := by
    have inside := (List.getElem?_eq_some_iff.mp found).1
    rw [sameBefore, List.length_append, length, List.length_take]
    simpa using Nat.le_of_lt inside
  refine ⟨progress, outcome, ⟨transaction.kind, outcome.success,
    progress.gasUsed + outcome.gasUsed, outcome.logs⟩, before,
    toNat_remainingGas metered.within, applied, ?_, whole⟩
  rw [sameAfter]
  simp [← place]

end

/-- For every transaction that is applied, each amount is the number that it stands for, and the
gas lies within its bounds. So in a block that is executed the gas of the receipts rises to a
total within the limit. -/
theorem gas_accounted {rules : BlockRules} {blockHash : UInt64 → Option Hash} :
    (∀ {view : WorldView} {block : BlockContext} {remaining : UInt64}
      {transaction : Transaction} {outcome : Transaction.Outcome},
      transaction.apply rules view block blockHash remaining = .ok outcome →
      ∃ checked root nonce final,
        transaction.check rules block.baseFee remaining { base := view } =
          .ok (.ok ()) checked ∧
        transaction.execute rules.schedule block blockHash checked = .ok (root, nonce) final ∧
        outcome.gasUsed = transaction.gasUsed rules.schedule root ∧
        transaction.Amounts rules.schedule block root ∧
        transaction.Bounds rules.schedule remaining root ∧
        (transaction.Addressable →
          (Transaction.intrinsicGas rules.schedule transaction).toNat =
            transaction.intrinsicCost rules.schedule)) ∧
    ∀ {Store : Type} [WorldStore Store] {store : Store} {block : Block} {result : Result},
      block.execute rules store blockHash = .ok result →
      result.receipts.length = block.transactions.length ∧
      (∀ index transaction, block.transactions[index]? = some transaction →
        ∃ progress outcome receipt,
          executeAll rules (block.header.context rules.chainId) blockHash
            { overlay := { base := WorldStore.view store } } (block.transactions.take index) =
              .ok progress ∧
          (remainingGas block.header.gasLimit progress.gasUsed).toNat +
            progress.gasUsed.toNat = block.header.gasLimit.toNat ∧
          transaction.apply rules progress.overlay.view (block.header.context rules.chainId)
            blockHash (remainingGas block.header.gasLimit progress.gasUsed) = .ok outcome ∧
          result.receipts[index]? = some receipt ∧
          receipt.cumulativeGasUsed.toNat =
            progress.gasUsed.toNat + outcome.gasUsed.toNat) ∧
      (result.receipts.map (·.cumulativeGasUsed)).getLastD 0 = result.gasUsed ∧
      result.gasUsed ≤ block.header.gasLimit ∧
      ((∀ transaction ∈ block.transactions, transaction.Addressable) →
        (0 :: result.receipts.map (·.cumulativeGasUsed)).Pairwise (· < ·)) := by
  constructor
  · intro view block remaining transaction outcome applied
    obtain ⟨checked, root, nonce, final, checking, executed, rfl⟩ :=
      Transaction.apply_eq_ok applied
    obtain ⟨passes, _, _⟩ := Transaction.check_ok checking
    obtain ⟨amounts, bounds⟩ := Transaction.execute_bounds passes executed
    refine ⟨checked, root, nonce, final, checking, executed, rfl, amounts, bounds, ?_⟩
    intro addressable
    rw [Transaction.toNat_intrinsicGas]
    exact Nat.mod_eq_of_lt (Transaction.intrinsicCost_lt
      (Transaction.admitted_of_checkInBlock passes.1) addressable)
  · intro Store _ store block result executed
    obtain ⟨finished, ran, executed⟩ := bind_eq_ok executed
    obtain ⟨_, _, executed⟩ := bind_eq_ok executed
    cases executed
    have start := metered_start (WorldStore.view store) block.header.gasLimit
    have metered : finished.Metered block.header.gasLimit := executeFrom_metered start ran
    obtain ⟨added, same, length⟩ := executeFrom_receipts ran
    refine ⟨?_, fun index transaction found => executeAll_receipt ran found, metered.last,
      metered.within, ?_⟩
    · rw [← length]
      exact congrArg List.length same
    · intro addressable
      exact (executeFrom_rising start (rising_start _) addressable ran).pairwise

namespace Payments

def world : World :=
  World.insertAccount {} 10 { balance := 1000000 }

def payment : Transaction :=
  { sender := 10, recipient := some 11, value := 5, maxFee := 9, maxPriorityFee := 1,
    gasLimit := 21000 }

/-- A payment with one byte of data, and with more gas than it needs. -/
def remark : Transaction :=
  { payment with nonce := 1, data := [1], gasLimit := 30000 }

def block : Block :=
  { header := { ommersHash := Header.emptyOmmersHash, gasLimit := 60000, baseFee := some 7 },
    transactions := [payment, remark] }

end Payments

open Payments in
theorem payments_accounted :
    ∃ result, block.execute ⟨.london, 1⟩ world (fun _ => none) = .ok result ∧
      result.receipts.length = 2 ∧ result.gasUsed ≤ 60000 ∧
      (0 :: result.receipts.map (·.cumulativeGasUsed)).Pairwise (· < ·) ∧
      ∃ (progress : Progress) (outcome : Transaction.Outcome) (receipt : Receipt),
        remark.apply ⟨.london, 1⟩ progress.overlay.view (block.header.context 1)
          (fun _ => none) (remainingGas 60000 progress.gasUsed) = .ok outcome ∧
        result.receipts[1]? = some receipt ∧
        receipt.cumulativeGasUsed.toNat = progress.gasUsed.toNat + outcome.gasUsed.toNat ∧
        ∃ root, outcome.gasUsed = remark.gasUsed (.ofFork .london) root ∧
          remark.Bounds (.ofFork .london) (remainingGas 60000 progress.gasUsed) root := by
  have accepted : (block.execute ⟨.london, 1⟩ world (fun _ => none)).toOption.isSome = true := by
    decide +kernel
  have addressable : ∀ transaction ∈ block.transactions, transaction.Addressable := by
    simp only [Transaction.Addressable]
    decide
  cases executed : block.execute ⟨.london, 1⟩ world (fun _ => none) with
  | error error =>
      rw [executed] at accepted
      cases accepted
  | ok result =>
      obtain ⟨applications, blocks⟩ := @gas_accounted ⟨.london, 1⟩ (fun _ => none)
      obtain ⟨length, receipts, _, within, rising⟩ := blocks executed
      obtain ⟨progress, outcome, receipt, _, _, applied, found, sum⟩ := receipts 1 remark rfl
      obtain ⟨_, root, _, _, _, _, same, _, bounds, _⟩ := applications applied
      exact ⟨result, rfl, length, within, rising addressable, progress, outcome, receipt, applied,
        found, sum, root, same, bounds⟩

end ExecutionLayer.Block
