import ExecutionLayer.Transaction.Execution
import ExecutionLayer.Proofs.Results

/-!
# Valid transactions

What a transaction that passes the checks is known to satisfy: its sender can pay for its
gas at the price that it pays, and no amount on the way is more than a word can hold.
-/

set_option autoImplicit false

namespace ExecutionLayer.Transaction

/-- What the block alone asks of a transaction. -/
structure Admitted (rules : BlockRules) (baseFee : Option Word) (remaining : UInt64)
    (transaction : Transaction) : Prop where
  intrinsic : intrinsicGas rules.schedule transaction ≤ transaction.gasLimit
  room : transaction.gasLimit ≤ remaining
  capped : ∀ fee, baseFee = some fee → fee ≤ transaction.maxFee
  initCode : ∀ limit, rules.schedule.maxInitCodeSize = some limit →
    transaction.isCreation = true → transaction.data.length ≤ limit

theorem admitted_of_checkInBlock {rules : BlockRules} {baseFee : Option Word} {remaining : UInt64}
    {transaction : Transaction}
    (valid : transaction.checkInBlock rules baseFee remaining = .ok ()) :
    Admitted rules baseFee remaining transaction := by
  unfold checkInBlock at valid
  simp only [throw_eq, error_bind] at valid
  constructor
  · grind [UInt64.not_lt]
  · grind [UInt64.not_lt]
  · grind
  · grind

theorem checkSender_ok {account : Account} {transaction : Transaction}
    (valid : transaction.checkSender account = .ok ()) :
    account.nonce = transaction.nonce ∧ transaction.upfrontCost < Word.size ∧
      transaction.upfrontCost ≤ account.balance.toNat ∧ account.code.isEmpty = true := by
  unfold checkSender at valid
  obtain ⟨nonce, valid⟩ := guard_eq_ok valid
  obtain ⟨codeless, valid⟩ := guard_eq_ok valid
  obtain ⟨small, valid⟩ := guard_eq_ok valid
  refine ⟨Decidable.not_not.mp nonce, Nat.lt_of_not_ge small, ?_, by simpa using codeless⟩
  by_cases poor : account.balance.toNat < transaction.upfrontCost
  · rw [if_pos poor] at valid
    cases valid
  · exact Nat.le_of_not_lt poor

/-! ## Amounts -/

theorem toNat_ofUInt64 (value : UInt64) : (Word.ofUInt64 value).toNat = value.toNat := by
  have small := value.toNat_lt
  rw [Word.ofUInt64, BitVec.toNat_ofNat]
  omega

theorem toNat_cost_le (gas : UInt64) (price : Word) :
    (Word.ofUInt64 gas * price).toNat ≤ gas.toNat * price.toNat := by
  rw [BitVec.toNat_mul, toNat_ofUInt64]
  exact Nat.mod_le _ _

theorem toNat_cost {gas : UInt64} {price : Word}
    (small : gas.toNat * price.toNat < Word.size) :
    (Word.ofUInt64 gas * price).toNat = gas.toNat * price.toNat := by
  rw [BitVec.toNat_mul, toNat_ofUInt64]
  exact Nat.mod_eq_of_lt small

theorem effectiveGasPrice_le (transaction : Transaction) (baseFee : Option Word) :
    (transaction.effectiveGasPrice baseFee).toNat ≤ transaction.maxFee.toNat := by
  unfold effectiveGasPrice
  cases baseFee with
  | none => exact Nat.le_refl _
  | some fee =>
      dsimp only [Word.minimum]
      split
      · exact Nat.le_refl _
      · rename_i above
        exact Nat.le_of_lt (BitVec.not_le.mp above)

theorem le_effectiveGasPrice {transaction : Transaction} {fee : Word}
    (capped : fee ≤ transaction.maxFee) :
    fee ≤ transaction.effectiveGasPrice (some fee) := by
  have sum : fee ≤ fee.saturatingAdd transaction.maxPriorityFee := by
    have small : fee.toNat < Word.size := fee.isLt
    have clamped : min (fee.toNat + transaction.maxPriorityFee.toNat) (Word.size - 1) <
        Word.size := by
      omega
    rw [BitVec.le_def, Word.saturatingAdd, Word.ofNatClamped, BitVec.toNat_ofNat,
      Nat.mod_eq_of_lt clamped]
    omega
  unfold effectiveGasPrice
  dsimp only [Word.minimum]
  split
  · exact capped
  · exact sum

/-- Tip and base fee are the two parts of the price. -/
theorem priorityFee_add_baseFee {transaction : Transaction} {baseFee : Option Word}
    (capped : ∀ fee, baseFee = some fee → fee ≤ transaction.maxFee) :
    (priorityFee baseFee (transaction.effectiveGasPrice baseFee)).toNat +
        (baseFee.getD 0).toNat =
      (transaction.effectiveGasPrice baseFee).toNat := by
  cases baseFee with
  | none => exact Nat.add_zero _
  | some fee =>
      have covered := le_effectiveGasPrice (capped fee rfl)
      rw [priorityFee, BitVec.toNat_sub_of_le covered, Option.getD_some]
      exact Nat.sub_add_cancel covered

theorem cappedRefund_le (schedule : GasSchedule) (used : UInt64) (refund : Int) :
    schedule.cappedRefund used refund ≤ used := by
  have fraction : used / schedule.maxRefundQuotient ≤ used := by
    rw [UInt64.le_iff_toNat_le, UInt64.toNat_div]
    exact Nat.div_le_self _ _
  change (if UInt64.ofNat refund.toNat ≤ used / schedule.maxRefundQuotient then
    UInt64.ofNat refund.toNat else used / schedule.maxRefundQuotient) ≤ used
  split
  · rename_i below
    exact UInt64.le_trans below fraction
  · exact fraction

/-- The gas that is paid for is part of the limit. -/
theorem gasUsed_le (schedule : GasSchedule) {transaction : Transaction} {root : Frame}
    (part : root.gas.toNat ≤ transaction.gasLimit.toNat) :
    (gasUsed schedule transaction root).toNat ≤ transaction.gasLimit.toNat := by
  let used := transaction.gasLimit - root.gas
  let refund := schedule.cappedRefund used
    (schedule.transactionRefund root.refund root.selfDestructs.size)
  have usedLe : used.toNat ≤ transaction.gasLimit.toNat := by
    rw [UInt64.toNat_sub_of_le _ _ (UInt64.le_iff_toNat_le.mpr part)]
    exact Nat.sub_le _ _
  have refundLe : refund ≤ used := cappedRefund_le _ _ _
  change (used - refund).toNat ≤ _
  rw [UInt64.toNat_sub_of_le _ _ refundLe]
  omega

end ExecutionLayer.Transaction
