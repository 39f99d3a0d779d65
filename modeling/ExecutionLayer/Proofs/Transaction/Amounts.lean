import Mathlib.Algebra.Order.BigOperators.Group.List
import ExecutionLayer.Proofs.Transaction.Stages

/-!
# Amounts

The gas and the fees of an applied transaction are the numbers that they stand for: no sum or
product passes the greatest number, and no difference is below zero.
-/

set_option autoImplicit false

namespace ExecutionLayer

/-! ## Refunds -/

namespace GasSchedule

theorem transactionRefund_lt (schedule : GasSchedule) (refund : Int) (destroyed : Nat) :
    schedule.transactionRefund refund destroyed < Gas.refundBound := by
  have clamped (counter : Int) : Gas.saturateRefund counter < Gas.refundBound := by
    unfold Gas.saturateRefund Gas.refundBound
    omega
  exact clamped _

theorem toNat_cappedRefund (schedule : GasSchedule) (used : UInt64) {refund : Int}
    (small : refund < Gas.refundBound) :
    (schedule.cappedRefund used refund).toNat =
      min refund.toNat (used.toNat / schedule.maxRefundQuotient.toNat) := by
  have bound : refund.toNat < UInt64.size := by
    have size : UInt64.size = 2 ^ 64 := rfl
    unfold Gas.refundBound at small
    omega
  have whole : (UInt64.ofNat refund.toNat).toNat = refund.toNat := by
    rw [UInt64.toNat_ofNat', Nat.mod_eq_of_lt bound]
  change (if UInt64.ofNat refund.toNat ≤ used / schedule.maxRefundQuotient then
    UInt64.ofNat refund.toNat else used / schedule.maxRefundQuotient).toNat = _
  simp only [UInt64.le_iff_toNat_le, whole, UInt64.toNat_div]
  split
  · rw [whole]
    omega
  · rw [UInt64.toNat_div]
    omega

theorem two_le_maxRefundQuotient (fork : Fork) :
    2 ≤ (GasSchedule.ofFork fork).maxRefundQuotient.toNat := by
  cases fork <;> decide

/-- Init code is free, or priced and limited. -/
theorem initCode_cases (fork : Fork) :
    (GasSchedule.ofFork fork).initCodeWordCost = 0 ∨
      (GasSchedule.ofFork fork).initCodeWordCost = 2 ∧
        (GasSchedule.ofFork fork).maxInitCodeSize = some 49152 := by
  cases fork <;> decide

end GasSchedule

namespace Transaction

/-! ## Intrinsic gas -/

/-- The gas that is used up before any code runs, without a bound. -/
def intrinsicCost (schedule : GasSchedule) (transaction : Transaction) : Nat :=
  (if transaction.isCreation then
      53000 + schedule.initCodeWordCost.toNat * ((transaction.data.length + 31) / 32)
    else 21000) +
    (transaction.data.map fun byte => if byte = 0 then 4 else 16).sum +
    (transaction.accessList.map fun entry => 2400 + 1900 * entry.slots.length).sum

/-- The bytes that the data, the addresses and the slots of a transaction take. -/
def footprint (transaction : Transaction) : Nat :=
  transaction.data.length +
    (transaction.accessList.map fun entry => 20 + 32 * entry.slots.length).sum

/-- The transaction fits into an address space of 57 bits, the largest that a machine has. -/
def Addressable (transaction : Transaction) : Prop :=
  transaction.footprint ≤ 2 ^ 57

theorem toNat_foldr_add {Value : Type} {gas : Value → UInt64} {cost : Value → Nat}
    (same : ∀ value, (gas value).toNat = cost value % UInt64.size) (values : List Value) :
    ((values.map gas).foldr (· + ·) 0).toNat = (values.map cost).sum % UInt64.size := by
  induction values with
  | nil => rfl
  | cons value rest ih =>
      simp only [List.map_cons, List.foldr_cons, List.sum_cons, UInt64.toNat_add, ih, same]
      exact (Nat.add_mod _ _ _).symm

theorem toNat_dataGas (data : Bytes) :
    (dataGas data).toNat =
      (data.map fun byte => if byte = 0 then 4 else 16).sum % UInt64.size := by
  apply toNat_foldr_add
  intro byte
  split <;> rfl

theorem toNat_accessListGas (entries : List AccessListEntry) :
    (accessListGas entries).toNat =
      (entries.map fun entry => 2400 + 1900 * entry.slots.length).sum % UInt64.size := by
  apply toNat_foldr_add
  intro entry
  simp only [Gas.txAccessListAddress, Gas.txAccessListKey, UInt64.toNat_add, UInt64.toNat_mul,
    UInt64.toNat_ofNat', UInt64.size, UInt64.reduceToNat]
  omega

theorem toNat_initCodeCost (schedule : GasSchedule) (length : Nat) :
    (schedule.initCodeCost length).toNat =
      schedule.initCodeWordCost.toNat * ((length + 31) / 32) % UInt64.size := by
  rw [GasSchedule.initCodeCost, Gas.wordCount, UInt64.toNat_mul, UInt64.toNat_ofNat']
  exact Nat.mul_mod_mod _ _ _

/-- In sums of 64-bit numbers the cost is what is left of it by 64 bits. -/
theorem toNat_intrinsicGas (schedule : GasSchedule) (transaction : Transaction) :
    (intrinsicGas schedule transaction).toNat =
      transaction.intrinsicCost schedule % UInt64.size := by
  have base : (if transaction.isCreation then
        Gas.txCreate + schedule.initCodeCost transaction.data.length else Gas.txBase).toNat =
      (if transaction.isCreation then
        53000 + schedule.initCodeWordCost.toNat * ((transaction.data.length + 31) / 32)
        else 21000) % UInt64.size := by
    split
    · rw [UInt64.toNat_add, toNat_initCodeCost]
      exact Nat.add_mod_mod _ _ _
    · rfl
  unfold intrinsicGas intrinsicCost
  rw [UInt64.toNat_add, UInt64.toNat_add, base, toNat_dataGas, toNat_accessListGas]
  simp only [UInt64.size, Nat.mod_add_mod, Nat.add_mod_mod]

theorem initCodeCost_le {rules : BlockRules} {baseFee : Option Word} {remaining : UInt64}
    {transaction : Transaction} (admitted : Admitted rules baseFee remaining transaction)
    (creates : transaction.isCreation = true) :
    rules.schedule.initCodeWordCost.toNat * ((transaction.data.length + 31) / 32) ≤ 3072 := by
  rcases GasSchedule.initCode_cases rules.fork with free | ⟨priced, limited⟩
  · have cost : rules.schedule.initCodeWordCost = 0 := free
    simp [cost]
  · have cost : rules.schedule.initCodeWordCost = 2 := priced
    have limit := admitted.initCode 49152 limited creates
    rw [cost]
    change 2 * _ ≤ _
    omega

theorem dataCost_le (data : Bytes) :
    (data.map fun byte => if byte = 0 then 4 else 16).sum ≤ 16 * data.length := by
  induction data with
  | nil => rfl
  | cons byte rest ih =>
      rw [List.map_cons, List.sum_cons, List.length_cons]
      split <;> omega

theorem accessListCost_le (entries : List AccessListEntry) :
    (entries.map fun entry => 2400 + 1900 * entry.slots.length).sum ≤
      120 * (entries.map fun entry => 20 + 32 * entry.slots.length).sum := by
  induction entries with
  | nil => rfl
  | cons entry rest ih =>
      rw [List.map_cons, List.sum_cons, List.map_cons, List.sum_cons]
      omega

theorem intrinsicCost_lt {rules : BlockRules} {baseFee : Option Word} {remaining : UInt64}
    {transaction : Transaction} (admitted : Admitted rules baseFee remaining transaction)
    (addressable : transaction.Addressable) :
    transaction.intrinsicCost rules.schedule < UInt64.size := by
  have data := dataCost_le transaction.data
  have accessList := accessListCost_le transaction.accessList
  have size : UInt64.size = 2 ^ 64 := rfl
  unfold Addressable footprint at addressable
  unfold intrinsicCost
  split
  · have initCode := initCodeCost_le admitted (by assumption)
    omega
  · omega

theorem le_intrinsicCost (schedule : GasSchedule) (transaction : Transaction) :
    21000 ≤ transaction.intrinsicCost schedule := by
  unfold intrinsicCost
  split <;> omega

/-! ## Gas and fees -/

/-- The amounts of a transaction whose root frame is completed, without bounds. -/
structure Amounts (schedule : GasSchedule) (block : BlockContext) (transaction : Transaction)
    (root : Frame) : Prop where
  initCode : transaction.isCreation = true →
    (schedule.initCodeCost transaction.data.length).toNat =
      schedule.initCodeWordCost.toNat * ((transaction.data.length + 31) / 32)
  purchase : (Word.ofUInt64 transaction.gasLimit *
      transaction.effectiveGasPrice block.baseFee).toNat =
    transaction.gasLimit.toNat * (transaction.effectiveGasPrice block.baseFee).toNat
  provided : (transaction.gasLimit - intrinsicGas schedule transaction).toNat +
      (intrinsicGas schedule transaction).toNat =
    transaction.gasLimit.toNat
  used : (transaction.gasLimit - root.gas).toNat + root.gas.toNat = transaction.gasLimit.toNat
  refund : (schedule.cappedRefund (transaction.gasLimit - root.gas)
      (schedule.transactionRefund root.refund root.selfDestructs.size)).toNat =
    min (schedule.transactionRefund root.refund root.selfDestructs.size).toNat
      ((transaction.gasLimit - root.gas).toNat / schedule.maxRefundQuotient.toNat)
  charged : (transaction.gasUsed schedule root).toNat +
      (schedule.cappedRefund (transaction.gasLimit - root.gas)
        (schedule.transactionRefund root.refund root.selfDestructs.size)).toNat =
    (transaction.gasLimit - root.gas).toNat
  unused : (transaction.gasLimit - transaction.gasUsed schedule root).toNat +
      (transaction.gasUsed schedule root).toNat =
    transaction.gasLimit.toNat
  payback : (Word.ofUInt64 (transaction.gasLimit - transaction.gasUsed schedule root) *
      transaction.effectiveGasPrice block.baseFee).toNat =
    (transaction.gasLimit - transaction.gasUsed schedule root).toNat *
      (transaction.effectiveGasPrice block.baseFee).toNat
  tip : (priorityFee block.baseFee (transaction.effectiveGasPrice block.baseFee)).toNat +
      (block.baseFee.getD 0).toNat =
    (transaction.effectiveGasPrice block.baseFee).toNat
  fee : (Word.ofUInt64 (transaction.gasUsed schedule root) *
      priorityFee block.baseFee (transaction.effectiveGasPrice block.baseFee)).toNat =
    (transaction.gasUsed schedule root).toNat *
      (priorityFee block.baseFee (transaction.effectiveGasPrice block.baseFee)).toNat

section

variable {rules : BlockRules} {view : WorldView} {block : BlockContext}
  {blockHash : UInt64 → Option Hash} {remaining : UInt64} {transaction : Transaction}

theorem amounts_of_valid {root : Frame}
    (admitted : Admitted rules block.baseFee remaining transaction)
    (small : transaction.upfrontCost < Word.size)
    (part : root.gas ≤ transaction.gasLimit) :
    Amounts rules.schedule block transaction root := by
  have capped := cappedRefund_le rules.schedule (transaction.gasLimit - root.gas)
    (rules.schedule.transactionRefund root.refund root.selfDestructs.size)
  have usedLe := gasUsed_le rules.schedule (UInt64.le_iff_toNat_le.mp part)
  have tip := priorityFee_add_baseFee admitted.capped
  have cost {gas : UInt64} {price : Word} (gasLe : gas.toNat ≤ transaction.gasLimit.toNat)
      (priceLe : price.toNat ≤ (transaction.effectiveGasPrice block.baseFee).toNat) :
      (Word.ofUInt64 gas * price).toNat = gas.toNat * price.toNat := by
    apply toNat_cost
    have product := Nat.mul_le_mul gasLe
      (priceLe.trans (transaction.effectiveGasPrice_le block.baseFee))
    unfold upfrontCost at small
    omega
  have split {less whole : UInt64} (le : less ≤ whole) :
      (whole - less).toNat + less.toNat = whole.toNat := by
    have bound := UInt64.le_iff_toNat_le.mp le
    rw [UInt64.toNat_sub_of_le _ _ le]
    omega
  constructor
  case initCode =>
    intro creates
    have bound := initCodeCost_le admitted creates
    have size : UInt64.size = 2 ^ 64 := rfl
    rw [toNat_initCodeCost]
    exact Nat.mod_eq_of_lt (by omega)
  case purchase => exact cost (Nat.le_refl _) (Nat.le_refl _)
  case provided => exact split admitted.intrinsic
  case used => exact split part
  case refund =>
    exact rules.schedule.toNat_cappedRefund _ (rules.schedule.transactionRefund_lt _ _)
  case charged => exact split capped
  case unused => exact split (UInt64.le_iff_toNat_le.mpr usedLe)
  case payback =>
    have unused := split (UInt64.le_iff_toNat_le.mpr usedLe)
    exact cost (by omega) (Nat.le_refl _)
  case tip => exact tip
  case fee => exact cost usedLe (by omega)

/-- What the gas of an applied transaction lies between. -/
structure Bounds (schedule : GasSchedule) (remaining : UInt64) (transaction : Transaction)
    (root : Frame) : Prop where
  intrinsic : intrinsicGas schedule transaction ≤ transaction.gasLimit - root.gas
  limit : transaction.gasLimit - root.gas ≤ transaction.gasLimit
  room : transaction.gasLimit ≤ remaining
  refunded : (transaction.gasLimit - root.gas) -
      (transaction.gasLimit - root.gas) / schedule.maxRefundQuotient ≤
    transaction.gasUsed schedule root
  used : transaction.gasUsed schedule root ≤ transaction.gasLimit - root.gas

theorem execute_bounds {world final : JournaledWorld} {root : Frame} {nonce : UInt64}
    (passes : Passes rules view block.baseFee remaining transaction)
    (executed : transaction.execute rules.schedule block blockHash world =
      .ok (root, nonce) final) :
    Amounts rules.schedule block transaction root ∧
      Bounds rules.schedule remaining transaction root := by
  obtain ⟨inBlock, found, read, valid⟩ := passes
  have admitted := admitted_of_checkInBlock inBlock
  obtain ⟨_, small, _⟩ := checkSender_ok valid
  obtain ⟨_, message, asked, _, _, asking, ran, _⟩ := execute_ok executed
  obtain ⟨_, _, gas, _⟩ := rootMessage_ok asking
  have left : root.gas ≤ transaction.gasLimit - intrinsicGas rules.schedule transaction :=
    gas ▸ rootFrame_gas_le ran
  have provided := UInt64.toNat_sub_of_le _ _ admitted.intrinsic
  rw [UInt64.le_iff_toNat_le] at left
  have part : root.gas ≤ transaction.gasLimit := by
    rw [UInt64.le_iff_toNat_le]
    omega
  have amounts := amounts_of_valid admitted small part
  have intrinsic := UInt64.le_iff_toNat_le.mp admitted.intrinsic
  have used := amounts.used
  have charged := amounts.charged
  have refund := amounts.refund
  refine ⟨amounts, ?_, ?_, admitted.room, ?_, ?_⟩
  · rw [UInt64.le_iff_toNat_le]
    omega
  · rw [UInt64.le_iff_toNat_le]
    omega
  · have share := UInt64.toNat_div (transaction.gasLimit - root.gas)
      rules.schedule.maxRefundQuotient
    have fraction := Nat.div_le_self (transaction.gasLimit - root.gas).toNat
      rules.schedule.maxRefundQuotient.toNat
    rw [UInt64.le_iff_toNat_le, UInt64.toNat_sub_of_le _ _ (by
      rw [UInt64.le_iff_toNat_le]
      omega)]
    omega
  · rw [UInt64.le_iff_toNat_le]
    omega

/-- A transaction pays for some gas, and for no more than the block has left. -/
theorem apply_gasUsed {outcome : Outcome}
    (applied : transaction.apply rules view block blockHash remaining = .ok outcome) :
    outcome.gasUsed ≤ remaining ∧ (transaction.Addressable → 0 < outcome.gasUsed) := by
  obtain ⟨checked, root, nonce, final, checking, executed, rfl⟩ := apply_eq_ok applied
  obtain ⟨passes, _, _⟩ := check_ok checking
  obtain ⟨amounts, bounds⟩ := execute_bounds passes executed
  refine ⟨UInt64.le_trans bounds.used (UInt64.le_trans bounds.limit bounds.room), ?_⟩
  intro addressable
  have cost := toNat_intrinsicGas rules.schedule transaction
  rw [Nat.mod_eq_of_lt (intrinsicCost_lt (admitted_of_checkInBlock passes.1) addressable)] at cost
  have least := le_intrinsicCost rules.schedule transaction
  have used := UInt64.le_iff_toNat_le.mp bounds.intrinsic
  have charged := amounts.charged
  have refund := amounts.refund
  -- A refund of at most half leaves something of any positive amount.
  have half : (transaction.gasLimit - root.gas).toNat /
      rules.schedule.maxRefundQuotient.toNat ≤ (transaction.gasLimit - root.gas).toNat / 2 :=
    Nat.div_le_div_left (GasSchedule.two_le_maxRefundQuotient rules.fork) (by omega)
  rw [UInt64.lt_iff_toNat_lt, UInt64.toNat_zero]
  dsimp only
  omega

end

end Transaction

end ExecutionLayer
