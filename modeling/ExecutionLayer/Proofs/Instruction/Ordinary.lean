import ExecutionLayer.Instruction.Step
import ExecutionLayer.Proofs.Instruction.Charges

/-!
# Ordinary instructions

The instructions that neither jump nor end or suspend the frame. Each of them pays at
least one unit of gas.
-/

set_option autoImplicit false

namespace ExecutionLayer.Action

/-! ## Prices -/

theorem toNat_mul_le (a b : UInt64) : (a * b).toNat ≤ a.toNat * b.toNat := by
  rw [UInt64.toNat_mul]
  exact Nat.mod_le _ _

theorem toNat_add_le (a b : UInt64) : (a + b).toNat ≤ a.toNat + b.toNat := by
  rw [UInt64.toNat_add]
  exact Nat.mod_le _ _

theorem toNat_ofNat_le (value : Nat) : (UInt64.ofNat value).toNat ≤ value := by
  rw [UInt64.toNat_ofNat']
  exact Nat.mod_le _ _

theorem toNat_add_of_lt {a b : UInt64} (fits : a.toNat + b.toNat < 2 ^ 64) :
    (a + b).toNat = a.toNat + b.toNat := by
  rw [UInt64.toNat_add]
  exact Nat.mod_eq_of_lt fits

theorem toNat_add_add_of_lt {a b c : UInt64} (fits : a.toNat + b.toNat + c.toNat < 2 ^ 64) :
    (a + b + c).toNat = a.toNat + b.toNat + c.toNat := by
  have first : (a + b).toNat = a.toNat + b.toNat := by
    apply toNat_add_of_lt
    omega
  rw [toNat_add_of_lt] <;> rw [first]
  exact fits

theorem expCost_pos (exponent : Word) : 1 ≤ (Gas.expCost exponent).toNat := by
  have bytes : exponent.byteLength ≤ 32 := by
    unfold Word.byteLength
    split
    · exact Nat.zero_le _
    · rename_i nonzero
      have positive : exponent.toNat ≠ 0 := by
        intro zero
        exact nonzero (BitVec.eq_of_toNat_eq zero)
      have bound := (Nat.log2_lt positive).mpr exponent.isLt
      omega
  have base : Gas.exp.toNat = 10 := rfl
  have each : Gas.expByte.toNat = 50 := rfl
  have words := toNat_ofNat_le exponent.byteLength
  have total := toNat_mul_le Gas.expByte (UInt64.ofNat exponent.byteLength)
  rw [each] at total
  rw [Gas.expCost, toNat_add_of_lt]
  · omega
  · omega

theorem wordCount_le {length : Nat} (le : length ≤ MemoryRange.limit) :
    (Gas.wordCount length).toNat ≤ 134217728 := by
  have words := toNat_ofNat_le ((length + 31) / 32)
  rw [MemoryRange.limit] at le
  rw [Gas.wordCount]
  omega

theorem keccakCost_pos {length : Nat} (le : length ≤ MemoryRange.limit) :
    1 ≤ (Gas.keccakCost length).toNat := by
  have base : Gas.keccak.toNat = 30 := rfl
  have each : Gas.keccakWord.toNat = 6 := rfl
  have words := wordCount_le le
  have total := toNat_mul_le Gas.keccakWord (Gas.wordCount length)
  rw [each] at total
  rw [Gas.keccakCost, toNat_add_of_lt]
  · omega
  · omega

theorem copyCost_le {length : Nat} (le : length ≤ MemoryRange.limit) :
    (Gas.copyCost length).toNat ≤ 402653184 := by
  have each : Gas.copyWord.toNat = 3 := rfl
  have words := wordCount_le le
  have total := toNat_mul_le Gas.copyWord (Gas.wordCount length)
  rw [each] at total
  rw [Gas.copyCost]
  omega

theorem logCost_pos {length : Nat} (le : length ≤ MemoryRange.limit) (topics : Fin 5) :
    1 ≤ (Gas.logCost length topics).toNat := by
  have few := topics.isLt
  have base : Gas.log.toNat = 375 := rfl
  have eachTopic : Gas.logTopic.toNat = 375 := rfl
  have eachByte : Gas.logByte.toNat = 8 := rfl
  have count := toNat_ofNat_le topics
  have bytes := toNat_ofNat_le length
  have topicTotal := toNat_mul_le Gas.logTopic (UInt64.ofNat topics)
  have byteTotal := toNat_mul_le Gas.logByte (UInt64.ofNat length)
  rw [MemoryRange.limit] at le
  rw [eachTopic] at topicTotal
  rw [eachByte] at byteTotal
  rw [Gas.logCost, toNat_add_add_of_lt]
  · omega
  · omega

/-! ## Computation -/

theorem charges_unary (op : UnaryOp) : Charges 1 Any (unary op) :=
  .bind_paid (charges_useGas (by decide)) fun _ _ => .bind_free charges_pop fun _ _ =>
    charges_push _

theorem charges_binary (op : BinaryOp) : Charges 1 Any (binary op) :=
  .bind_paid (charges_useGas (by cases op <;> decide)) fun _ _ =>
    .bind_free charges_pop fun _ _ => .bind_free charges_pop fun _ _ => charges_push _

theorem charges_ternary (op : TernaryOp) : Charges 1 Any (ternary op) :=
  .bind_paid (charges_useGas (by decide)) fun _ _ => .bind_free charges_pop fun _ _ =>
    .bind_free charges_pop fun _ _ => .bind_free charges_pop fun _ _ => charges_push _

theorem charges_exp : Charges 1 Any exp :=
  .bind_free charges_pop fun _ _ => .bind_free charges_pop fun exponent _ =>
    .bind_paid (charges_useGas (expCost_pos exponent)) fun _ _ => charges_push _

theorem charges_keccak : Charges 1 Any keccak :=
  .bind_free charges_pop fun offset _ => .bind_free charges_pop fun length _ =>
    .bind_free (charges_rangeOf offset length) fun range fits =>
      .bind_paid (charges_useGas (keccakCost_pos fits)) fun _ _ =>
        .bind_free (charges_chargeMemory range) fun _ _ =>
          .bind_free (charges_readMemory range) fun _ _ => charges_push _

theorem charges_pushImmediate (size : Fin 33) : Charges 1 Any (pushImmediate size) :=
  .bind_paid (charges_useGas (by split <;> decide)) fun _ _ =>
    .bind_free charges_frame fun _ _ => charges_push _

theorem charges_dup (depth : Fin 16) : Charges 1 Any (dup depth) :=
  .bind_paid (charges_useGas (by decide)) fun _ _ => charges_tryStack (·.dup depth)

theorem charges_swap (depth : Fin 16) : Charges 1 Any (swap depth) :=
  .bind_paid (charges_useGas (by decide)) fun _ _ => charges_tryStack (·.swap (depth + 1))

theorem charges_discardTop : Charges 1 Any discardTop :=
  .bind_paid (charges_useGas (by decide)) fun _ _ =>
    .bind_free charges_pop fun _ _ => .pure trivial

theorem charges_mload : Charges 1 Any mload :=
  .bind_free charges_pop fun _ _ => .bind_free (charges_ofExcept _) fun range _ =>
    .bind_paid (charges_useGas (by decide)) fun _ _ =>
      .bind_free (charges_chargeMemory range) fun _ _ =>
        .bind_free charges_frame fun _ _ => charges_push _

theorem charges_mstore : Charges 1 Any mstore :=
  .bind_free charges_pop fun _ _ => .bind_free charges_pop fun _ _ =>
    .bind_free (charges_ofExcept _) fun range _ =>
      .bind_paid (charges_useGas (by decide)) fun _ _ =>
        .bind_free (charges_chargeMemory range) fun _ _ => charges_writeMemory _ _

theorem charges_mstore8 : Charges 1 Any mstore8 :=
  .bind_free charges_pop fun _ _ => .bind_free charges_pop fun _ _ =>
    .bind_free (charges_ofExcept _) fun range _ =>
      .bind_paid (charges_useGas (by decide)) fun _ _ =>
        .bind_free (charges_chargeMemory range) fun _ _ => charges_writeMemory _ _

/-! ## The environment -/

/-- A question to the world that the account at an address answers. -/
theorem charges_question {Value : Type} (question : Option Account → Value) (address : Address) :
    Charges 0 Any (onWorld (do return question (← Journaled.account address))) :=
  charges_onWorld (Journaled.safeAt_question question address)

theorem charges_balance (address : Address) :
    Charges 0 Any (onWorld (Journaled.balance address)) :=
  charges_question (fun account => (account.getD {}).balance) address

theorem charges_code (address : Address) : Charges 0 Any (onWorld (Journaled.code address)) :=
  charges_question (fun account => (account.getD {}).code) address

theorem charges_queryValue (context : Context) (what : Query) :
    Charges 0 Any (queryValue context what) := by
  apply Charges.bind_free charges_frame
  intro frame _
  cases what with
  | selfBalance => exact charges_balance frame.message.recipient
  | _ => exact .pure trivial

theorem charges_query (context : Context) (what : Query) : Charges 1 Any (query context what) :=
  .bind_paid (charges_useGas (by cases what <;> decide)) fun _ _ =>
    .bind_free (charges_queryValue context what) fun _ _ => charges_push _

theorem charges_accountAnswer (address : Address) (what : AccountQuery) :
    Charges 0 Any (accountAnswer address what) := by
  cases what with
  | balance => exact charges_balance address
  | codeSize => exact .bind_free (charges_code address) fun _ _ => .pure trivial
  | codeHash =>
      apply Charges.bind_free (charges_onWorld (Journaled.safeAt_account address))
      intro found _
      cases found <;> exact .pure trivial

theorem charges_accountQuery (what : AccountQuery) : Charges 1 Any (accountQuery what) :=
  .bind_free charges_pop fun _ _ => .bind_free (charges_warmAddress _) fun isCold _ =>
    .bind_paid (charges_useGas (by cases isCold <;> decide)) fun _ _ =>
      .bind_free (charges_accountAnswer _ what) fun _ _ => charges_push _

theorem charges_callDataLoad : Charges 1 Any callDataLoad := by
  apply Charges.bind_paid (charges_useGas (by decide))
  intro _ _
  apply Charges.bind_free charges_pop
  intro offset _
  apply Charges.bind_free charges_frame
  intro frame _
  cases offset.toIndex? <;> exact charges_push _

/-- A price that grows with the bytes that are copied. -/
theorem copyTotal_ge {cost length : Nat} {base : UInt64} (least : cost ≤ base.toNat)
    (small : base.toNat ≤ 2600) (le : length ≤ MemoryRange.limit) :
    cost ≤ (base + Gas.copyCost length).toNat := by
  have copied := copyCost_le le
  rw [toNat_add_of_lt]
  · omega
  · omega

theorem charges_chargeCopy {cost : Nat} {base : UInt64} (least : cost ≤ base.toNat)
    (small : base.toNat ≤ 2600) : Charges cost Any (chargeCopy base) :=
  .bind_free charges_pop fun _ _ => .bind_free charges_pop fun _ _ =>
    .bind_free charges_pop fun _ _ => .bind_free (charges_rangeOf _ _) fun range fits =>
      .bind_paid (charges_useGas (copyTotal_ge least small fits)) fun _ _ =>
        .bind_free (charges_chargeMemory range) fun _ _ => .pure trivial

theorem charges_requireReturnData : Charges 0 Any requireReturnData :=
  .bind_free (charges_peek 1) fun _ _ => .bind_free (charges_peek 2) fun _ _ =>
    .bind_free charges_frame fun _ _ => .ite (fun _ => charges_halt _) fun _ => .pure trivial

theorem charges_copy (source : CopySource) : Charges 1 Any (copy source) := by
  apply Charges.ite
  · intro _
    exact .bind_free charges_requireReturnData fun _ _ =>
      .bind_paid (charges_chargeCopy (by decide) (by decide)) fun _ _ =>
        charges_modifyFrame (fun _ => ⟨rfl, rfl, rfl, rfl, rfl⟩) fun _ => rfl
  · intro _
    exact .bind_paid (charges_chargeCopy (by decide) (by decide)) fun _ _ =>
      charges_modifyFrame (fun _ => ⟨rfl, rfl, rfl, rfl, rfl⟩) fun _ => rfl

theorem charges_extCodeCopy : Charges 1 Any extCodeCopy :=
  .bind_free charges_pop fun _ _ => .bind_free (charges_warmAddress _) fun isCold _ =>
    .bind_paid (charges_chargeCopy (by cases isCold <;> decide) (by cases isCold <;> decide))
      fun _ _ => .bind_free (charges_code _) fun _ _ =>
        charges_modifyFrame (fun _ => ⟨rfl, rfl, rfl, rfl, rfl⟩) fun _ => rfl

theorem charges_blockHash (context : Context) : Charges 1 Any (blockHash context) :=
  .bind_paid (charges_useGas (by decide)) fun _ _ => .bind_free charges_pop fun _ _ =>
    charges_push _

/-! ## Storage and logs -/

theorem charges_sload : Charges 1 Any sload :=
  .bind_free charges_pop fun slot _ => .bind_free charges_frame fun frame _ =>
    .bind_free (charges_warmSlot frame.message.recipient slot) fun isCold _ =>
      .bind_paid (charges_useGas (by cases isCold <;> decide)) fun _ _ =>
        .bind_free (charges_onWorld (Journaled.safeAt_storage frame.message.recipient slot))
          fun _ _ => charges_push _

theorem storeCharge_cost (original current value : Word) (clearRefund : Int) :
    let cost := (StoreCharge.of original current value clearRefund).cost
    cost = Gas.warmSlot ∨ cost = Gas.storeSet ∨ cost = Gas.storeReset := by
  unfold StoreCharge.of
  split
  · exact .inl rfl
  · split
    · split
      · exact .inr (.inl rfl)
      · exact .inr (.inr rfl)
    · exact .inl rfl

theorem storeCharge_bounds (original current value : Word) (clearRefund : Int) :
    100 ≤ (StoreCharge.of original current value clearRefund).cost.toNat ∧
      (StoreCharge.of original current value clearRefund).cost.toNat ≤ 20000 := by
  rcases storeCharge_cost original current value clearRefund with warm | set | reset
  · rw [warm]
    decide
  · rw [set]
    decide
  · rw [reset]
    decide

theorem storeCost_eq (original current value : Word) (clearRefund : Int) (isCold : Bool) :
    ((StoreCharge.of original current value clearRefund).cost +
        if isCold then Gas.coldSlot else 0).toNat =
      (StoreCharge.of original current value clearRefund).cost.toNat +
        (if isCold then Gas.coldSlot else 0).toNat := by
  obtain ⟨_, small⟩ := storeCharge_bounds original current value clearRefund
  have surcharge : (if isCold then Gas.coldSlot else 0).toNat ≤ 2100 := by
    cases isCold <;> decide
  apply toNat_add_of_lt
  omega

theorem keeps_addRefund (frame : Frame) (amount : Int) : frame.Keeps (frame.addRefund amount) := by
  unfold Frame.addRefund
  split <;> exact ⟨rfl, rfl, rfl, rfl, rfl⟩

theorem gas_addRefund (frame : Frame) (amount : Int) : (frame.addRefund amount).gas = frame.gas := by
  unfold Frame.addRefund
  split <;> rfl

theorem charges_sstore (clearRefund : Int) : Charges 1 Any (sstore clearRefund) := by
  apply Charges.bind_free charges_requireWritable
  intro _ _
  apply Charges.bind_free charges_frame
  intro _ _
  apply Charges.ite fun _ => charges_halt _
  intro _
  apply Charges.bind_free charges_pop
  intro slot _
  apply Charges.bind_free charges_pop
  intro value _
  apply Charges.bind_free charges_frame
  intro frame _
  apply Charges.bind_free (charges_warmSlot frame.message.recipient slot)
  intro isCold _
  apply Charges.bind_free (charges_onWorld (Journaled.safeAt_storage frame.message.recipient slot))
  intro current _
  apply Charges.bind_free
    (charges_onWorld (Journaled.safeAt_originalStorage frame.message.recipient slot))
  intro original _
  have positive := (storeCharge_bounds original current value clearRefund).1
  have whole := storeCost_eq original current value clearRefund isCold
  apply Charges.bind_paid (charges_useGas (by omega))
  intro _ _
  apply Charges.bind_free
    (charges_modifyFrame (fun frame => keeps_addRefund frame _) fun frame => gas_addRefund frame _)
  intro _ _
  exact charges_onWorld (Journaled.safeAt_setStorage frame.message.recipient slot value)

theorem charges_popWords (count : Nat) : Charges 0 Any (popWords count) := by
  induction count with
  | zero => exact .pure trivial
  | succ count ih =>
      exact .bind_free charges_pop fun _ _ => .bind_free ih fun _ _ => .pure trivial

theorem keeps_addLog (frame : Frame) (log : Log) : frame.Keeps (frame.addLog log) := by
  unfold Frame.addLog
  split <;> exact ⟨rfl, rfl, rfl, rfl, rfl⟩

theorem gas_addLog (frame : Frame) (log : Log) : (frame.addLog log).gas = frame.gas := by
  unfold Frame.addLog
  split <;> rfl

theorem charges_log (topics : Fin 5) : Charges 1 Any (log topics) :=
  .bind_free charges_requireWritable fun _ _ => .bind_free charges_pop fun _ _ =>
    .bind_free charges_pop fun _ _ => .bind_free (charges_rangeOf _ _) fun range fits =>
      .bind_free (charges_popWords topics) fun _ _ =>
        .bind_paid (charges_useGas (logCost_pos fits topics)) fun _ _ =>
          .bind_free (charges_chargeMemory range) fun _ _ =>
            .bind_free (charges_readMemory range) fun _ _ =>
              charges_modifyFrame (fun frame => keeps_addLog frame _) fun frame =>
                gas_addLog frame _

end ExecutionLayer.Action
