import ExecutionLayer.Instruction.Action

/-!
# Storage and logs

Loads and stores of the executing account's slots with net metering, and the
emission of logs.
-/

set_option autoImplicit false

namespace ExecutionLayer

/-- What a store costs and how it moves the refund counter. The refund is an exact number:
what the milestones refund for an emptied slot is far from the bounds of 64 bits. -/
structure StoreCharge where
  cost : UInt64
  refund : Int
deriving DecidableEq, Repr

/-- The charge for writing `value` over `current` in a slot that held `original` when
the transaction began. A slot costs its full price on its first change only;
later changes settle the difference through refunds. -/
def StoreCharge.of (original current value : Word) (clearRefund : Int) : StoreCharge :=
  if value = current then ⟨Gas.warmSlot, 0⟩
  else if original = current then
    if original = 0 then ⟨Gas.storeSet, 0⟩
    else ⟨Gas.storeReset, if value = 0 then clearRefund else 0⟩
  else
    let cleared : Int :=
      if original = 0 then 0
      else if current = 0 then -clearRefund
      else if value = 0 then clearRefund
      else 0
    let restored : Int :=
      if original ≠ value then 0
      else if original = 0 then Gas.storeSet.toNat - Gas.warmSlot.toNat
      else Gas.storeReset.toNat - Gas.warmSlot.toNat
    ⟨Gas.warmSlot, cleared + restored⟩

namespace Action

def sload : Action Unit := do
  let slot ← pop
  let address := (← frame).message.recipient
  let isCold ← warmSlot address slot
  useGas (if isCold then Gas.coldSlot else Gas.warmSlot)
  push (← onWorld (Journaled.storage address slot))

/-- Writes a slot. Frames that may only read and frames with too little gas halt. -/
def sstore (clearRefund : Int) : Action Unit := do
  requireWritable
  if (← frame).gas ≤ Gas.storeSentry then halt .insufficientGas
  let slot ← pop
  let value ← pop
  let address := (← frame).message.recipient
  let isCold ← warmSlot address slot
  let current ← onWorld (Journaled.storage address slot)
  let original ← onWorld (Journaled.originalStorage address slot)
  let charge := StoreCharge.of original current value clearRefund
  useGas (charge.cost + if isCold then Gas.coldSlot else 0)
  modifyFrame (·.addRefund charge.refund)
  onWorld (Journaled.setStorage address slot value)

def popWords : Nat → Action (List Word)
  | 0 => pure []
  | count + 1 => do
      let word ← pop
      return word :: (← popWords count)

def log (topics : Fin 5) : Action Unit := do
  requireWritable
  let offset ← pop
  let length ← pop
  let range ← rangeOf offset length
  let words ← popWords topics
  useGas (Gas.logCost range.length topics)
  chargeMemory range
  let data ← readMemory range
  modifyFrame fun frame => frame.addLog ⟨frame.message.recipient, words, data⟩

end Action

end ExecutionLayer
