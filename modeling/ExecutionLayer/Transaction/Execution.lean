import ExecutionLayer.Execution
import ExecutionLayer.Transaction.Validity

/-!
# Executing transactions

A valid transaction buys its gas, counts the sender's nonce up and runs its root
frame. These first two steps stay even if the frame fails. Afterwards the unused gas
goes back to the sender and the tip to the fee recipient, while the base fee is gone.
-/

set_option autoImplicit false

namespace ExecutionLayer.Transaction

structure Outcome where
  /-- The net changes, fees included. -/
  effects : StateEffects
  /-- The gas paid for, after the refund. -/
  gasUsed : UInt64
  success : Bool
  logs : List Log
  /-- The address that a creation aimed at. -/
  contractAddress : Option Address
deriving Inhabited

inductive Failure where
  | invalid (reason : Invalid)
  | state (error : StateError)
deriving DecidableEq, Repr, Inhabited

def check (rules : BlockRules) (baseFee : Option Word) (remaining : UInt64)
    (transaction : Transaction) : Journaled (Except Invalid Unit) := do
  match transaction.checkInBlock rules baseFee remaining with
  | .error reason => return .error reason
  | .ok () =>
      let account := (← Journaled.account transaction.sender).getD {}
      return transaction.checkSender account

def warmAddresses (schedule : GasSchedule) (coinbase recipient : Address)
    (transaction : Transaction) : Std.ExtTreeSet Address :=
  .ofList
    (Precompile.addresses ++ [transaction.sender, recipient] ++
      (if schedule.warmCoinbase then [coinbase] else []) ++
      transaction.accessList.map (·.address))

def warmSlots (transaction : Transaction) : Std.ExtTreeSet SlotId :=
  .ofList (transaction.accessList.flatMap fun entry => entry.slots.map (entry.address, ·))

def contractAddress (nonce : UInt64) (transaction : Transaction) : Option Address :=
  if transaction.isCreation then some (transaction.sender.created nonce) else none

/-- The message of the root frame, for a sender that had the given nonce. The data is the
input of a call and the code of a creation. -/
def rootMessage (schedule : GasSchedule) (nonce : UInt64) (transaction : Transaction) :
    Journaled Message := do
  let gas := transaction.gasLimit - intrinsicGas schedule transaction
  match transaction.recipient with
  | some recipient =>
      return {
        kind := .messageCall, sender := transaction.sender, recipient, contract := recipient
        value := transaction.value, apparentValue := transaction.value
        input := transaction.data, code := ← Journaled.code recipient, gas }
  | none =>
      let recipient := transaction.sender.created nonce
      return {
        kind := .contractCreation, sender := transaction.sender, recipient, contract := recipient
        value := transaction.value, apparentValue := transaction.value
        code := Code.ofBytes transaction.data, gas }

def runRoot (schedule : GasSchedule) (context : Context) (root : Frame) : Journaled Frame :=
  fun world =>
    match process schedule context root world with
    | .ok (root, world) => .ok root world
    | .error error => .error error world

def gasUsed (schedule : GasSchedule) (transaction : Transaction) (root : Frame) : UInt64 :=
  let used := transaction.gasLimit - root.gas
  let refund := schedule.transactionRefund root.refund root.selfDestructs.size
  used - schedule.cappedRefund used refund

/-- The part of the price that the fee recipient gets. -/
def priorityFee (baseFee : Option Word) (price : Word) : Word :=
  match baseFee with
  | none => price
  | some baseFee => price - baseFee

/-- Buys the gas and counts the nonce up. The result is the nonce from before. -/
def buyGas (price : Word) (transaction : Transaction) : Journaled UInt64 := do
  let nonce ← Journaled.nonce transaction.sender
  Journaled.subBalance transaction.sender (Word.ofUInt64 transaction.gasLimit * price)
  Journaled.incrementNonce transaction.sender
  return nonce

/-- Pays the unused gas back, gives the fee recipient its part, and deletes destroyed and
empty accounts. -/
def settle (block : BlockContext) (price : Word) (gasUsed : UInt64) (transaction : Transaction)
    (root : Frame) : Journaled Unit := do
  Journaled.addBalance transaction.sender
    (Word.ofUInt64 (transaction.gasLimit - gasUsed) * price)
  Journaled.addBalance block.coinbase (Word.ofUInt64 gasUsed * priorityFee block.baseFee price)
  Journaled.finalize root.selfDestructs

/-- Executes a valid transaction. The result is the completed root frame, with the
nonce that the sender had. -/
def execute (schedule : GasSchedule) (block : BlockContext) (blockHash : UInt64 → Option Hash)
    (transaction : Transaction) : Journaled (Frame × UInt64) := do
  let price := transaction.effectiveGasPrice block.baseFee
  let nonce ← transaction.buyGas price
  let message ← transaction.rootMessage schedule nonce
  let root := Frame.ofMessage message
    (transaction.warmAddresses schedule block.coinbase message.recipient) transaction.warmSlots
  let context : Context :=
    { block, transaction := ⟨transaction.sender, price⟩, blockHash }
  let root ← runRoot schedule context root
  transaction.settle block price (transaction.gasUsed schedule root) root
  return (root, nonce)

/-- Applies a transaction on top of a view. `remaining` is the gas that the block has left. -/
def apply (rules : BlockRules) (view : WorldView) (block : BlockContext)
    (blockHash : UInt64 → Option Hash) (remaining : UInt64) (transaction : Transaction) :
    Except Failure Outcome :=
  match transaction.check rules block.baseFee remaining { base := view } with
  | .error error _ => .error (.state error)
  | .ok (.error reason) _ => .error (.invalid reason)
  | .ok (.ok ()) world =>
      match transaction.execute rules.schedule block blockHash world with
      | .error error _ => .error (.state error)
      | .ok (root, nonce) world =>
          .ok
            { effects := world.effects
              gasUsed := transaction.gasUsed rules.schedule root
              success := root.status = .completedSuccess
              logs := root.logs
              contractAddress := transaction.contractAddress nonce }

end ExecutionLayer.Transaction
