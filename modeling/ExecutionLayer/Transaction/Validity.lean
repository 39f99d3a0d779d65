import ExecutionLayer.Account
import ExecutionLayer.Config.Chain
import ExecutionLayer.Transaction.Basic

/-!
# Transaction validity

The rules that a transaction must obey to be included in a block: those that the
block alone decides, and then those that depend on the sender's account.
-/

set_option autoImplicit false

namespace ExecutionLayer.Transaction

/-- The first rule that a transaction breaks. -/
inductive Invalid where
  | wrongChainId (expected actual : UInt64)
  | unsupportedType (typeByte : UInt8)
  | nonce (expected actual : UInt64)
  | intrinsicGas (intrinsic gasLimit : UInt64)
  | blockGasExceeded (gasLimit remaining : UInt64)
  | feeCapTooLow (maxFee baseFee : Word)
  | priorityAboveMax (priority maxFee : Word)
  | insufficientBalance (sender : Address) (required available : Word)
  | costOverflow
  | senderNotEoa (sender : Address)
  | initCodeTooLarge (size limit : Nat)
deriving DecidableEq, Repr, Inhabited

def Invalid.message : Invalid → String
  | .wrongChainId expected actual =>
      "wrong chain id: expected " ++ toString expected.toNat ++ ", got " ++ toString actual.toNat
  | .unsupportedType typeByte =>
      "transaction type " ++ toString typeByte.toNat ++ " not supported at this milestone"
  | .nonce expected actual =>
      "nonce mismatch: account " ++ toString expected.toNat ++ ", transaction " ++
        toString actual.toNat
  | .intrinsicGas intrinsic gasLimit =>
      "intrinsic gas " ++ toString intrinsic.toNat ++ " exceeds gas limit " ++
        toString gasLimit.toNat
  | .blockGasExceeded gasLimit remaining =>
      "gas limit " ++ toString gasLimit.toNat ++ " exceeds remaining block gas " ++
        toString remaining.toNat
  | .feeCapTooLow maxFee baseFee =>
      "max fee " ++ toString maxFee.toNat ++ " below base fee " ++ toString baseFee.toNat
  | .priorityAboveMax priority maxFee =>
      "priority fee " ++ toString priority.toNat ++ " above max fee " ++ toString maxFee.toNat
  | .insufficientBalance sender required available =>
      "insufficient balance for " ++ Hex.ofNatWidth 20 sender.toNat ++ ": need " ++
        toString required.toNat ++ ", have " ++ toString available.toNat
  | .costOverflow => "upfront cost overflow"
  | .senderNotEoa sender => "sender " ++ Hex.ofNatWidth 20 sender.toNat ++ " is a contract"
  | .initCodeTooLarge size limit =>
      "init code size " ++ toString size ++ " exceeds " ++ toString limit

/-- The most that gas and value together can cost the sender. -/
def upfrontCost (transaction : Transaction) : Nat :=
  transaction.gasLimit.toNat * transaction.maxFee.toNat + transaction.value.toNat

/-- Checks what the block alone decides. `remaining` is the gas that the block has left. -/
def checkInBlock (rules : BlockRules) (baseFee : Option Word) (remaining : UInt64)
    (transaction : Transaction) : Except Invalid Unit := do
  let schedule := rules.schedule
  if transaction.kind = .dynamicFee ∧ !schedule.hasBaseFee then
    throw (.unsupportedType transaction.kind.typeByte)
  if let some chainId := transaction.chainId then
    if chainId ≠ rules.chainId then throw (.wrongChainId rules.chainId chainId)
  let intrinsic := intrinsicGas schedule transaction
  if intrinsic > transaction.gasLimit then throw (.intrinsicGas intrinsic transaction.gasLimit)
  if transaction.gasLimit > remaining then
    throw (.blockGasExceeded transaction.gasLimit remaining)
  if let some baseFee := baseFee then
    if transaction.maxFee < baseFee then throw (.feeCapTooLow transaction.maxFee baseFee)
  if transaction.maxPriorityFee > transaction.maxFee then
    throw (.priorityAboveMax transaction.maxPriorityFee transaction.maxFee)
  if let some limit := schedule.maxInitCodeSize then
    if transaction.isCreation ∧ transaction.data.length > limit then
      throw (.initCodeTooLarge transaction.data.length limit)

def checkSender (account : Account) (transaction : Transaction) : Except Invalid Unit := do
  if account.nonce ≠ transaction.nonce then throw (.nonce account.nonce transaction.nonce)
  if !account.code.isEmpty then throw (.senderNotEoa transaction.sender)
  let cost := transaction.upfrontCost
  if cost ≥ Word.size then throw .costOverflow
  if account.balance.toNat < cost then
    throw (.insufficientBalance transaction.sender (BitVec.ofNat 256 cost) account.balance)

end ExecutionLayer.Transaction
