import ExecutionLayer.Address
import ExecutionLayer.Gas

/-!
# Transactions

Signed transactions with their recovered sender, the price they pay for gas, and
the gas they use up before any code runs.
-/

set_option autoImplicit false

namespace ExecutionLayer

inductive Transaction.Kind where
  /-- An untyped list with one gas price. -/
  | legacy
  /-- One gas price and an access list. -/
  | accessList
  /-- A tip, a fee cap and an access list. -/
  | dynamicFee
deriving DecidableEq, Repr, Inhabited

namespace Transaction.Kind

/-- The type byte of a form; legacy transactions count as zero but carry no byte. -/
def typeByte : Transaction.Kind → UInt8
  | .legacy => 0
  | .accessList => 1
  | .dynamicFee => 2

def fieldCount : Transaction.Kind → Nat
  | .legacy => 9
  | .accessList => 11
  | .dynamicFee => 12

end Transaction.Kind

/-- An account with some of its slots, announced in advance. -/
structure AccessListEntry where
  address : Address
  slots : List Word
deriving DecidableEq, Repr, Inhabited

/-- A transaction with its sender. Where there is one gas price, it is both the tip
and the fee cap. -/
structure Transaction where
  kind : Transaction.Kind := .legacy
  /-- The chain the transaction was signed for; the oldest form names none. -/
  chainId : Option UInt64 := none
  nonce : UInt64 := 0
  /-- The most that the fee recipient gets for each unit of gas. -/
  maxPriorityFee : Word := 0
  /-- The most that the sender pays for each unit of gas. -/
  maxFee : Word := 0
  gasLimit : UInt64 := 21000
  /-- The called account, or `none` to create a contract. -/
  recipient : Option Address := none
  value : Word := 0
  /-- The input of a call, or the init code of a creation. -/
  data : Bytes := []
  accessList : List AccessListEntry := []
  sender : Address := 0
  hash : Hash := 0
deriving DecidableEq, Repr, Inhabited

namespace Transaction

def isCreation (transaction : Transaction) : Bool :=
  transaction.recipient.isNone

/-- What the sender pays for each unit of gas: the fee cap, or the base fee with the
tip if that is less. Without a base fee it is the fee cap. -/
def effectiveGasPrice (transaction : Transaction) (baseFee : Option Word) : Word :=
  match baseFee with
  | none => transaction.maxFee
  | some baseFee =>
      transaction.maxFee.minimum (baseFee.saturatingAdd transaction.maxPriorityFee)

def dataGas (data : Bytes) : UInt64 :=
  (data.map fun byte => if byte = 0 then Gas.txDataZero else Gas.txDataNonZero).foldr (· + ·) 0

def accessListGas (entries : List AccessListEntry) : UInt64 :=
  (entries.map fun entry =>
    Gas.txAccessListAddress + Gas.txAccessListKey * UInt64.ofNat entry.slots.length).foldr
      (· + ·) 0

/-- The gas that is used up before any code runs. -/
def intrinsicGas (schedule : GasSchedule) (transaction : Transaction) : UInt64 :=
  let base :=
    if transaction.isCreation then
      Gas.txCreate + schedule.initCodeCost transaction.data.length
    else Gas.txBase
  base + dataGas transaction.data + accessListGas transaction.accessList

end Transaction

end ExecutionLayer
