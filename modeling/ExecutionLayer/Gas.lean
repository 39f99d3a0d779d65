import ExecutionLayer.Fork
import ExecutionLayer.Word

/-!
# Gas

Prices of instructions and transactions, and the prices and limits that differ
between milestones. Amounts are unsigned 64-bit numbers.
-/

set_option autoImplicit false

namespace ExecutionLayer

namespace Gas

/-- Instructions that only read the frame or the block. -/
def base : UInt64 := 2
/-- Additions, comparisons, bit operations, pushes and memory access. -/
def veryLow : UInt64 := 3
/-- Multiplication, division and reading the executing account's balance. -/
def low : UInt64 := 5
/-- Modular arithmetic and unconditional jumps. -/
def mid : UInt64 := 8
/-- Conditional jumps. -/
def high : UInt64 := 10
def jumpDest : UInt64 := 1

def txBase : UInt64 := 21000
def txCreate : UInt64 := 53000
def txDataNonZero : UInt64 := 16
def txDataZero : UInt64 := 4
def txAccessListAddress : UInt64 := 2400
def txAccessListKey : UInt64 := 1900

def copyWord : UInt64 := 3

def coldSlot : UInt64 := 2100
def warmSlot : UInt64 := 100
def coldAccount : UInt64 := 2600
def warmAccount : UInt64 := 100

/-- First change of a slot that holds a value. -/
def storeReset : UInt64 := 2900
/-- First change of an empty slot. -/
def storeSet : UInt64 := 20000
/-- A store fails unless more than this much gas is left. -/
def storeSentry : UInt64 := 2300

def callValue : UInt64 := 9000
def callNewAccount : UInt64 := 25000
/-- Gas a called account gets for free when it receives value. -/
def callStipend : UInt64 := 2300

def create : UInt64 := 32000
def codeDepositByte : UInt64 := 200

def log : UInt64 := 375
def logTopic : UInt64 := 375
def logByte : UInt64 := 8

def keccak : UInt64 := 30
def keccakWord : UInt64 := 6
def exp : UInt64 := 10
def expByte : UInt64 := 50
def selfDestruct : UInt64 := 5000
/-- Destroying an account in favour of one that does not exist. -/
def selfDestructNewAccount : UInt64 := 25000
def blockHash : UInt64 := 20

/-- The number of 32-byte words that cover `length` bytes. -/
def wordCount (length : Nat) : UInt64 :=
  UInt64.ofNat ((length + 31) / 32)

def expCost (exponent : Word) : UInt64 :=
  exp + expByte * UInt64.ofNat exponent.byteLength

def keccakCost (length : Nat) : UInt64 :=
  keccak + keccakWord * wordCount length

def logCost (length topics : Nat) : UInt64 :=
  log + logTopic * UInt64.ofNat topics + logByte * UInt64.ofNat length

def copyCost (length : Nat) : UInt64 :=
  copyWord * wordCount length

def accountAccessCost (isCold : Bool) : UInt64 :=
  if isCold then coldAccount else warmAccount

/-- The price of a call before memory and forwarded gas. Creating the account
matters only to calls that move value. -/
def callCost (isCold hasValue createsAccount : Bool) : UInt64 :=
  accountAccessCost isCold +
    if hasValue then callValue + if createsAccount then callNewAccount else 0 else 0

/-- The greatest part of `available` that a child frame may get. -/
def allButOne64th (available : UInt64) : UInt64 :=
  available - available / 64

/-- The requested gas, limited to what a child frame may get. -/
def forwarded (available : UInt64) (requested : Word) : UInt64 :=
  let limit := allButOne64th available
  if requested.toNat > limit.toNat then limit else UInt64.ofNat requested.toNat

/-- The price of a memory of `words` words: linear for small sizes, then quadratic. -/
def memoryCost (words : Nat) : UInt64 :=
  let words := UInt64.ofNat words
  words * words / 512 + 3 * words

/-- What growing a memory from `old` to `new` words costs; shrinking is free. -/
def memoryExpansionCost (old new : Nat) : UInt64 :=
  if new ≤ old then 0 else memoryCost new - memoryCost old

/-- The least amount above all refund counters; its negative is the least counter. -/
def refundBound : Int := 0x8000000000000000

def saturateRefund (refund : Int) : Int :=
  max (-refundBound) (min (refundBound - 1) refund)

end Gas

structure GasSchedule where
  fork : Fork
  /-- The refund is at most this fraction of the gas used. -/
  maxRefundQuotient : UInt64
  storeClearRefund : Int
  /-- The refund for each account destroyed in a transaction. -/
  selfDestructRefund : Int
  maxCodeSize : Nat
  maxInitCodeSize : Option Nat
  initCodeWordCost : UInt64
  /-- Deployed code may not start with the byte 0xEF. -/
  rejectsEfCode : Bool
  warmCoinbase : Bool
  hasBaseFee : Bool
  hasPush0 : Bool
deriving DecidableEq, Repr

namespace GasSchedule

def ofFork (fork : Fork) : GasSchedule :=
  let london := fork.hasLondonRules
  let shanghai := fork.hasShanghaiRules
  { fork
    maxRefundQuotient := if london then 5 else 2
    storeClearRefund := if london then 4800 else 15000
    selfDestructRefund := if london then 0 else 24000
    maxCodeSize := 24576
    maxInitCodeSize := if shanghai then some 49152 else none
    initCodeWordCost := if shanghai then 2 else 0
    rejectsEfCode := london
    warmCoinbase := shanghai
    hasBaseFee := london
    hasPush0 := shanghai }

/-- The refund paid back: nothing for a negative counter, else the counter up to
the milestone's fraction of the gas used. -/
def cappedRefund (schedule : GasSchedule) (gasUsed : UInt64) (refund : Int) : UInt64 :=
  min (UInt64.ofNat refund.toNat) (gasUsed / schedule.maxRefundQuotient)

/-- The counter a transaction settles with: the root frame's counter and the refund
of each destroyed account. -/
def transactionRefund (schedule : GasSchedule) (refund : Int) (destroyed : Nat) : Int :=
  Gas.saturateRefund
    (refund + Gas.saturateRefund (schedule.selfDestructRefund * Gas.saturateRefund destroyed))

def initCodeCost (schedule : GasSchedule) (length : Nat) : UInt64 :=
  schedule.initCodeWordCost * Gas.wordCount length

end GasSchedule

end ExecutionLayer
