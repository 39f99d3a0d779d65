import ExecutionLayer.Instruction.Action
import ExecutionLayer.Instruction.Basic
import ExecutionLayer.Machine.Context

/-!
# Reading the environment

The values of the frame, the transaction and the block, questions about other
accounts, and copies of call data, code and return data to memory.
-/

set_option autoImplicit false

namespace ExecutionLayer

def Query.cost : Query → UInt64
  | .selfBalance => Gas.low
  | _ => Gas.base

namespace Action

/-- The value of a query. Gas is what is left after paying for the query. -/
def queryValue (context : Context) (what : Query) : Action Word := do
  let frame ← frame
  match what with
  | .address => return frame.message.recipient.toWord
  | .origin => return context.transaction.origin.toWord
  | .caller => return frame.message.sender.toWord
  | .callValue => return frame.message.apparentValue
  | .callDataSize => return BitVec.ofNat 256 frame.message.input.length
  | .codeSize => return BitVec.ofNat 256 frame.message.code.size
  | .gasPrice => return context.transaction.gasPrice
  | .returnDataSize => return BitVec.ofNat 256 frame.returnData.length
  | .coinbase => return context.block.coinbase.toWord
  | .timestamp => return Word.ofUInt64 context.block.timestamp
  | .number => return Word.ofUInt64 context.block.number
  | .difficulty => return context.block.difficulty
  | .gasLimit => return Word.ofUInt64 context.block.gasLimit
  | .chainId => return Word.ofUInt64 context.block.chainId
  | .selfBalance => onWorld (Journaled.balance frame.message.recipient)
  | .baseFee => return context.block.baseFee.getD 0
  | .pc => return BitVec.ofNat 256 frame.pc
  | .memorySize => return BitVec.ofNat 256 frame.memory.size
  | .gas => return Word.ofUInt64 frame.gas

def query (context : Context) (what : Query) : Action Unit := do
  useGas what.cost
  push (← queryValue context what)

/-- The answer to a question about an account. Absent and empty accounts have the
code hash zero. -/
def accountAnswer (address : Address) : AccountQuery → Action Word
  | .balance => onWorld (Journaled.balance address)
  | .codeSize => do
      return BitVec.ofNat 256 (← onWorld (Journaled.code address)).size
  | .codeHash => do
      match ← onWorld (Journaled.account address) with
      | some account => return if account.isEmpty then 0 else account.code.hash
      | none => return 0

def accountQuery (what : AccountQuery) : Action Unit := do
  let target := Address.ofWord (← pop)
  let isCold ← warmAddress target
  useGas (Gas.accountAccessCost isCold)
  push (← accountAnswer target what)

/-- Pushes the 32 bytes of call data at an offset; zeros follow the call data. -/
def callDataLoad : Action Unit := do
  useGas Gas.veryLow
  let offset ← pop
  let input := (← frame).message.input
  match offset.toIndex? with
  | some start => push (Word.ofBytes (Bytes.window input start 32))
  | none => push 0

/-- Takes destination, source offset and length off the stack and pays for the copy.
Gives the window of memory and the source offset. -/
def chargeCopy (baseCost : UInt64) : Action (MemoryRange × Nat) := do
  let destination ← pop
  let offset ← pop
  let length ← pop
  let range ← rangeOf destination length
  useGas (baseCost + Gas.copyCost range.length)
  chargeMemory range
  return (range, offset.toIndexClamped)

/-- Halts unless offset and length on the stack stay within the return data. -/
def requireReturnData : Action Unit := do
  let offset ← peek 1
  let length ← peek 2
  if offset.toNat + length.toNat > (← frame).returnData.length then
    halt .invalidReturnDataBufferAccess

def sourceBytes (frame : Frame) : CopySource → Bytes
  | .callData => frame.message.input
  | .code => frame.message.code.toBytes
  | .returnData => frame.returnData

/-- Copies a source, with zeros after its end, to memory. Return data may not be
read beyond its end. -/
def copy (source : CopySource) : Action Unit := do
  if source = .returnData then requireReturnData
  let (range, offset) ← chargeCopy Gas.veryLow
  modifyFrame fun frame =>
    { frame with memory := frame.memory.writePadded range (sourceBytes frame source) offset }

def extCodeCopy : Action Unit := do
  let target := Address.ofWord (← pop)
  let isCold ← warmAddress target
  let (range, offset) ← chargeCopy (Gas.accountAccessCost isCold)
  let code ← onWorld (Journaled.code target)
  modifyFrame fun frame =>
    { frame with memory := frame.memory.writePadded range code.toBytes offset }

/-- How many ancestors code can name. -/
def blockHashWindow : Nat := 256

/-- The hash of one of the most recent ancestors, zero for any other number. -/
def ancestorHash (context : Context) (requested : Word) : Word :=
  let current := context.block.number.toNat
  if current - blockHashWindow ≤ requested.toNat ∧ requested.toNat < current then
    (context.blockHash (UInt64.ofNat requested.toNat)).getD 0
  else 0

def blockHash (context : Context) : Action Unit := do
  useGas Gas.blockHash
  push (ancestorHash context (← pop))

end Action

end ExecutionLayer
