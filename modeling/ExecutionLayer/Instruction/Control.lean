import ExecutionLayer.Instruction.Action

/-!
# Flow of control

Jumps, the normal ends of code, and the destruction of the executing account.
-/

set_option autoImplicit false

namespace ExecutionLayer.Action

def jumpTarget (frame : Frame) (destination : Word) : Except Halt Nat :=
  if frame.message.code.isJumpDestination destination.toNat then .ok destination.toNat
  else .error .invalidJumpDestination

def jumpTo (destination : Word) : Action Unit :=
  tryFrame fun frame => do return { frame with pc := ← jumpTarget frame destination }

/-- Jumps, and gives how far the program counter still moves: not at all. -/
def jump : Action Nat := do
  useGas Gas.mid
  jumpTo (← pop)
  return 0

/-- Jumps if the second word is not zero, and gives how far the program counter still
moves: past the instruction if it did not jump. -/
def jumpIf : Action Nat := do
  useGas Gas.high
  let destination ← pop
  let condition ← pop
  if condition = 0 then return 1
  jumpTo destination
  return 0

def stop : Action Unit :=
  modifyFrame (·.succeed [])

/-- The bytes of the window that the top two words name, paid for. -/
def popOutput : Action Bytes := do
  let offset ← pop
  let length ← pop
  let range ← rangeOf offset length
  chargeMemory range
  readMemory range

def returnOutput : Action Unit := do
  let output ← popOutput
  modifyFrame (·.succeed output)

def revertOutput : Action Unit := do
  let output ← popOutput
  modifyFrame (·.revert output)

/-- Sends the whole balance to a beneficiary and schedules the executing account for
deletion. Refunds for deletions are settled at the end of the transaction. -/
def selfDestruct : Action Unit := do
  requireWritable
  let beneficiary := Address.ofWord (← pop)
  let address := (← frame).message.recipient
  let balance ← onWorld (Journaled.balance address)
  let isCold ← warmAddress beneficiary
  let createsAccount ←
    if balance ≠ 0 then onWorld (Journaled.isEmptyOrAbsent beneficiary) else pure false
  useGas (Gas.selfDestruct + (if isCold then Gas.coldAccount else 0) +
    (if createsAccount then Gas.selfDestructNewAccount else 0))
  onWorld (Journaled.subBalance address balance)
  onWorld (Journaled.addBalance beneficiary balance)
  modifyFrame fun frame => (frame.addSelfDestruct address).succeed []

end ExecutionLayer.Action
