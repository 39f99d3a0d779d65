import ExecutionLayer.Instruction.Step
import ExecutionLayer.Precompile.Registry

/-!
# Executing messages

A root frame and all frames it gives rise to, run to completion with an explicit
stack of waiting parents. Every frame takes a checkpoint when it starts; success
keeps its writes for the parent, failure goes back to the checkpoint.
-/

set_option autoImplicit false

namespace ExecutionLayer

def PrecompileError.toHalt : PrecompileError → Halt
  | .outOfGas => .insufficientGas
  | .invalidInput _ => .precompileFailed

namespace Frame

/-- Ends a frame by a native contract in place of code. -/
def runPrecompile (frame : Frame) (contract : Precompile) : Frame :=
  match contract frame.message.input frame.gas with
  | .error error => frame.halt error.toHalt
  | .ok result =>
      match frame.useGas result.gasUsed with
      | .ok frame => frame.succeed result.output
      | .error reason => frame.halt reason

/-- Starts a call: value moves, then a native contract, no code, or code takes over. -/
def startCall (frame : Frame) : Journaled Frame := do
  let message := frame.message
  Journaled.transfer message.sender message.recipient message.value
  match Precompile.at? message.contract with
  | some contract => return frame.runPrecompile contract
  | none =>
      if message.code.isEmpty then return frame.succeed []
      else return { frame with status := .codeExecuting }

/-- Starts a creation: unless the address is taken, the account is made a contract
and gets the value. -/
def startCreation (frame : Frame) : Journaled Frame := do
  let message := frame.message
  if ← Journaled.blocksDeployment message.recipient then
    return frame.halt .contractCollision
  else
    Journaled.createContract message.recipient
    Journaled.transfer message.sender message.recipient message.value
    return { frame with status := .codeExecuting }

/-- Starts a frame at a checkpoint of its own. -/
def start (frame : Frame) : Journaled Frame := do
  let frame := { frame with checkpoint := some (← Journaled.checkpoint) }
  match frame.message.kind with
  | .messageCall => frame.startCall
  | .contractCreation => frame.startCreation

/-- Pays for deploying the output as code, if it may be deployed. -/
def payDeposit (schedule : GasSchedule) (frame : Frame) : Except Halt Frame :=
  if frame.output.length > schedule.maxCodeSize then .error .codeTooLarge
  else if schedule.rejectsEfCode ∧ frame.output.head? = some 0xEF then .error .invalidCode
  else frame.useGas (Gas.codeDepositByte * UInt64.ofNat frame.output.length)

/-- Settles a normal end. A creation deploys its output first, which can still fail. -/
def commit (schedule : GasSchedule) (frame : Frame) : Journaled Frame := do
  match frame.message.kind with
  | .messageCall => return { frame with status := .completedSuccess }
  | .contractCreation =>
      match frame.payDeposit schedule with
      | .error reason => return frame.halt reason
      | .ok frame =>
          Journaled.setCode frame.message.recipient (Code.ofBytes frame.output)
          return { frame with status := .completedSuccess }

/-- Settles a failure: every write since the frame started is undone. -/
def rollBack (frame : Frame) : Journaled Frame := do
  match frame.checkpoint with
  | some checkpoint => Journaled.revertTo checkpoint
  | none => pure ()
  return { frame with status := .completedFailed, checkpoint := none }

end Frame

/-- The live frame, the frames that wait for it, innermost first, and the world. -/
structure Configuration where
  current : Frame
  parents : List Frame
  world : JournaledWorld

inductive Progress where
  | running (configuration : Configuration)
  | finished (root : Frame) (world : JournaledWorld)

namespace Configuration

def withWorld (configuration : Configuration) (operation : Journaled Frame) :
    Except StateError Progress :=
  match operation configuration.world with
  | .ok current world => .ok (.running { configuration with current, world })
  | .error error _ => .error error

/-- Puts the live frame aside and makes its pending child the live frame. -/
def enterChild (configuration : Configuration) : Except StateError Progress :=
  let frame := configuration.current
  match frame.pendingChild with
  | none =>
      .error (.inconsistent frame.message.recipient "suspended frame without child request")
  | some message =>
      .ok (.running
        { configuration with
          current := Frame.ofMessage message frame.warmAddresses frame.warmSlots
          parents := { frame with pendingChild := none } :: configuration.parents })

/-- Gives the completed live frame back to its parent, or ends with it as the root. -/
def leave (schedule : GasSchedule) (configuration : Configuration) : Progress :=
  match configuration.parents with
  | [] => .finished configuration.current configuration.world
  | parent :: parents =>
      .running
        { configuration with
          current := parent.resume schedule configuration.current
          parents }

def advance (schedule : GasSchedule) (context : Context) (configuration : Configuration) :
    Except StateError Progress :=
  let frame := configuration.current
  match frame.status with
  | .notStarted => configuration.withWorld frame.start
  | .codeExecuting => do
      let machine ← Machine.step schedule context ⟨frame, configuration.world⟩
      return .running { configuration with current := machine.frame, world := machine.world }
  | .codeSuspended => configuration.enterChild
  | .codeSuccess => configuration.withWorld (frame.commit schedule)
  | .revert | .exceptionalHalt => configuration.withWorld frame.rollBack
  | .completedSuccess | .completedFailed => .ok (configuration.leave schedule)

/-- The outcome after at most `fuel` transitions, if there is one by then. -/
def run (schedule : GasSchedule) (context : Context) :
    Nat → Configuration → Option (Except StateError (Frame × JournaledWorld))
  | 0, _ => none
  | fuel + 1, configuration =>
      match configuration.advance schedule context with
      | .error error => some (.error error)
      | .ok (.finished root world) => some (.ok (root, world))
      | .ok (.running next) => run schedule context fuel next

def totalGas (configuration : Configuration) : Nat :=
  let pending := configuration.current.pendingChild.elim 0 (·.gas.toNat)
  configuration.current.gas.toNat + pending + (configuration.parents.map (·.gas.toNat)).foldr (· + ·) 0

/-- A bound on the number of transitions: each one uses up gas or brings a frame
nearer to its completion. -/
def transitionBound (configuration : Configuration) : Nat :=
  8 * configuration.totalGas + 4 * configuration.parents.length + 11

end Configuration

/-- Runs a root frame and its descendants. The frame comes back completed. -/
def process (schedule : GasSchedule) (context : Context) (root : Frame) (world : JournaledWorld) :
    Except StateError (Frame × JournaledWorld) :=
  let configuration : Configuration := ⟨root, [], world⟩
  (configuration.run schedule context configuration.transitionBound).getD
    (.error (.inconsistent root.message.recipient "execution did not end"))

end ExecutionLayer
