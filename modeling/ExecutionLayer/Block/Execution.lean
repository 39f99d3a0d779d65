import ExecutionLayer.Block.Basic
import ExecutionLayer.Header.Rules
import ExecutionLayer.Transaction.Execution
import ExecutionLayer.World.Overlay
import ExecutionLayer.World.Store

/-!
# Executing blocks

The transactions of a block in order, each on top of what the earlier ones did, and
the commitments that the header must match.
-/

set_option autoImplicit false

namespace ExecutionLayer

/-- Why a block could not be imported. -/
inductive ImportError where
  | unknownParent (parent : Hash)
  | header (error : HeaderError)
  | transaction (index : Nat) (reason : Transaction.Invalid)
  | gasUsed (header computed : UInt64)
  | receiptsRoot (header computed : Hash)
  | logsBloom
  | stateRoot (header computed : Hash)
  | state (error : StateError)
deriving DecidableEq, Repr, Inhabited

namespace ImportError

def message : ImportError → String
  | .unknownParent parent => "unknown parent " ++ Hex.ofNatWidth 32 parent.toNat
  | .header error => "invalid header: " ++ error.message
  | .transaction index reason =>
      "invalid transaction " ++ toString index ++ ": " ++ reason.message
  | .gasUsed claimed computed =>
      "gas used mismatch: header " ++ toString claimed.toNat ++ ", computed " ++
        toString computed.toNat
  | .receiptsRoot claimed computed =>
      "receipts root mismatch: header " ++ Hex.ofNatWidth 32 claimed.toNat ++ ", computed " ++
        Hex.ofNatWidth 32 computed.toNat
  | .logsBloom => "logs bloom mismatch"
  | .stateRoot claimed computed =>
      "state root mismatch: header " ++ Hex.ofNatWidth 32 claimed.toNat ++ ", computed " ++
        Hex.ofNatWidth 32 computed.toNat
  | .state error => "state error: " ++ error.message

/-- True if the block itself is at fault. A missing parent and a fault of the world say
nothing about the block. -/
def blamesBlock : ImportError → Bool
  | .unknownParent _ | .state _ => false
  | _ => true

def ofFailure (index : Nat) : Transaction.Failure → ImportError
  | .invalid reason => .transaction index reason
  | .state error => .state error

end ImportError

namespace Block

/-- The transactions executed so far: their effects, their gas, and their receipts in order. -/
structure Progress where
  overlay : Overlay
  gasUsed : UInt64 := 0
  receipts : List Receipt := []

def remainingGas (gasLimit gasUsed : UInt64) : UInt64 :=
  if gasUsed ≤ gasLimit then gasLimit - gasUsed else 0

def Progress.execute (rules : BlockRules) (context : BlockContext)
    (blockHash : UInt64 → Option Hash) (progress : Progress) (index : Nat)
    (transaction : Transaction) : Except ImportError Progress :=
  match transaction.apply rules progress.overlay.view context blockHash
      (remainingGas context.gasLimit progress.gasUsed) with
  | .error failure => .error (.ofFailure index failure)
  | .ok outcome =>
      let gasUsed := progress.gasUsed + outcome.gasUsed
      .ok
        { overlay := progress.overlay.apply outcome.effects
          gasUsed
          receipts := progress.receipts ++
            [⟨transaction.kind, outcome.success, gasUsed, outcome.logs⟩] }

/-- Executes transactions in order, up to the first that cannot be included. -/
def executeAll (rules : BlockRules) (context : BlockContext) (blockHash : UInt64 → Option Hash)
    (progress : Progress) (transactions : List Transaction) : Except ImportError Progress :=
  transactions.zipIdx.foldlM
    (fun progress (transaction, index) =>
      progress.execute rules context blockHash index transaction)
    progress

structure Result where
  receipts : List Receipt
  /-- The net changes against the parent's world. -/
  effects : StateEffects
  gasUsed : UInt64
  logsBloom : Bloom
  receiptsRoot : Hash
  stateRoot : Hash
deriving Inhabited

/-- Executes the transactions of a block on top of a store, which is only read. -/
def execute {Store : Type} [WorldStore Store] (rules : BlockRules) (store : Store)
    (blockHash : UInt64 → Option Hash) (block : Block) : Except ImportError Result := do
  let finished ← executeAll rules (block.header.context rules.chainId) blockHash
    { overlay := { base := WorldStore.view store } } block.transactions
  let effects := finished.overlay.effects
  let stateRoot ← (WorldStore.rootWith store effects).mapError .state
  return {
    receipts := finished.receipts, effects
    gasUsed := finished.gasUsed
    logsBloom := Bloom.ofLogs (finished.receipts.flatMap (·.logs))
    receiptsRoot := Receipt.root finished.receipts
    stateRoot }

end Block

end ExecutionLayer
