import ExecutionLayer.Block.Execution
import ExecutionLayer.Blockchain

/-!
# Importing blocks

A block is checked against its parent, executed, and compared with its header. Only
then it may be committed to the store and the chain, both together.
-/

set_option autoImplicit false

namespace ExecutionLayer

namespace Block

/-- Compares what the header claims with what execution produced; the first difference
is reported. -/
def checkCommitments (header : Header) (result : Result) : Except ImportError Unit := do
  if header.gasUsed ≠ result.gasUsed then throw (.gasUsed header.gasUsed result.gasUsed)
  if header.receiptsRoot ≠ result.receiptsRoot then
    throw (.receiptsRoot header.receiptsRoot result.receiptsRoot)
  if header.logsBloom ≠ result.logsBloom then throw .logsBloom
  if header.stateRoot ≠ result.stateRoot then
    throw (.stateRoot header.stateRoot result.stateRoot)

/-- Checks a block against the chain and executes it on the store, which must hold the
world after the parent. Nothing is written. -/
def validate {Store : Type} [WorldStore Store] (rules : BlockRules) (store : Store)
    (chain : Blockchain) (block : Block) : Except ImportError Result := do
  let header := block.header
  match chain.header? header.parentHash with
  | none => throw (.unknownParent header.parentHash)
  | some parent =>
      (Header.validate rules.schedule.hasBaseFee header parent).mapError .header
      let result ← block.execute rules store (chain.ancestorHash? header.parentHash)
      checkCommitments header result
      return result

/-- Applies the changes of a validated block to the store and adds the block to the chain.
If the store fails, the chain stays as it was. -/
def commit {Store : Type} [WorldStore Store] (store : Store) (chain : Blockchain) (block : Block)
    (result : Result) : Except StateError (Store × Blockchain) := do
  let store ← WorldStore.apply store result.effects
  return (store, chain.insert block result.receipts)

end Block

end ExecutionLayer
