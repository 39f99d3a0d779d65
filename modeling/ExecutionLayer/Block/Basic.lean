import ExecutionLayer.Header.Basic
import ExecutionLayer.Machine.Context
import ExecutionLayer.Receipt

/-!
# Blocks

A header with its transactions, what code can read of a block, and the gathered
outcome of executing one.
-/

set_option autoImplicit false

namespace ExecutionLayer

structure Block where
  header : Header
  transactions : List Transaction
deriving DecidableEq, Repr, Inhabited

namespace Block

def hash (block : Block) : Hash :=
  block.header.hash

end Block

/-- What code can read of the block with this header on a chain. -/
def Header.context (header : Header) (chainId : UInt64) : BlockContext where
  number := header.number
  timestamp := header.timestamp
  coinbase := header.coinbase
  gasLimit := header.gasLimit
  difficulty := header.difficulty
  baseFee := header.baseFee
  chainId := chainId

end ExecutionLayer
