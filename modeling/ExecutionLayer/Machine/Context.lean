import ExecutionLayer.Address

/-!
# Execution context

What code can learn about the block and the transaction it runs in.
-/

set_option autoImplicit false

namespace ExecutionLayer

structure BlockContext where
  number : UInt64 := 0
  timestamp : UInt64 := 0
  coinbase : Address := 0
  gasLimit : UInt64 := 30000000
  difficulty : Word := 1
  baseFee : Option Word := none
  chainId : UInt64 := 1
deriving DecidableEq

/-- The signer and the gas price of the transaction that every frame belongs to. -/
structure TransactionContext where
  origin : Address := 0
  gasPrice : Word := 0
deriving DecidableEq

/-- All that code can consult beside its own frame and the world. -/
structure Context where
  block : BlockContext
  transaction : TransactionContext
  blockHash : UInt64 → Option Hash

end ExecutionLayer
