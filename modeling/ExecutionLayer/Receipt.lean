import ExecutionLayer.Bloom
import ExecutionLayer.Transaction.Basic
import ExecutionLayer.Trie.Root

/-!
# Receipts

What a block records about each of its transactions, and the commitments to all
receipts of a block.
-/

set_option autoImplicit false

namespace ExecutionLayer

structure Receipt where
  kind : Transaction.Kind := .legacy
  success : Bool := true
  /-- The gas used by this and all earlier transactions of the block. -/
  cumulativeGasUsed : UInt64 := 0
  logs : List Log := []
deriving DecidableEq, Inhabited

namespace Receipt

def bloom (receipt : Receipt) : Bloom :=
  Bloom.ofLogs receipt.logs

def item (receipt : Receipt) : Rlp.Item :=
  .list [.ofNat receipt.success.toNat, .ofUInt64 receipt.cumulativeGasUsed,
    .data receipt.bloom.toBytes, .list (receipt.logs.map Log.item)]

/-- The bytes of a receipt: those of typed transactions start with the type. -/
def encode (receipt : Receipt) : Bytes :=
  match receipt.kind with
  | .legacy => receipt.item.encode
  | kind => kind.typeByte :: receipt.item.encode

def root (receipts : List Receipt) : Hash :=
  Trie.listRoot (receipts.map encode)

end Receipt

end ExecutionLayer
