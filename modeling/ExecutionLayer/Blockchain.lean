import ExecutionLayer.Block.Basic

/-!
# Block trees

All imported blocks by their hashes, with the highest one as head, and the hashes of
a block's ancestors.
-/

set_option autoImplicit false

namespace ExecutionLayer

structure StoredBlock where
  header : Header
  hash : Hash
  transactionHashes : List Hash
  receipts : List Receipt
deriving DecidableEq, Inhabited

/-- Blocks by hash, with the first block and the head among them. -/
structure Blockchain where
  blocks : Std.ExtTreeMap Hash StoredBlock
  genesisHash : Hash
  headHash : Hash
  head_mem : headHash ∈ blocks

namespace Blockchain

def ofGenesis (header : Header) : Blockchain where
  blocks := (∅ : Std.ExtTreeMap Hash StoredBlock).insert header.hash ⟨header, header.hash, [], []⟩
  genesisHash := header.hash
  headHash := header.hash
  head_mem := Std.ExtTreeMap.mem_insert_self

instance : Inhabited Blockchain := ⟨ofGenesis default⟩

def block? (chain : Blockchain) (hash : Hash) : Option StoredBlock :=
  chain.blocks[hash]?

def contains (chain : Blockchain) (hash : Hash) : Bool :=
  chain.blocks.contains hash

def header? (chain : Blockchain) (hash : Hash) : Option Header :=
  (chain.block? hash).map (·.header)

/-- The highest block, the first among equals. -/
def head (chain : Blockchain) : StoredBlock :=
  chain.blocks.get chain.headHash chain.head_mem

def size (chain : Blockchain) : Nat :=
  chain.blocks.size

/-- Adds a block with its receipts. It becomes the head if it is higher than the head. -/
def insert (chain : Blockchain) (block : Block) (receipts : List Receipt) : Blockchain :=
  let hash := block.hash
  let stored : StoredBlock := ⟨block.header, hash, block.transactions.map (·.hash), receipts⟩
  let blocks := chain.blocks.insert hash stored
  have head_mem : chain.headHash ∈ blocks :=
    Std.ExtTreeMap.mem_insert.2 (Or.inr chain.head_mem)
  if block.header.number > blocks[chain.headHash].header.number then
    { chain with blocks, headHash := hash, head_mem := Std.ExtTreeMap.mem_insert_self }
  else { chain with blocks, head_mem }

/-- Block hashes can be asked for this many blocks back. -/
def hashWindow : UInt64 := 256

/-- Follows parent links from a block down to the number, over at most `steps` links. -/
def descend (chain : Blockchain) (number : UInt64) : Nat → StoredBlock → Option StoredBlock
  | steps, block =>
      if block.header.number ≤ number then some block
      else
        match steps with
        | 0 => none
        | steps + 1 =>
            match chain.block? block.header.parentHash with
            | none => none
            | some parent => descend chain number steps parent

/-- The hash that a child of `parent` sees for a number: that of the ancestor, `parent`
included, if it is in the window. No walk visits more blocks than there are. -/
def ancestorHash? (chain : Blockchain) (parent : Hash) (number : UInt64) : Option Hash := do
  let block ← chain.block? parent
  if number > block.header.number ∨ block.header.number - number ≥ hashWindow then none
  else
    let ancestor ← chain.descend number chain.size block
    return ancestor.hash

end Blockchain

end ExecutionLayer
