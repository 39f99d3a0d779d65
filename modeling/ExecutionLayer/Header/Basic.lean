import ExecutionLayer.Bloom
import ExecutionLayer.Trie.Root

/-!
# Block headers

The fields of a header, their canonical bytes, and the digest that names the block.
-/

set_option autoImplicit false

namespace ExecutionLayer

structure Header where
  parentHash : Hash := 0
  ommersHash : Hash
  coinbase : Address := 0
  stateRoot : Hash := Trie.emptyRoot
  transactionsRoot : Hash := Trie.emptyRoot
  receiptsRoot : Hash := Trie.emptyRoot
  logsBloom : Bloom := 0
  difficulty : Word := 1
  number : UInt64 := 0
  gasLimit : UInt64 := 30000000
  gasUsed : UInt64 := 0
  /-- Seconds since the epoch. -/
  timestamp : UInt64 := 0
  extraData : Bytes := []
  mixHash : Hash := 0
  nonce : UInt64 := 0
  /-- The base fee, from the milestone on that brought it. -/
  baseFee : Option Word := none
deriving DecidableEq, Repr

namespace Header

/-- The digest of an empty list, which every header carries for its ommers. -/
def emptyOmmersHash : Hash :=
  0x1dcc4de8dec75d7aab85b567b6ccd41ad312451b948a7413f0a142fd40d49347

def blockDifficulty : Word := 1

instance : Inhabited Header := ⟨{ ommersHash := emptyOmmersHash }⟩

/-- The fields in canonical order. The nonce has eight bytes; the base fee stands last,
and only where there is one. -/
def item (header : Header) : Rlp.Item :=
  .list
    ([.ofHash header.parentHash, .ofHash header.ommersHash, .ofAddress header.coinbase,
      .ofHash header.stateRoot, .ofHash header.transactionsRoot, .ofHash header.receiptsRoot,
      .data header.logsBloom.toBytes, .ofWord header.difficulty, .ofUInt64 header.number,
      .ofUInt64 header.gasLimit, .ofUInt64 header.gasUsed, .ofUInt64 header.timestamp,
      .data header.extraData, .ofHash header.mixHash,
      .data (Bytes.ofNatWidth 8 header.nonce.toNat)] ++
      (header.baseFee.map Rlp.Item.ofWord).toList)

def encode (header : Header) : Bytes :=
  header.item.encode

def hash (header : Header) : Hash :=
  keccak256 header.encode

end Header

end ExecutionLayer
