import ExecutionLayer.Account
import ExecutionLayer.Trie.Node
import Std.Data.ExtTreeMap

/-!
# Trie roots

The digests that commit to a finite map, to a list and to an account's storage.
-/

set_option autoImplicit false

namespace ExecutionLayer.Trie

/-- The last value of each key, by path. -/
def byPath (entries : List (Bytes × Bytes)) : Std.ExtTreeMap Path Bytes :=
  Std.ExtTreeMap.ofList (entries.map fun (key, value) => (pathOf key, value))

/-- The trie that holds the last value of each key; there is none of no entries. -/
def top? (entries : List (Bytes × Bytes)) : Option Node :=
  Node.ofSorted? 0 (byPath entries).toList

def emptyRoot : Hash :=
  0x56e81f171bcc55a6ff8345e692c0f86e5b48e01b996cadc001622fb5e363b421

theorem emptyRoot_eq : emptyRoot = keccak256 (Rlp.encodeData []) := by
  decide +kernel

def rootOfNode? : Option Node → Hash
  | none => emptyRoot
  | some node => keccak256 node.encode

theorem rootOfNode?_none : rootOfNode? none = keccak256 (Rlp.encodeData []) :=
  emptyRoot_eq

def root (entries : List (Bytes × Bytes)) : Hash :=
  rootOfNode? (top? entries)

/-- The root of the trie that holds each value under the digest of its key. -/
def secureRoot (entries : List (Bytes × Bytes)) : Hash :=
  root (entries.map fun (key, value) => (Hash.toBytes (keccak256 key), value))

/-- The root of the trie that holds each value under the encoding of its index. -/
def listRoot (values : List Bytes) : Hash :=
  root (values.zipIdx.map fun (value, index) => ((Rlp.Item.ofNat index).encode, value))

/-- The root of an account's storage. A slot with value zero does not count. -/
def storageRoot (slots : Std.ExtTreeMap Word Word) : Hash :=
  secureRoot ((slots.toList.filter (·.2 ≠ 0)).map fun (slot, value) =>
    (slot.toBytes, (Rlp.Item.ofWord value).encode))

end ExecutionLayer.Trie
