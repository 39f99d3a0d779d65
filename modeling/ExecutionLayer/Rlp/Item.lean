import ExecutionLayer.Address

/-!
# RLP items and their encoding

Trees of byte strings and their one canonical form, in which every length is
written in the shortest way.
-/

set_option autoImplicit false

namespace ExecutionLayer.Rlp

inductive Item where
  | data (bytes : Bytes)
  | list (items : List Item)

instance : Inhabited Item := ⟨.data []⟩

/-- The header of a payload of `length` bytes. `short` is the header byte of an
empty payload; long payloads give the length in up to eight bytes of its own. -/
def header (short : Nat) (length : Nat) : Bytes :=
  if length ≤ 55 then [UInt8.ofNat (short + length)]
  else
    let lengthBytes := Bytes.ofNat length
    UInt8.ofNat (short + 55 + lengthBytes.length) :: lengthBytes

/-- A byte below 128 stands for itself; other strings follow their header. -/
def encodeData (bytes : Bytes) : Bytes :=
  match bytes with
  | [byte] => if byte < 0x80 then [byte] else header 0x80 1 ++ [byte]
  | bytes => header 0x80 bytes.length ++ bytes

def encodeList (payload : Bytes) : Bytes :=
  header 0xC0 payload.length ++ payload

mutual

def Item.encode : Item → Bytes
  | .data bytes => encodeData bytes
  | .list items => encodeList (encodeAll items)

def encodeAll : List Item → Bytes
  | [] => []
  | item :: rest => item.encode ++ encodeAll rest

end

namespace Item

/-- A number as its shortest big-endian bytes; zero is the empty string. -/
def ofNat (value : Nat) : Item :=
  .data (Bytes.ofNat value)

def ofUInt64 (value : UInt64) : Item :=
  ofNat value.toNat

def ofWord (word : Word) : Item :=
  ofNat word.toNat

def ofAddress (address : Address) : Item :=
  .data address.toBytes

def ofHash (hash : Hash) : Item :=
  .data (Hash.toBytes hash)

end Item

end ExecutionLayer.Rlp
