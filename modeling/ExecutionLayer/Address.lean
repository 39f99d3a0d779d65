import ExecutionLayer.Word

/-!
# Addresses and hashes

The names of accounts, the digests that name blocks and transactions, and the
identity of one storage slot of one account.
-/

set_option autoImplicit false

namespace ExecutionLayer

/-- The 20-byte name of an account. -/
abbrev Address := BitVec 160

instance : Std.TransOrd Address := BitVec.instTransOrd

abbrev Hash := BitVec 256

namespace Address

def ofWord (word : Word) : Address :=
  word.setWidth 160

def toWord (address : Address) : Word :=
  address.setWidth 256

def toBytes (address : Address) : Bytes :=
  Bytes.ofNatWidth 20 address.toNat

/-- The address a byte string denotes, higher bytes dropped. -/
def ofBytes (bytes : Bytes) : Address :=
  BitVec.ofNat 160 (Bytes.toNat bytes)

end Address

namespace Hash

def toBytes (hash : Hash) : Bytes :=
  Bytes.ofNatWidth 32 hash.toNat

def ofBytes (bytes : Bytes) : Hash :=
  BitVec.ofNat 256 (Bytes.toNat bytes)

def toAddress (hash : Hash) : Address :=
  hash.setWidth 160

end Hash

abbrev SlotId := Address × Word

instance : Ord SlotId := lexOrd

instance : Std.TransOrd SlotId := Std.instTransOrdProd

end ExecutionLayer
