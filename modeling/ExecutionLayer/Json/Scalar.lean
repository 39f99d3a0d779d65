import ExecutionLayer.Bloom
import ExecutionLayer.Json.Basic
import ExecutionLayer.Quantity

/-!
# Scalars in documents

Digests, addresses, words, byte strings and quantities as strings of hexadecimal
digits, and 64-bit numbers as number literals.
-/

set_option autoImplicit false

namespace ExecutionLayer.Json

def address? (node : Json) : Option Address := do
  let value ← Hex.toNatExact? 40 (← node.text?)
  return BitVec.ofNat 160 value

def hash? (node : Json) : Option Hash := do
  let value ← Hex.toNatExact? 64 (← node.text?)
  return BitVec.ofNat 256 value

def bloom? (node : Json) : Option Bloom := do
  let value ← Hex.toNatExact? 512 (← node.text?)
  return BitVec.ofNat 2048 value

/-- A word from one to 64 digits. -/
def word? (node : Json) : Option Word := do
  let value ← Hex.toNatUpTo? 64 (← node.text?)
  return BitVec.ofNat 256 value

def bytes? (node : Json) : Option Bytes := do
  Hex.toBytes? (← node.text?)

/-- A quantity, which must carry its mark. -/
def quantity? (node : Json) : Option UInt64 := do
  (Quantity.parse (← node.text?)).toOption

/-- A 64-bit number from a number literal without fraction and exponent. -/
def uint64? (node : Json) : Option UInt64 := do
  let value ← node.nat?
  if value < UInt64.size then some (UInt64.ofNat value) else none

def bool? : Json → Option Bool
  | .bool value => some value
  | _ => none

def ofAddress (address : Address) : Json :=
  .text (Hex.ofNatWidth 20 address.toNat)

def ofHash (hash : Hash) : Json :=
  .text (Hex.ofNatWidth 32 hash.toNat)

def ofBloom (bloom : Bloom) : Json :=
  .text (Hex.ofNatWidth 256 bloom.toNat)

def ofWord (word : Word) : Json :=
  .text (Hex.ofNat word.toNat)

def ofBytes (bytes : Bytes) : Json :=
  .text (Hex.ofBytes bytes)

def ofQuantity (value : UInt64) : Json :=
  .text (Quantity.format value)

def ofUInt64 (value : UInt64) : Json :=
  .nat value.toNat

end ExecutionLayer.Json
