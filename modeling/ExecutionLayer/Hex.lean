import ExecutionLayer.Bytes

/-!
# Hexadecimal text

Lowercase printing and case-insensitive reading of byte strings and numbers,
with the optional `0x` mark that wire documents allow.
-/

set_option autoImplicit false

namespace ExecutionLayer.Hex

def digit (value : Nat) : Char :=
  if value < 10 then Char.ofNat (48 + value) else Char.ofNat (87 + value)

/-- The value of a digit of either case. -/
def digitValue? (c : Char) : Option Nat :=
  if '0' ≤ c ∧ c ≤ '9' then some (c.toNat - 48)
  else if 'a' ≤ c ∧ c ≤ 'f' then some (c.toNat - 87)
  else if 'A' ≤ c ∧ c ≤ 'F' then some (c.toNat - 55)
  else none

def encodeChars : Bytes → List Char
  | [] => []
  | byte :: rest => digit (byte.toNat / 16) :: digit (byte.toNat % 16) :: encodeChars rest

/-- Refuses an odd count and anything that is no digit. -/
def decodeChars? : List Char → Option Bytes
  | [] => some []
  | [_] => none
  | high :: low :: rest => do
      let high ← digitValue? high
      let low ← digitValue? low
      let tail ← decodeChars? rest
      return UInt8.ofNat (high * 16 + low) :: tail

def digitsValue? (digits : List Char) : Option Nat :=
  digits.foldlM (fun value c => (digitValue? c).map (value * 16 + ·)) 0

/-- What follows a leading `0x`, or the whole text without that mark. -/
def stripMark : List Char → List Char
  | '0' :: 'x' :: rest => rest
  | chars => chars

def ofBytes (bytes : Bytes) : String :=
  String.ofList ('0' :: 'x' :: encodeChars bytes)

/-- A byte string from an even number of digits, with or without the mark. -/
def toBytes? (text : String) : Option Bytes :=
  decodeChars? (stripMark text.toList)

/-- The digits of a number without leading zeros; zero is one digit. -/
def digitsOf (value : Nat) : List Char :=
  Nat.toDigits 16 value

def ofNat (value : Nat) : String :=
  String.ofList ('0' :: 'x' :: digitsOf value)

/-- A number below `16 ^ width` from one to `width` digits, with or without the mark. -/
def toNatUpTo? (width : Nat) (text : String) : Option Nat :=
  let digits := stripMark text.toList
  if 1 ≤ digits.length ∧ digits.length ≤ width then digitsValue? digits else none

def toNatExact? (width : Nat) (text : String) : Option Nat :=
  let digits := stripMark text.toList
  if digits.length = width then digitsValue? digits else none

def ofNatWidth (width value : Nat) : String :=
  ofBytes (Bytes.ofNatWidth width value)

end ExecutionLayer.Hex
