import ExecutionLayer.Bytes
import ExecutionLayer.Power

/-!
# Words

256-bit machine words. Unsigned arithmetic wraps; the signed operations read a
word as a two's complement integer.
-/

set_option autoImplicit false

namespace ExecutionLayer

abbrev Word := BitVec 256

instance : Std.TransOrd Word := BitVec.instTransOrd

namespace Word

abbrev size : Nat :=
  0x10000000000000000000000000000000000000000000000000000000000000000

def ofBool (condition : Bool) : Word :=
  if condition then 1 else 0

/-- The word a big-endian byte string denotes, higher bytes dropped. -/
def ofBytes (bytes : Bytes) : Word :=
  BitVec.ofNat 256 (Bytes.toNat bytes)

def toBytes (word : Word) : Bytes :=
  Bytes.ofNatWidth 32 word.toNat

def isNegative (word : Word) : Bool :=
  word.msb

/-- The quotient, or zero for a zero divisor. -/
def div (a b : Word) : Word :=
  if b = 0 then 0 else a / b

def mod (a b : Word) : Word :=
  if b = 0 then 0 else a % b

def negate (word : Word) : Word :=
  ~~~word + 1

def magnitude (word : Word) : Word :=
  if word.isNegative then word.negate else word

/-- Integer quotient rounded toward zero, or zero for a zero divisor. The quotient
of the least integer by minus one wraps around to the least integer. -/
def signedDiv (a b : Word) : Word :=
  if b = 0 then 0
  else
    let quotient := a.magnitude / b.magnitude
    if a.isNegative = b.isNegative then quotient else quotient.negate

/-- Integer remainder with the sign of the dividend, or zero for a zero divisor. -/
def signedMod (a b : Word) : Word :=
  if b = 0 then 0
  else
    let remainder := a.magnitude % b.magnitude
    if a.isNegative then remainder.negate else remainder

/-- The order of the denoted integers. Words of the same sign are in unsigned order. -/
def signedCompare (a b : Word) : Ordering :=
  match a.isNegative, b.isNegative with
  | true, false => .lt
  | false, true => .gt
  | _, _ => compare a b

/-- The sum modulo `modulus`, computed without wrapping; zero for a zero modulus. -/
def addMod (a b modulus : Word) : Word :=
  if modulus = 0 then 0 else BitVec.ofNat 256 ((a.toNat + b.toNat) % modulus.toNat)

def mulMod (a b modulus : Word) : Word :=
  if modulus = 0 then 0 else BitVec.ofNat 256 (a.toNat * b.toNat % modulus.toNat)

def exp (base exponent : Word) : Word :=
  power 1 (· * ·) base exponent.toNat

/-- The word whose `width` low bits are ones. -/
def lowMask (width : Nat) : Word :=
  ((1 : Word) <<< width) - 1

/-- Repeats the top bit of byte `index`, counted from the low end, through all
higher bytes. From byte 31 on there is nothing above to fill. -/
def signExtend (index value : Word) : Word :=
  if index.toNat < 31 then
    let top := 8 * index.toNat + 7
    let mask := lowMask (top + 1)
    if value.getLsbD top then value ||| ~~~mask else value &&& mask
  else value

/-- Byte `index` counted from the most significant end; zero from 32 on. -/
def byteAt (index value : Word) : Word :=
  if index.toNat < 32 then (value >>> (8 * (31 - index.toNat))) &&& 0xff else 0

def shiftLeft (shift value : Word) : Word :=
  if shift.toNat < 256 then value <<< shift.toNat else 0

def shiftRight (shift value : Word) : Word :=
  if shift.toNat < 256 then value >>> shift.toNat else 0

/-- Arithmetic right shift, which fills with copies of the sign; a shift by the width or
more leaves only the sign. -/
def shiftRightSigned (shift value : Word) : Word :=
  if shift.toNat < 256 then
    let shifted := value >>> shift.toNat
    if value.isNegative ∧ 0 < shift.toNat then
      shifted ||| ~~~(BitVec.allOnes 256 >>> shift.toNat)
    else shifted
  else if value.isNegative then BitVec.allOnes 256 else 0

def toUInt64Clamped (word : Word) : UInt64 :=
  UInt64.ofNat (min word.toNat (UInt64.size - 1))

/-- The word as a position in a byte string. Positions fit in 64 bits, and larger words
are clamped to the greatest one. -/
def toIndexClamped (word : Word) : Nat :=
  min word.toNat (UInt64.size - 1)

def toIndex? (word : Word) : Option Nat :=
  if word.toNat < UInt64.size then some word.toNat else none

/-- The number of significant bytes; zero has none. -/
def byteLength (word : Word) : Nat :=
  if word = 0 then 0 else word.toNat.log2 / 8 + 1

def ofNatClamped (value : Nat) : Word :=
  BitVec.ofNat 256 (min value (size - 1))

def saturatingAdd (a b : Word) : Word :=
  ofNatClamped (a.toNat + b.toNat)

def saturatingSub (a b : Word) : Word :=
  BitVec.ofNat 256 (a.toNat - b.toNat)

def minimum (a b : Word) : Word :=
  if a ≤ b then a else b

def ofUInt64 (value : UInt64) : Word :=
  BitVec.ofNat 256 value.toNat

end Word

end ExecutionLayer
