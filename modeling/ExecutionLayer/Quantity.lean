import ExecutionLayer.Hex
import ExecutionLayer.Text

/-!
# Quantities

Unsigned 64-bit numbers as documents write them: hexadecimal digits behind `0x`,
without leading zeros when written.
-/

set_option autoImplicit false

namespace ExecutionLayer.Quantity

inductive ReadError where
  | unmarked (text : String)
  | empty
  | invalidDigit (text : String)
  | tooLarge (text : String)
deriving DecidableEq, Repr

def ReadError.message : ReadError → String
  | .unmarked text => "quantity " ++ Text.quoted text ++ " lacks 0x prefix"
  | .empty => "empty quantity"
  | .invalidDigit text => "quantity " ++ Text.quoted text ++ ": invalid digit found in string"
  | .tooLarge text =>
      "quantity " ++ Text.quoted text ++ ": number too large to fit in target type"

/-- Reads digits one after another, each behind the number read so far. What goes wrong
first, counts: a character that is no digit, or a number that has grown too large. -/
def readDigits (text : String) : Nat → List Char → Except ReadError Nat
  | value, [] => .ok value
  | value, c :: rest =>
      match Hex.digitValue? c with
      | none => .error (.invalidDigit text)
      | some digit =>
          if value * 16 + digit < UInt64.size then readDigits text (value * 16 + digit) rest
          else .error (.tooLarge text)

/-- The digits behind at most one plus sign, which may not stand alone. -/
def unsignedDigits : List Char → List Char
  | '+' :: c :: rest => c :: rest
  | digits => digits

def parse (text : String) : Except ReadError UInt64 :=
  match text.toList with
  | '0' :: 'x' :: [] => .error .empty
  | '0' :: 'x' :: digits => (readDigits text 0 (unsignedDigits digits)).map UInt64.ofNat
  | _ => .error (.unmarked text)

def format (value : UInt64) : String :=
  Hex.ofNat value.toNat

end ExecutionLayer.Quantity
