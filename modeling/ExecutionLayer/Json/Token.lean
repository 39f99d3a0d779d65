import ExecutionLayer.Hex

/-!
# JSON tokens

A one-pass scanner. Each character moves a mode; numbers and words end where a
character of another class begins, and string literals are kept as code units
until their closing quote.
-/

set_option autoImplicit false

namespace ExecutionLayer.Json

/-- The lexical items of a document; white space between them is dropped. -/
inductive Token where
  | openBrace
  | closeBrace
  | openBracket
  | closeBracket
  | colon
  | comma
  | null
  | bool (value : Bool)
  | number (literal : String)
  | string (text : Option String)

/-- One element of a string literal: a character, or a surrogate written as an escape. -/
inductive TextUnit where
  | char (c : Char)
  | surrogate (code : Nat)

/-- The text that code units denote: a high surrogate must be followed by a low one. -/
def TextUnit.decode? : List TextUnit → Option (List Char)
  | [] => some []
  | .char c :: rest => (decode? rest).map (c :: ·)
  | .surrogate high :: .surrogate low :: rest =>
      if 0xD800 ≤ high ∧ high < 0xDC00 ∧ 0xDC00 ≤ low ∧ low < 0xE000 then
        (decode? rest).map
          (Char.ofNat (0x10000 + (high - 0xD800) * 0x400 + (low - 0xDC00)) :: ·)
      else none
  | .surrogate _ :: _ => none

/-- Digits after the point: at least one, then an exponent may follow. -/
def isExponentDigits : List Char → Bool
  | [] => false
  | digits => digits.all Char.isDigit

def isExponent : List Char → Bool
  | [] => true
  | mark :: '+' :: digits => (mark == 'e' || mark == 'E') && isExponentDigits digits
  | mark :: '-' :: digits => (mark == 'e' || mark == 'E') && isExponentDigits digits
  | mark :: digits => (mark == 'e' || mark == 'E') && isExponentDigits digits

def isFraction : List Char → Bool
  | '.' :: digits =>
      let places := digits.takeWhile Char.isDigit
      !places.isEmpty && isExponent (digits.dropWhile Char.isDigit)
  | rest => isExponent rest

def isUnsignedNumber : List Char → Bool
  | '0' :: rest => isFraction rest
  | digit :: rest => digit.isDigit && isFraction (rest.dropWhile Char.isDigit)
  | [] => false

/-- The number grammar: an optional minus, an integer part without leading zeros,
an optional fraction and an optional exponent. -/
def isNumberLiteral : List Char → Bool
  | '-' :: rest => isUnsignedNumber rest
  | chars => isUnsignedNumber chars

/-- What the scanner is inside of. Collected characters are in reverse order. -/
inductive Mode where
  | between
  | word (chars : List Char)
  | number (chars : List Char)
  | string (units : List TextUnit)
  | escape (units : List TextUnit)
  | hex (units : List TextUnit) (digits : Nat) (value : Nat)

structure Scanner where
  tokens : List Token
  mode : Mode

namespace Scanner

def start : Scanner := ⟨[], .between⟩

def isBlank (c : Char) : Bool :=
  c == ' ' || c == '\n' || c == '\t' || c == '\r'

def isNumberChar (c : Char) : Bool :=
  c.isDigit || c == '-' || c == '+' || c == '.' || c == 'e' || c == 'E'

/-- Reads a character that belongs to no open word, number or string. -/
def readBetween (tokens : List Token) (c : Char) : Option Scanner :=
  if isBlank c then some ⟨tokens, .between⟩
  else if c == '\x7b' then some ⟨.openBrace :: tokens, .between⟩
  else if c == '\x7d' then some ⟨.closeBrace :: tokens, .between⟩
  else if c == '[' then some ⟨.openBracket :: tokens, .between⟩
  else if c == ']' then some ⟨.closeBracket :: tokens, .between⟩
  else if c == ':' then some ⟨.colon :: tokens, .between⟩
  else if c == ',' then some ⟨.comma :: tokens, .between⟩
  else if c == '"' then some ⟨tokens, .string []⟩
  else if c == '-' || c.isDigit then some ⟨tokens, .number [c]⟩
  else if c.isLower then some ⟨tokens, .word [c]⟩
  else none

def wordToken? (chars : List Char) : Option Token :=
  match String.ofList chars.reverse with
  | "null" => some .null
  | "true" => some (.bool true)
  | "false" => some (.bool false)
  | _ => none

def numberToken? (chars : List Char) : Option Token :=
  let literal := chars.reverse
  if isNumberLiteral literal then some (.number (String.ofList literal)) else none

def simpleEscape? (c : Char) : Option Char :=
  match c with
  | '"' => some '"'
  | '\\' => some '\\'
  | '/' => some '/'
  | 'b' => some '\x08'
  | 'f' => some '\x0c'
  | 'n' => some '\n'
  | 'r' => some '\r'
  | 't' => some '\t'
  | _ => none

def unitOfCode (code : Nat) : TextUnit :=
  if 0xD800 ≤ code ∧ code < 0xE000 then .surrogate code else .char (Char.ofNat code)

def read (scanner : Scanner) (c : Char) : Option Scanner :=
  match scanner.mode with
  | .between => readBetween scanner.tokens c
  | .word chars =>
      if c.isLower then some ⟨scanner.tokens, .word (c :: chars)⟩
      else do readBetween ((← wordToken? chars) :: scanner.tokens) c
  | .number chars =>
      if isNumberChar c then some ⟨scanner.tokens, .number (c :: chars)⟩
      else do readBetween ((← numberToken? chars) :: scanner.tokens) c
  | .string units =>
      if c == '"' then
        let text := (TextUnit.decode? units.reverse).map String.ofList
        some ⟨.string text :: scanner.tokens, .between⟩
      else if c == '\\' then some ⟨scanner.tokens, .escape units⟩
      else if c.toNat < 0x20 then none
      else some ⟨scanner.tokens, .string (.char c :: units)⟩
  | .escape units =>
      if c == 'u' then some ⟨scanner.tokens, .hex units 0 0⟩
      else do
        let denoted ← simpleEscape? c
        return ⟨scanner.tokens, .string (.char denoted :: units)⟩
  | .hex units digits value => do
      let value := value * 16 + (← Hex.digitValue? c)
      if digits = 3 then return ⟨scanner.tokens, .string (unitOfCode value :: units)⟩
      else return ⟨scanner.tokens, .hex units (digits + 1) value⟩

/-- The tokens in document order, unless a string is still open. -/
def finish? (scanner : Scanner) : Option (List Token) :=
  match scanner.mode with
  | .between => some scanner.tokens.reverse
  | .word chars => do return ((← wordToken? chars) :: scanner.tokens).reverse
  | .number chars => do return ((← numberToken? chars) :: scanner.tokens).reverse
  | .string _ | .escape _ | .hex _ _ _ => none

end Scanner

def tokens? (chars : List Char) : Option (List Token) := do
  (← chars.foldlM Scanner.read Scanner.start).finish?

end ExecutionLayer.Json
