import ExecutionLayer.Json.Basic
import ExecutionLayer.Json.Token

/-!
# Reading JSON documents

Assembles tokens into one value with an explicit stack of open arrays and
objects, so that nesting costs no recursion.
-/

set_option autoImplicit false

namespace ExecutionLayer.Json

/-- A container whose end has not been read. Finished parts are in reverse order. -/
inductive OpenNode where
  | array (elements : List Json)
  | object (members : List (Option String × Json)) (name : Option String)

/-- What the next token must supply. `first` marks the place right after an
opening bracket or brace, where the closing one may stand too. -/
inductive Expected where
  | value (first : Bool)
  | name (members : List (Option String × Json)) (first : Bool)
  | colon (members : List (Option String × Json)) (name : Option String)
  | separator (finished : Json)

/-- The open containers, innermost first, and what must come next. -/
structure Assembly where
  containers : List OpenNode
  expected : Expected

namespace Assembly

def start : Assembly := ⟨[], .value false⟩

def read (assembly : Assembly) (token : Token) : Option Assembly :=
  let containers := assembly.containers
  match assembly.expected, token with
  | .value _, .null => some ⟨containers, .separator .null⟩
  | .value _, .bool value => some ⟨containers, .separator (.bool value)⟩
  | .value _, .number literal => some ⟨containers, .separator (.number literal)⟩
  | .value _, .string text => some ⟨containers, .separator (.string text)⟩
  | .value _, .openBracket => some ⟨.array [] :: containers, .value true⟩
  | .value _, .openBrace => some ⟨containers, .name [] true⟩
  | .value true, .closeBracket =>
      match containers with
      | .array elements :: outer => some ⟨outer, .separator (.array elements.reverse)⟩
      | _ => none
  | .name members _, .string name => some ⟨containers, .colon members name⟩
  | .name members true, .closeBrace => some ⟨containers, .separator (.object members.reverse)⟩
  | .colon members name, .colon => some ⟨.object members name :: containers, .value false⟩
  | .separator finished, .comma =>
      match containers with
      | .array elements :: outer => some ⟨.array (finished :: elements) :: outer, .value false⟩
      | .object members name :: outer => some ⟨outer, .name ((name, finished) :: members) false⟩
      | [] => none
  | .separator finished, .closeBracket =>
      match containers with
      | .array elements :: outer =>
          some ⟨outer, .separator (.array (finished :: elements).reverse)⟩
      | _ => none
  | .separator finished, .closeBrace =>
      match containers with
      | .object members name :: outer =>
          some ⟨outer, .separator (.object ((name, finished) :: members).reverse)⟩
      | _ => none
  | _, _ => none

/-- The document, once its only value is finished and nothing is open. -/
def finish? (assembly : Assembly) : Option Json :=
  match assembly.containers, assembly.expected with
  | [], .separator finished => some finished
  | _, _ => none

end Assembly

def ofChars? (chars : List Char) : Option Json := do
  let tokens ← tokens? chars
  (← tokens.foldlM Assembly.read Assembly.start).finish?

def parse? (text : String) : Option Json :=
  ofChars? text.toList

end ExecutionLayer.Json
