/-!
# JSON values

Documents as trees that keep what typed readers look at: the order and
repetition of members, the literal of each number, and whether a string
literal denotes a text at all.
-/

set_option autoImplicit false

namespace ExecutionLayer

/-- A parsed document. A string or member name is `none` when its escapes leave
a surrogate unpaired, so that it denotes no text; a document may still hold one
where nobody reads it. -/
inductive Json where
  | null
  | bool (value : Bool)
  | number (literal : String)
  | string (text : Option String)
  | array (elements : List Json)
  | object (members : List (Option String × Json))

instance : Inhabited Json := ⟨.null⟩

namespace Json

def text (value : String) : Json := .string (some value)

def nat (value : Nat) : Json := .number (toString value)

def record (members : List (String × Json)) : Json :=
  .object (members.map fun (name, value) => (some name, value))

/-- The value of the last member called `name`, if the node is an object that has one. -/
def member? (name : String) : Json → Option Json
  | .object members => (members.reverse.find? (·.1 == some name)).map (·.2)
  | _ => none

def text? : Json → Option String
  | .string text => text
  | _ => none

/-- The value of a number node written as an unsigned decimal integer. -/
def nat? : Json → Option Nat
  | .number literal =>
      if literal.toList.all Char.isDigit then
        some (literal.toList.foldl (fun value c => value * 10 + (c.toNat - 48)) 0)
      else none
  | _ => none

end Json

end ExecutionLayer
