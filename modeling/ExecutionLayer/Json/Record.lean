import ExecutionLayer.Json.Basic

/-!
# Records in documents

A record stands in a document as an object with named members, or as an array with
the fields in their declared order. Unknown members are ignored, repeated known
ones are refused.
-/

set_option autoImplicit false

namespace ExecutionLayer.Json

/-- The member that has one of the given names, if there is one. Two such members
are refused. -/
def uniqueMember? (members : List (String × Json)) (names : List String) :
    Option (Option Json) :=
  match members.filter fun (name, _) => names.contains name with
  | [] => some none
  | [(_, value)] => some (some value)
  | _ => none

/-- What a document holds for each field of a record: `none` where a field is missing.
A field is given by the names that its member may have. -/
def fields? (fields : List (List String)) : Json → Option (List (Option Json))
  | .array elements =>
      if elements.length ≤ fields.length then
        some (elements.map some ++ List.replicate (fields.length - elements.length) none)
      else none
  | .object members => do
      let members ← members.mapM fun (name, value) => name.map fun name => (name, value)
      fields.mapM (uniqueMember? members)
  | _ => none

def required {Value : Type} (read : Json → Option Value) (field : Option Json) : Option Value :=
  field.bind read

def optional {Value : Type} (default : Value) (read : Json → Option Value) :
    Option Json → Option Value
  | none => some default
  | some value => read value

def nullable {Value : Type} (read : Json → Option Value) : Json → Option (Option Value)
  | .null => some none
  | value => (read value).map some

def list? {Value : Type} (read : Json → Option Value) : Json → Option (List Value)
  | .array elements => elements.mapM read
  | _ => none

/-- Reads an object as pairs of a key and a value, in document order. -/
def entries? {Key Value : Type} (readKey : Json → Option Key) (read : Json → Option Value) :
    Json → Option (List (Key × Value))
  | .object members => members.mapM fun (name, value) => do
      let key ← readKey (.string name)
      let value ← read value
      return (key, value)
  | _ => none

end ExecutionLayer.Json
