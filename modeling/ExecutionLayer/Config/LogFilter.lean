/-!
# Log filters

The directives that select log lines, in the form target[span{field=value}]=level of
which every part may be left out, with commas between them. What a directive selects is
not told here, and so any text can be the value of a field.
-/

set_option autoImplicit false

namespace ExecutionLayer.LogFilter

def levelNames : List String :=
  ["off", "error", "warn", "info", "debug", "trace", "0", "1", "2", "3", "4", "5"]

def isLevel (text : List Char) : Bool :=
  levelNames.contains (String.ofList (text.map Char.toLower))

def isTargetChar (c : Char) : Bool :=
  c.isAlphanum || c == '_' || c == '-' || c == ':'

def isFieldChar (c : Char) : Bool :=
  c.isAlphanum || c == '_' || c == '.'

/-- The name of a field, which has to be there, and behind an equals sign a value. -/
def isField (text : List Char) : Bool :=
  let name := text.takeWhile isFieldChar
  match text.drop name.length with
  | [] => !name.isEmpty
  | '=' :: value => !name.isEmpty && !value.isEmpty
  | _ => false

/-- The name of a span and a field in braces, each of which may be missing. -/
def isSpan (text : List Char) : Bool :=
  match text.dropWhile (· != '{') with
  | [] => true
  | _ :: rest =>
      isField (rest.takeWhile (· != '}')) && rest.dropWhile (· != '}') == ['}']

/-- What may stand at the end of a directive: nothing, or a level behind an equals sign.
Without a level everything is selected. -/
def isLevelPart : List Char → Bool
  | [] => true
  | '=' :: level => level.isEmpty || isLevel level
  | _ => false

/-- A target, which may look like a level, or a span in brackets, or both, and the level. -/
def isDirective (text : List Char) : Bool :=
  let target := text.takeWhile isTargetChar
  match text.drop target.length with
  | '[' :: rest =>
      match rest.dropWhile (· != ']') with
      | _ :: level => isSpan (rest.takeWhile (· != ']')) && isLevelPart level
      | [] => false
  | rest => !target.isEmpty && isLevelPart rest

def splitCommas : List Char → List (List Char)
  | [] => [[]]
  | ',' :: rest => [] :: splitCommas rest
  | c :: rest =>
      match splitCommas rest with
      | [] => [[c]]
      | part :: parts => (c :: part) :: parts

/-- An empty text has no directive and is valid. -/
def isValid (text : String) : Bool :=
  text.isEmpty || (splitCommas text.toList).all isDirective

example : isValid "info,net::peer=off,store[import{number=7}]=debug,[{sender}]" = true := by
  decide +kernel

example : isValid "store[import{=7}]=debug" = false ∧ isValid "store=loud" = false := by
  decide +kernel

end ExecutionLayer.LogFilter
