import ExecutionLayer.Machine.Halt
import ExecutionLayer.Word

/-!
# Operand stacks

Stacks of at most 1024 words.
-/

set_option autoImplicit false

namespace ExecutionLayer

def Stack.limit : Nat := 1024

/-- A stack with its top word first. -/
structure Stack where
  words : List Word := []
  length_le : words.length ≤ Stack.limit := by decide
deriving DecidableEq

namespace Stack

def empty : Stack := {}

instance : Inhabited Stack := ⟨empty⟩

def height (stack : Stack) : Nat :=
  stack.words.length

def push (stack : Stack) (word : Word) : Except Halt Stack :=
  if fits : stack.words.length < limit then .ok ⟨word :: stack.words, fits⟩
  else .error .tooManyStackItems

/-- The stack without its top `count` words; fewer words leave nothing. -/
def removeTop (stack : Stack) (count : Nat) : Stack :=
  ⟨stack.words.drop count, by
    have bound := stack.length_le
    simp only [List.length_drop]
    omega⟩

def popMany (stack : Stack) (count : Nat) : Except Halt (List Word × Stack) :=
  if count ≤ stack.height then .ok (stack.words.take count, stack.removeTop count)
  else .error .insufficientStackItems

def pop (stack : Stack) : Except Halt (Word × Stack) :=
  match stack.words with
  | [] => .error .insufficientStackItems
  | word :: _ => .ok (word, stack.removeTop 1)

def drop (stack : Stack) (count : Nat) : Except Halt Stack :=
  if count ≤ stack.height then .ok (stack.removeTop count) else .error .insufficientStackItems

/-- The word at a depth below the top, which has depth zero. -/
def peek (stack : Stack) (depth : Nat) : Except Halt Word :=
  match stack.words[depth]? with
  | some word => .ok word
  | none => .error .insufficientStackItems

/-- Exchanges the top word with the one at a depth of at least one. -/
def swap (stack : Stack) (depth : Nat) : Except Halt Stack :=
  match stack.words[0]?, stack.words[depth]? with
  | some top, some other =>
      if depth = 0 then .error .insufficientStackItems
      else
        .ok ⟨(stack.words.set 0 other).set depth top, by
          simpa only [List.length_set] using stack.length_le⟩
  | _, _ => .error .insufficientStackItems

def dup (stack : Stack) (depth : Nat) : Except Halt Stack := do
  stack.push (← stack.peek depth)

end Stack

end ExecutionLayer
