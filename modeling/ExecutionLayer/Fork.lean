/-!
# Protocol milestones

The rule sets a block can be governed by, in order of activation.
-/

set_option autoImplicit false

namespace ExecutionLayer

/-- A protocol milestone. Later milestones keep the rules of earlier ones
unless they replace them. -/
inductive Fork where
  | berlin
  | london
  | shanghai
deriving DecidableEq, Repr, Inhabited

namespace Fork

def name : Fork → String
  | .berlin => "berlin"
  | .london => "london"
  | .shanghai => "shanghai"

def ofName? : String → Option Fork
  | "berlin" => some .berlin
  | "london" => some .london
  | "shanghai" => some .shanghai
  | _ => none

/-- True from the milestone that brought the base fee on. -/
def hasLondonRules : Fork → Bool
  | .berlin => false
  | .london | .shanghai => true

/-- True from the milestone that brought the init code limit on. -/
def hasShanghaiRules : Fork → Bool
  | .berlin | .london => false
  | .shanghai => true

end Fork

end ExecutionLayer
