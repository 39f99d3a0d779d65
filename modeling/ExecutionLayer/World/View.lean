import ExecutionLayer.Account
import ExecutionLayer.Hex

/-!
# World views

Read access to accounts and storage, and the faults that a backing store can
raise.
-/

set_option autoImplicit false

namespace ExecutionLayer

inductive StateError where
  /-- The backing store could not be reached for what is named. -/
  | unavailable (what : String)
  /-- The update would contradict the state of the account. -/
  | inconsistent (address : Address) (reason : String)
  | root (reason : String)
deriving DecidableEq, Repr, Inhabited

def StateError.message : StateError → String
  | .unavailable what => "state unavailable: " ++ what
  | .inconsistent address reason =>
      "inconsistent state for " ++ Hex.ofNatWidth 20 address.toNat ++ ": " ++ reason
  | .root reason => "state root computation failed: " ++ reason

/-- Read access to a world. An address without account reads as `none`, a slot
never written as zero. -/
structure WorldView where
  account : Address → Except StateError (Option Account)
  storage : Address → Word → Except StateError Word

end ExecutionLayer
