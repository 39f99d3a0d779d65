import ExecutionLayer.World.Effects
import ExecutionLayer.World.View

/-!
# Overlays

A view with pending effects laid over it: what a block's later transactions see
of the earlier ones.
-/

set_option autoImplicit false

namespace ExecutionLayer

structure Overlay where
  base : WorldView
  effects : StateEffects := {}

namespace Overlay

def apply (overlay : Overlay) (effects : StateEffects) : Overlay :=
  { overlay with effects := overlay.effects.merge effects }

/-- The view in which the pending effects hide the base. -/
def view (overlay : Overlay) : WorldView where
  account address :=
    match overlay.effects.account? address with
    | some account => .ok account
    | none => overlay.base.account address
  storage address slot :=
    match overlay.effects.slot? address slot with
    | some value => .ok value
    | none => overlay.base.storage address slot

end Overlay

end ExecutionLayer
