import ExecutionLayer.World.InMemory

/-!
# World stores

Where a chain keeps its world from block to block: a view for reading, the
application of effects, and roots. Every access can fail in a store; in memory none does.
-/

set_option autoImplicit false

namespace ExecutionLayer

/-- A kind of durable world. -/
class WorldStore (Store : Type) where
  view : Store → WorldView
  apply : Store → StateEffects → Except StateError Store
  root : Store → Except StateError Hash
  /-- The root that the store would have after the changes. -/
  rootWith : Store → StateEffects → Except StateError Hash

instance : WorldStore World where
  view world := world.view
  apply world effects := .ok (world.apply effects)
  root world := .ok world.root
  rootWith world effects := .ok (world.apply effects).root

end ExecutionLayer
