import ExecutionLayer.Proofs.Block.Validation
import ExecutionLayer.Proofs.Engine.Runs

/-!
# The world and the head

The world of an engine is the one after the last block that was imported, while its head
is the highest block, the first among equals. The two part once a block is imported that
is not higher than all blocks before it.
-/

set_option autoImplicit false

namespace ExecutionLayer

/-- The last of a header and those that follow it. -/
def Header.latest : Header → List Header → Header
  | first, [] => first
  | _, next :: rest => latest next rest

/-- The highest of a header and those that follow it, the first among equals. -/
def Header.highest : Header → List Header → Header
  | first, [] => first
  | first, next :: rest => highest (if first.number < next.number then next else first) rest

namespace Engine

theorem root_extend {engine : Engine World} {payload : Payload} {block : Block}
    {result : Block.Result} (accepts : engine.Accepts payload block result) :
    (engine.extend block result).store.root = payload.header.stateRoot := by
  obtain ⟨_, _, _, _, root⟩ := Block.validate_ok accepts.validated
  rw [← accepts.header, root]
  rfl

theorem head_extend {engine : Engine World} {payload : Payload} {block : Block}
    {result : Block.Result} (accepts : engine.Accepts payload block result) :
    (engine.extend block result).chain.head.header =
      if engine.chain.head.header.number < payload.header.number then payload.header
      else engine.chain.head.header := by
  have fresh : engine.chain.contains block.hash = false := by
    rw [accepts.claimed]
    exact accepts.unknown
  rw [extend, Blockchain.head_insert _ _ _ fresh, accepts.header]
  split
  · exact accepts.header
  · rfl

/-- The root follows the imports, and the head follows the highest of them. -/
theorem root_head_run (engine : Engine World) (last best : Header) (payloads : List Payload)
    (root : engine.store.root = last.stateRoot) (head : engine.chain.head.header = best) :
    (engine.run payloads).store.root =
        (Header.latest last (engine.importedHeaders payloads)).stateRoot ∧
      (engine.run payloads).chain.head.header =
        Header.highest best (engine.importedHeaders payloads) := by
  induction payloads generalizing engine last best with
  | nil => exact ⟨root, head⟩
  | cons payload rest ih =>
      rw [run_cons, importedHeaders]
      rcases engine.receive_cases payload with
        ⟨valid, block, result, accepts, extended⟩ | ⟨notValid, same⟩
      · have laterRoot : (engine.receive payload).store.root = payload.header.stateRoot := by
          rw [extended, root_extend accepts]
        have laterHead : (engine.receive payload).chain.head.header =
            if best.number < payload.header.number then payload.header else best := by
          rw [extended, head_extend accepts, head]
        rw [imported_of_valid valid]
        exact ih (engine.receive payload) _ _ laterRoot laterHead
      · rw [imported_of_not_valid notValid, same]
        exact ih engine last best root head

/-- The root of the world is the one that the last imported block names. It is the one
that the head names exactly where the last block and the highest one name the same root. -/
theorem stateRoot_run {config : EngineConfig} {genesis : Genesis} {engine : Engine World}
    (built : ofGenesis config genesis = .ok engine) (payloads : List Payload) :
    let headers := engine.importedHeaders payloads
    let first := genesis.header config.chain
    let node := engine.run payloads
    node.stateRoot = .ok (Header.latest first headers).stateRoot ∧
      node.chain.head.header = Header.highest first headers ∧
      (node.stateRoot = .ok node.chain.head.header.stateRoot ↔
        (Header.latest first headers).stateRoot = (Header.highest first headers).stateRoot) := by
  intro headers first node
  have start := ofGenesis_ok built
  have rootBefore : engine.store.root = first.stateRoot := by
    rw [start]
    simp only [first, Genesis.header]
  have headBefore : engine.chain.head.header = first := by
    rw [start, Blockchain.head_ofGenesis]
  obtain ⟨root, head⟩ := root_head_run engine first first payloads rootBefore headBefore
  have answer : node.stateRoot = .ok (Header.latest first headers).stateRoot :=
    congrArg Except.ok root
  refine ⟨answer, head, ?_⟩
  rw [answer, head, Except.ok.injEq]

section Siblings

open Siblings

/-- Of two blocks at one height the first stays the head, while the world follows the second. -/
theorem siblings_stateRoot_ne_head :
    ∃ engine, ofGenesis Siblings.config genesis = .ok engine ∧
      (engine.run [idle, payment]).stateRoot ≠
        .ok (engine.run [idle, payment]).chain.head.header.stateRoot := by
  refine ⟨start, ofGenesis_eq, ?_⟩
  obtain ⟨_, _, exactly⟩ := stateRoot_run ofGenesis_eq [idle, payment]
  rw [ne_eq, exactly, importedHeaders, run_evaluated.1]
  decide

end Siblings

end Engine

end ExecutionLayer
