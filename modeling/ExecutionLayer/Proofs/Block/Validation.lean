import ExecutionLayer.Block.Import
import ExecutionLayer.Proofs.Block.Execution
import ExecutionLayer.Proofs.Blockchain
import ExecutionLayer.Proofs.Header.Rules

/-!
# Validated blocks

What a block that passes validation is known to satisfy.
-/

set_option autoImplicit false

namespace ExecutionLayer

namespace Block

theorem checkCommitments_ok {header : Header} {result : Result}
    (valid : checkCommitments header result = .ok ()) : header.stateRoot = result.stateRoot := by
  unfold checkCommitments at valid
  obtain ⟨_, valid⟩ := guard_eq_ok valid
  obtain ⟨_, valid⟩ := guard_eq_ok valid
  obtain ⟨_, valid⟩ := guard_eq_ok valid
  by_cases differs : header.stateRoot = result.stateRoot
  · exact differs
  · rw [if_pos differs] at valid
    cases valid

/-- The checks that a valid block passed. -/
theorem validate_eq_ok {rules : BlockRules} {world : World} {chain : Blockchain} {block : Block}
    {result : Result} (valid : block.validate rules world chain = .ok result) :
    ∃ parent, chain.header? block.header.parentHash = some parent ∧
      Header.validate rules.schedule.hasBaseFee block.header parent = .ok () ∧
      block.execute rules world (chain.ancestorHash? block.header.parentHash) = .ok result ∧
      checkCommitments block.header result = .ok () := by
  unfold validate at valid
  cases known : chain.header? block.header.parentHash with
  | none =>
      simp only [known] at valid
      cases valid
  | some parent =>
      simp only [known] at valid
      obtain ⟨⟨⟩, follows, valid⟩ := bind_eq_ok valid
      obtain ⟨executed, execution, valid⟩ := bind_eq_ok valid
      obtain ⟨⟨⟩, matched, valid⟩ := bind_eq_ok valid
      cases valid
      exact ⟨parent, rfl, mapError_eq_ok follows, execution, matched⟩

/-- A valid block has a parent in the chain that its header follows, and its header names
the root of the world after it. -/
theorem validate_ok {rules : BlockRules} {world : World} {chain : Blockchain} {block : Block}
    {result : Result} (valid : block.validate rules world chain = .ok result) :
    ∃ parent, chain.header? block.header.parentHash = some parent ∧
      block.header.number = Header.successor parent.number ∧
      parent.timestamp < block.header.timestamp ∧
      block.header.stateRoot = (world.apply result.effects).root := by
  obtain ⟨parent, known, follows, executed, matched⟩ := validate_eq_ok valid
  obtain ⟨number, timestamp⟩ := Header.validate_ok follows
  refine ⟨parent, known, number, timestamp, ?_⟩
  rw [checkCommitments_ok matched, execute_eq_ok executed]

theorem checkCommitments_blames {header : Header} {result : Result} {error : ImportError}
    (failed : checkCommitments header result = .error error) : error.blamesBlock = true := by
  unfold checkCommitments at failed
  rcases guard_eq_error failed with rfl | failed
  · rfl
  rcases guard_eq_error failed with rfl | failed
  · rfl
  rcases guard_eq_error failed with rfl | failed
  · rfl
  split at failed
  · cases failed
    rfl
  · cases failed

/-- Validation of a block with a parent either blames the block or fails as execution does. -/
theorem validate_eq_error {rules : BlockRules} {world : World} {chain : Blockchain}
    {block : Block} {error : ImportError} {parent : Header}
    (known : chain.header? block.header.parentHash = some parent)
    (failed : block.validate rules world chain = .error error) :
    error.blamesBlock = true ∨
      Header.validate rules.schedule.hasBaseFee block.header parent = .ok () ∧
        block.execute rules world (chain.ancestorHash? block.header.parentHash) =
          .error error := by
  unfold validate at failed
  simp only [known] at failed
  rcases bind_eq_error failed with headerFailed | ⟨_, follows, failed⟩
  · cases checked : Header.validate rules.schedule.hasBaseFee block.header parent with
    | error cause =>
        rw [checked] at headerFailed
        cases headerFailed
        exact .inl rfl
    | ok passed =>
        rw [checked] at headerFailed
        cases headerFailed
  · rcases bind_eq_error failed with executed | ⟨result, _, failed⟩
    · exact .inr ⟨mapError_eq_ok follows, executed⟩
    · rcases bind_eq_error failed with differs | ⟨_, _, failed⟩
      · exact .inl (checkCommitments_blames differs)
      · cases failed

/-- Validation raises a fault exactly where execution does, under a header that obeys the rules. -/
theorem validate_eq_state_error_iff {rules : BlockRules} {world : World} {chain : Blockchain}
    {block : Block} {cause : StateError} :
    block.validate rules world chain = .error (.state cause) ↔
      ∃ parent, chain.header? block.header.parentHash = some parent ∧
        Header.validate rules.schedule.hasBaseFee block.header parent = .ok () ∧
        block.execute rules world (chain.ancestorHash? block.header.parentHash) =
          .error (.state cause) := by
  constructor
  · intro failed
    cases known : chain.header? block.header.parentHash with
    | none =>
        unfold validate at failed
        simp only [known] at failed
        cases failed
    | some parent =>
        rcases validate_eq_error known failed with blamed | ⟨follows, executed⟩
        · cases blamed
        · exact ⟨parent, rfl, follows, executed⟩
  · rintro ⟨parent, known, follows, executed⟩
    unfold validate
    simp only [known, follows, executed]
    rfl

/-- Only a missing parent makes validation report one. -/
theorem validate_ne_unknownParent {rules : BlockRules} {world : World} {chain : Blockchain}
    {block : Block} (known : chain.contains block.header.parentHash = true) (parent : Hash) :
    block.validate rules world chain ≠ .error (.unknownParent parent) := by
  obtain ⟨stored, found⟩ := (chain.contains_iff _).mp known
  have header : chain.header? block.header.parentHash = some stored.header := by
    rw [Blockchain.header?, found]
    rfl
  intro failed
  rcases validate_eq_error header failed with blamed | ⟨_, executed⟩
  · cases blamed
  · obtain ⟨_, _, _, failure, _, _, _, same⟩ :=
      executeAll_eq_error_iff.mp (execute_eq_error_iff.mp executed)
    cases failure <;> cases same

/-- What a chain answers about a block's parent is all that validation asks of it. -/
theorem validate_congr {rules : BlockRules} {world : World} {left right : Blockchain}
    {block : Block}
    (header : left.header? block.header.parentHash = right.header? block.header.parentHash)
    (ancestors : left.ancestorHash? block.header.parentHash =
      right.ancestorHash? block.header.parentHash) :
    block.validate rules world left = block.validate rules world right := by
  unfold validate
  simp only [header, ancestors]

theorem validate_of_unknown {rules : BlockRules} {world : World} {chain : Blockchain}
    {block : Block} (unknown : chain.contains block.header.parentHash = false) :
    block.validate rules world chain = .error (.unknownParent block.header.parentHash) := by
  have absent : chain.header? block.header.parentHash = none := by
    rw [Blockchain.header?, (chain.block?_eq_none_iff _).mpr unknown]
    rfl
  unfold validate
  simp only [absent]
  rfl

end Block

end ExecutionLayer
