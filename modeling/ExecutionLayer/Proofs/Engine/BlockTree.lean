import ExecutionLayer.Proofs.Engine.SideBranches
import ExecutionLayer.Proofs.Engine.StateRoot

/-!
# The tree of imported blocks

After any run the chain of an engine holds the first block and the imported ones, each under
its own hash and each but the first right above its parent. The head is the highest of them,
the first among equals.
-/

set_option autoImplicit false

namespace ExecutionLayer

/-- A header that stands right above its parent's, in number and in time. -/
structure Header.Follows (header parent : Header) : Prop where
  number : header.number.toNat = parent.number.toNat + 1
  timestamp : parent.timestamp < header.timestamp
  gasUsed : header.gasUsed ≤ header.gasLimit

namespace Blockchain

/-- Every block is kept under its own hash, and its parent is kept with it. Only the first
block has none. -/
structure WellFormed (chain : Blockchain) : Prop where
  hash : ∀ {hash block}, chain.block? hash = some block →
    block.hash = hash ∧ block.header.hash = hash
  parent : ∀ {hash block}, chain.block? hash = some block → hash ≠ chain.genesisHash →
    ∃ parent, chain.block? block.header.parentHash = some parent ∧
      block.header.Follows parent.header

/-- The chain holds the blocks with the listed headers, each once, and no other ones. -/
structure Lists (chain : Blockchain) (headers : List Header) : Prop where
  header? : ∀ hash header, chain.header? hash = some header ↔
    header ∈ headers ∧ header.hash = hash
  distinct : (headers.map Header.hash).Nodup

/-- The highest of the listed headers, and no earlier one is as high. -/
def FirstHighest (header : Header) (headers : List Header) : Prop :=
  ∃ earlier later, headers = earlier ++ header :: later ∧
    (∀ other ∈ earlier, other.number < header.number) ∧
    ∀ other ∈ later, other.number ≤ header.number

@[simp] theorem genesisHash_insert (chain : Blockchain) (block : Block)
    (receipts : List Receipt) :
    (chain.insert block receipts).genesisHash = chain.genesisHash := by
  unfold insert
  dsimp only
  split <;> rfl

/-! ## The first block -/

theorem wellFormed_ofGenesis (header : Header) : WellFormed (ofGenesis header) := by
  constructor
  · intro hash block found
    rw [block?_ofGenesis] at found
    split at found
    · rename_i same
      cases found
      exact ⟨same, same⟩
    · cases found
  · intro hash block found other
    have differs : header.hash ≠ hash := Ne.symm other
    rw [block?_ofGenesis, if_neg differs] at found
    cases found

theorem lists_ofGenesis (header : Header) : Lists (ofGenesis header) [header] := by
  constructor
  · intro hash found
    rw [Blockchain.header?, block?_ofGenesis, List.mem_singleton]
    by_cases same : header.hash = hash
    · rw [if_pos same, Option.map_some, Option.some.injEq]
      constructor
      · rintro rfl
        exact ⟨rfl, same⟩
      · rintro ⟨rfl, _⟩
        rfl
    · rw [if_neg same]
      constructor
      · intro none
        cases none
      · rintro ⟨rfl, own⟩
        exact absurd own same
  · exact List.pairwise_singleton _ _

/-! ## One more block -/

section

variable {chain : Blockchain} {block : Block} {receipts : List Receipt}

theorem WellFormed.insert (wellFormed : chain.WellFormed)
    (fresh : chain.contains block.hash = false) {parent : StoredBlock}
    (known : chain.block? block.header.parentHash = some parent)
    (follows : block.header.Follows parent.header) :
    (chain.insert block receipts).WellFormed := by
  have remains {hash : Hash} {other : StoredBlock} (found : chain.block? hash = some other) :
      (chain.insert block receipts).block? hash = some other := by
    rw [block?_insert, if_neg, found]
    rintro rfl
    rw [(block?_eq_none_iff chain _).mpr fresh] at found
    cases found
  constructor
  · intro hash other found
    rw [block?_insert] at found
    split at found
    · rename_i same
      cases found
      exact ⟨same, same⟩
    · exact wellFormed.hash found
  · intro hash other found notFirst
    rw [genesisHash_insert] at notFirst
    rw [block?_insert] at found
    split at found
    · cases found
      exact ⟨parent, remains known, follows⟩
    · obtain ⟨above, foundAbove, next⟩ := wellFormed.parent found notFirst
      exact ⟨above, remains foundAbove, next⟩

theorem Lists.insert {headers : List Header} (lists : chain.Lists headers)
    (fresh : chain.contains block.hash = false) :
    (chain.insert block receipts).Lists (headers ++ [block.header]) := by
  have absent (header : Header) : header ∈ headers → header.hash ≠ block.hash := by
    intro member same
    obtain ⟨stored, found, _⟩ :=
      Option.map_eq_some_iff.mp ((lists.header? _ _).mpr ⟨member, same⟩)
    rw [(block?_eq_none_iff chain _).mpr fresh] at found
    cases found
  constructor
  · intro hash header
    have others := lists.header? hash header
    rw [Blockchain.header?] at others ⊢
    rw [block?_insert, List.mem_append, List.mem_singleton]
    by_cases same : block.hash = hash
    · rw [if_pos same, Option.map_some, Option.some.injEq]
      constructor
      · rintro rfl
        exact ⟨.inr rfl, same⟩
      · rintro ⟨earlier | rfl, own⟩
        · exact absurd (own.trans same.symm) (absent header earlier)
        · rfl
    · rw [if_neg same, others]
      constructor
      · rintro ⟨earlier, own⟩
        exact ⟨.inl earlier, own⟩
      · rintro ⟨earlier | rfl, own⟩
        · exact ⟨earlier, own⟩
        · exact absurd own same
  · rw [List.map_append, List.nodup_append]
    refine ⟨lists.distinct, List.pairwise_singleton _ _, ?_⟩
    rintro hash listed _ added rfl
    obtain ⟨header, member, own⟩ := List.mem_map.mp listed
    cases List.mem_singleton.mp added
    exact absent header member own

end

end Blockchain

/-! ## The highest block -/

namespace Header

theorem number_le_highest (first : Header) (headers : List Header) :
    first.number ≤ (highest first headers).number := by
  induction headers generalizing first with
  | nil =>
      rw [highest]
      exact UInt64.le_refl _
  | cons next rest ih =>
      rw [highest]
      split
      · rename_i higher
        exact UInt64.le_trans (UInt64.le_of_lt higher) (ih next)
      · exact ih first

theorem firstHighest_highest (first : Header) (headers : List Header) :
    Blockchain.FirstHighest (highest first headers) (first :: headers) := by
  induction headers generalizing first with
  | nil =>
      rw [highest]
      exact ⟨[], [], rfl, List.forall_mem_nil _, List.forall_mem_nil _⟩
  | cons next rest ih =>
      rw [highest]
      split
      · rename_i higher
        obtain ⟨earlier, later, split, lower, least⟩ := ih next
        have below := UInt64.lt_of_lt_of_le higher (number_le_highest next rest)
        exact ⟨first :: earlier, later, congrArg _ split, List.forall_mem_cons.mpr ⟨below, lower⟩,
          least⟩
      · rename_i notHigher
        have under : next.number ≤ first.number := UInt64.not_lt.mp notHigher
        obtain ⟨earlier, later, split, lower, least⟩ := ih first
        cases earlier with
        | nil =>
            obtain ⟨same, rfl⟩ := List.cons_eq_cons.mp split
            rw [← same] at least ⊢
            exact ⟨[], next :: rest, rfl, List.forall_mem_nil _,
              List.forall_mem_cons.mpr ⟨under, least⟩⟩
        | cons head earlier =>
            obtain ⟨rfl, rest_eq⟩ := List.cons_eq_cons.mp split
            obtain ⟨below, lower⟩ := List.forall_mem_cons.mp lower
            have underHighest := UInt64.lt_of_le_of_lt under below
            refine ⟨first :: next :: earlier, later,
              congrArg (fun tail => first :: next :: tail) rest_eq, ?_, least⟩
            simp only [List.forall_mem_cons]
            exact ⟨below, underHighest, lower⟩

end Header

/-! ## Runs -/

namespace Engine

open Blockchain

variable {engine : Engine World} {payload : Payload} {block : Block} {result : Block.Result}

theorem Accepts.fresh (accepts : engine.Accepts payload block result) :
    engine.chain.contains block.hash = false := by
  rw [accepts.claimed]
  exact accepts.unknown

/-- The clock keeps the number of an accepted block from being clamped. -/
theorem Accepts.follows (accepts : engine.Accepts payload block result)
    (grounded : engine.chain.Grounded) :
    ∃ parent, engine.chain.block? block.header.parentHash = some parent ∧
      block.header.Follows parent.header := by
  obtain ⟨header, known, valid, _⟩ := Block.validate_eq_ok accepts.validated
  obtain ⟨number, timestamp⟩ := Header.validate_ok valid
  obtain ⟨parent, found, rfl⟩ := Option.map_eq_some_iff.mp known
  refine ⟨parent, found, ?_, timestamp, Header.validate_gasUsed valid⟩
  rw [number]
  exact toNat_successor (grounded.number_le_timestamp found) timestamp

theorem wellFormed_extend (accepts : engine.Accepts payload block result)
    (grounded : engine.chain.Grounded) (wellFormed : engine.chain.WellFormed) :
    (engine.extend block result).chain.Grounded ∧
      (engine.extend block result).chain.WellFormed := by
  obtain ⟨header, known, number, timestamp, _⟩ := Block.validate_ok accepts.validated
  obtain ⟨parent, found, follows⟩ := accepts.follows grounded
  exact ⟨grounded.insert block result.receipts accepts.fresh known number timestamp,
    wellFormed.insert accepts.fresh found follows⟩

theorem lists_run {headers : List Header} (lists : engine.chain.Lists headers)
    (payloads : List Payload) :
    (engine.run payloads).chain.Lists (headers ++ engine.importedHeaders payloads) := by
  induction payloads generalizing engine headers with
  | nil =>
      rw [run_nil, importedHeaders, imported, List.map_nil, List.append_nil]
      exact lists
  | cons payload rest ih =>
      rw [run_cons, importedHeaders]
      rcases engine.receive_cases payload with
        ⟨valid, block, result, accepts, extended⟩ | ⟨notValid, same⟩
      · have extendedLists : (engine.receive payload).chain.Lists (headers ++ [payload.header]) := by
          rw [extended, ← accepts.header]
          exact lists.insert accepts.fresh
        have later := ih extendedLists
        rw [List.append_assoc] at later
        rw [imported_of_valid valid]
        exact later
      · rw [imported_of_not_valid notValid, same]
        exact ih lists

/-- After any run the chain holds the first block and the imported ones, each above a parent
that it holds as well, and the head is the first of the highest blocks. -/
theorem run_wellFormed {config : EngineConfig} {genesis : Genesis} {engine : Engine World}
    (built : ofGenesis config genesis = .ok engine) (payloads : List Payload) :
    let chain := (engine.run payloads).chain
    let first := genesis.header config.chain
    let headers := first :: engine.importedHeaders payloads
    chain.genesisHash = first.hash ∧ chain.WellFormed ∧ chain.Lists headers ∧
      FirstHighest chain.head.header headers := by
  intro chain first headers
  have start := ofGenesis_ok built
  have startChain : engine.chain = .ofGenesis first := by rw [start]
  have tree : chain.genesisHash = first.hash ∧ chain.Grounded ∧ chain.WellFormed := by
    apply run_induction (motive := fun node =>
      node.chain.genesisHash = first.hash ∧ node.chain.Grounded ∧ node.chain.WellFormed)
    · rw [startChain]
      exact ⟨rfl, .ofGenesis first rfl, wellFormed_ofGenesis first⟩
    · rintro node payload block result accepts ⟨genesisHash, grounded, wellFormed⟩
      exact ⟨(genesisHash_insert ..).trans genesisHash,
        wellFormed_extend accepts grounded wellFormed⟩
  have lists : chain.Lists ([first] ++ engine.importedHeaders payloads) := by
    apply lists_run
    rw [startChain]
    exact lists_ofGenesis first
  have rootBefore : engine.store.root = first.stateRoot := by
    rw [start]
    simp only [first, Genesis.header]
  have headBefore : engine.chain.head.header = first := by
    rw [startChain, Blockchain.head_ofGenesis]
  have head := (root_head_run engine first first payloads rootBefore headBefore).2
  refine ⟨tree.1, tree.2.2, lists, ?_⟩
  rw [head]
  exact Header.firstHighest_highest first _

section Siblings

open Siblings

/-- Two children of the first block: both are kept, and the head is the one that came first. -/
theorem siblings_wellFormed :
    ∃ engine, ofGenesis Siblings.config genesis = .ok engine ∧
      (engine.run [idle, payment]).chain.WellFormed ∧
      (engine.run [idle, payment]).chain.head.header = idle.header := by
  refine ⟨start, ofGenesis_eq, ?_⟩
  obtain ⟨_, wellFormed, _, earlier, later, split, lower, least⟩ :=
    run_wellFormed ofGenesis_eq [idle, payment]
  refine ⟨wellFormed, ?_⟩
  rw [importedHeaders, run_evaluated.1] at split
  simp only [List.map_cons, List.map_nil] at split
  cases earlier with
  | nil =>
      obtain ⟨first, rfl⟩ := List.cons_eq_cons.mp split
      have higher := least idle.header (List.mem_cons_self ..)
      rw [← first] at higher
      exact absurd higher (by decide)
  | cons below earlier =>
      obtain ⟨_, split⟩ := List.cons_eq_cons.mp split
      cases earlier with
      | nil => exact (List.cons_eq_cons.mp split).1.symm
      | cons second earlier =>
          obtain ⟨rfl, rest⟩ := List.cons_eq_cons.mp split
          have last : (start.run [idle, payment]).chain.head.header ∈ [payment.header] := by
            rw [rest]
            exact List.mem_append_right _ (List.mem_cons_self ..)
          have higher := lower idle.header (List.mem_cons_of_mem _ (List.mem_cons_self ..))
          rw [List.mem_singleton.mp last] at higher
          exact absurd higher (by decide)

end Siblings

end Engine

end ExecutionLayer
