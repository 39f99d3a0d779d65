import ExecutionLayer.Proofs.Engine.Ancestry

/-!
# Base fees along a chain

Validation tells the first block with a base fee by its parent, which has none, and the rules
of a block by its number. On a chain with an accepted schedule both tell the same block.
-/

set_option autoImplicit false

namespace ExecutionLayer

/-! ## The schedule -/

namespace ChainConfig

theorem isActive_iff {activation : Option UInt64} {number : UInt64} :
    isActive activation number = true ↔ ∃ first, activation = some first ∧ first ≤ number := by
  cases activation <;> simp [isActive]

/-- Activity lasts, and the only number at which it can begin is the activation. -/
theorem isActive_next (activation : Option UInt64) {number before : UInt64}
    (next : number.toNat = before.toNat + 1) :
    isActive activation number = true ↔
      activation = some number ∨ isActive activation before = true := by
  rw [isActive_iff, isActive_iff]
  constructor
  · rintro ⟨first, rfl, reached⟩
    rw [UInt64.le_iff_toNat_le] at reached
    by_cases earlier : first ≤ before
    · exact .inr ⟨first, rfl, earlier⟩
    · rw [UInt64.le_iff_toNat_le] at earlier
      have same : first = number := UInt64.toNat_inj.mp (by omega)
      exact .inl (congrArg some same)
  · rintro (rfl | ⟨first, rfl, reached⟩)
    · exact ⟨number, rfl, UInt64.le_refl number⟩
    · rw [UInt64.le_iff_toNat_le] at reached
      refine ⟨first, rfl, UInt64.le_iff_toNat_le.mpr ?_⟩
      omega

theorem isActive_before {number before : UInt64} (next : number.toNat = before.toNat + 1) :
    isActive (some number) before = false := by
  rw [← Bool.not_eq_true, isActive_iff]
  rintro ⟨_, ⟨⟩, reached⟩
  rw [UInt64.le_iff_toNat_le] at reached
  omega

theorem isActive_zero {activation : Option UInt64} :
    isActive activation 0 = true ↔ activation = some 0 := by
  rw [isActive_iff]
  constructor
  · rintro ⟨first, rfl, zero⟩
    rw [UInt64.le_zero_iff.mp zero]
  · rintro rfl
    exact ⟨0, rfl, UInt64.le_refl 0⟩

/-- An accepted schedule activates Shanghai only where London is active. -/
theorem london_of_shanghai {chain : ChainConfig} (accepted : chain.validate = .ok ())
    {number : UInt64} (active : isActive chain.shanghaiBlock number = true) :
    isActive chain.londonBlock number = true := by
  unfold validate at accepted
  obtain ⟨_, accepted⟩ := guard_eq_ok accepted
  obtain ⟨_, _, ordered⟩ := bind_eq_ok accepted
  obtain ⟨shanghai, scheduled, reached⟩ := isActive_iff.mp active
  unfold checkShanghai at ordered
  rw [scheduled] at ordered
  cases london : chain.londonBlock with
  | none =>
      rw [london] at ordered
      cases ordered
  | some first =>
      simp only [london] at ordered
      have after : ¬shanghai < first := by
        intro before
        rw [if_pos before] at ordered
        cases ordered
      exact isActive_iff.mpr ⟨first, rfl, UInt64.le_trans (UInt64.not_lt.mp after) reached⟩

theorem hasLondonRules_forkAt {chain : ChainConfig} (accepted : chain.validate = .ok ())
    (number : UInt64) :
    (chain.forkAt number).hasLondonRules = isActive chain.londonBlock number := by
  unfold forkAt
  by_cases shanghai : isActive chain.shanghaiBlock number = true
  · rw [if_pos shanghai, london_of_shanghai accepted shanghai]
    rfl
  · rw [if_neg shanghai]
    cases isActive chain.londonBlock number <;> rfl

end ChainConfig

theorem Fork.hasLondonRules_iff {fork : Fork} : fork.hasLondonRules = true ↔ fork ≠ .berlin := by
  cases fork <;> decide

theorem EngineConfig.validate_chain {config : EngineConfig} (accepted : config.validate = .ok ()) :
    config.chain.validate = .ok () := by
  obtain ⟨_, accepted, _⟩ := bind_eq_ok accepted
  exact accepted

/-! ## Headers -/

namespace Header

/-- The header was held to the rules of the first block with a base fee: its gas limit is
measured against twice the parent's, and its base fee is the initial one. -/
structure Opens (hasBaseFee : Bool) (header parent : Header) : Prop where
  carried : hasBaseFee = true
  before : parent.baseFee = none
  gasLimit : gasLimitAllowed
    (UInt64.ofNat (min (parent.gasLimit.toNat * elasticity.toNat) (UInt64.size - 1)))
    header.gasLimit = true
  baseFee : header.baseFee = some initialBaseFee

/-- The header was held to the rules of all other blocks: its gas limit is measured against
the parent's, and its base fee follows from the parent's, if there is one. -/
structure Continues (hasBaseFee : Bool) (header parent : Header) : Prop where
  carried : parent.baseFee.isSome = hasBaseFee
  gasLimit : gasLimitAllowed parent.gasLimit header.gasLimit = true
  baseFee : header.baseFee = parent.baseFee.map fun _ => parent.nextBaseFee

variable {hasBaseFee : Bool} {header parent : Header}

theorem Obeys.opens (obeys : header.Obeys hasBaseFee parent) (carried : hasBaseFee = true)
    (before : parent.baseFee = none) : header.Opens hasBaseFee parent := by
  refine ⟨carried, before, ?_, ?_⟩
  · have allowed := obeys.gasLimit
    rwa [referenceGasLimit, if_pos ⟨carried, before⟩] at allowed
  · have initial : parent.nextBaseFee = initialBaseFee := by
      unfold nextBaseFee
      rw [before]
    rw [obeys.baseFee, carried, if_pos rfl, initial]

theorem Obeys.continues (obeys : header.Obeys hasBaseFee parent)
    (carried : parent.baseFee.isSome = hasBaseFee) : header.Continues hasBaseFee parent := by
  refine ⟨carried, ?_, ?_⟩
  · have same : referenceGasLimit hasBaseFee parent = parent.gasLimit := by
      refine if_neg fun opening => ?_
      rw [← carried, opening.2] at opening
      exact Bool.noConfusion opening.1
    rw [← same]
    exact obeys.gasLimit
  · rw [obeys.baseFee, ← carried]
    cases parent.baseFee <;> rfl

theorem Continues.not_opens (continues : header.Continues hasBaseFee parent) :
    ¬header.Opens hasBaseFee parent := by
  intro opens
  have carried := continues.carried
  rw [opens.carried, opens.before] at carried
  exact Bool.noConfusion carried

theorem Obeys.isSome_baseFee (obeys : header.Obeys hasBaseFee parent) :
    header.baseFee.isSome = hasBaseFee := by
  rw [obeys.baseFee]
  cases hasBaseFee <;> rfl

end Header

/-! ## Blocks of a chain -/

namespace Blockchain

/-- A chain that started at the genesis of a schedule and grew by valid blocks only. -/
structure Governed (config : ChainConfig) (chain : Blockchain) : Prop where
  rooted : chain.Rooted
  valid : ∀ {hash block}, chain.block? hash = some block → hash ≠ chain.genesisHash →
    ∃ parent, chain.block? block.header.parentHash = some parent ∧
      Header.validate (config.rulesAt block.header.number).schedule.hasBaseFee block.header
        parent.header = .ok ()
  first : ∀ {block}, chain.block? chain.genesisHash = some block →
    (block.header.baseFee.isSome = true ↔ config.londonBlock = some 0)

namespace Governed

theorem ofGenesis (genesis : Genesis) (config : ChainConfig) :
    Governed config (.ofGenesis (genesis.header config)) := by
  have kept (hash : Hash) := block?_ofGenesis (genesis.header config) hash
  refine ⟨.ofGenesis _ rfl, ?_, ?_⟩
  · intro hash block found other
    have differs : (genesis.header config).hash ≠ hash := Ne.symm other
    rw [kept, if_neg differs] at found
    cases found
  · intro block found
    have itself : (genesis.header config).hash =
      (Blockchain.ofGenesis (genesis.header config)).genesisHash := rfl
    rw [kept, if_pos itself] at found
    cases found
    by_cases start : config.londonBlock = some 0 <;> simp [Genesis.header, start]

variable {config : ChainConfig} {chain : Blockchain} {hash : Hash} {block : StoredBlock}

theorem number_first (governed : chain.Governed config)
    (found : chain.block? chain.genesisHash = some block) : block.header.number = 0 := by
  obtain ⟨first, foundFirst, zero⟩ := governed.rooted.first
  rw [foundFirst] at found
  cases found
  exact zero

/-- A block has a base fee if and only if London is active at its number. -/
theorem isSome_baseFee (governed : chain.Governed config) (accepted : config.validate = .ok ())
    (found : chain.block? hash = some block) :
    block.header.baseFee.isSome = ChainConfig.isActive config.londonBlock block.header.number := by
  by_cases isFirst : hash = chain.genesisHash
  · subst isFirst
    rw [governed.number_first found, Bool.eq_iff_iff, governed.first found,
      ChainConfig.isActive_zero]
  · obtain ⟨parent, _, valid⟩ := governed.valid found isFirst
    rw [(Header.obeys_of_validate valid).isSome_baseFee,
      ← ChainConfig.hasLondonRules_forkAt accepted]
    rfl

/-- Over a block of the chain the rules open exactly at the activation of London, and at every
other number they continue. -/
theorem opens_or_continues (governed : chain.Governed config)
    (accepted : config.validate = .ok ()) (found : chain.block? hash = some block)
    {child : Header} (next : child.number.toNat = block.header.number.toNat + 1)
    (obeys : child.Obeys (config.rulesAt child.number).schedule.hasBaseFee block.header) :
    (config.londonBlock = some child.number →
        child.Opens (config.rulesAt child.number).schedule.hasBaseFee block.header) ∧
      (config.londonBlock ≠ some child.number →
        child.Continues (config.rulesAt child.number).schedule.hasBaseFee block.header) := by
  have above : (config.rulesAt child.number).schedule.hasBaseFee =
      ChainConfig.isActive config.londonBlock child.number :=
    ChainConfig.hasLondonRules_forkAt accepted child.number
  have below := governed.isSome_baseFee accepted found
  have lasts := ChainConfig.isActive_next config.londonBlock next
  constructor
  · intro london
    have notYet : block.header.baseFee = none := by
      rw [london, ChainConfig.isActive_before next] at below
      exact Option.isNone_iff_eq_none.mp (Option.isSome_eq_false_iff.mp below)
    exact obeys.opens (above.trans (lasts.mpr (.inl london))) notYet
  · intro notLondon
    refine obeys.continues ?_
    rw [above, below, Bool.eq_iff_iff, lasts]
    exact (or_iff_right notLondon).symm

end Governed

end Blockchain

/-! ## Runs -/

namespace Engine

open Blockchain

theorem governed_extend {engine : Engine World} {payload : Payload} {block : Block}
    {result : Block.Result} (accepts : engine.Accepts payload block result)
    (governed : engine.chain.Governed engine.config) :
    (engine.extend block result).chain.Governed engine.config := by
  have remains {hash : Hash} {other : StoredBlock} (found : engine.chain.block? hash = some other) :
      (engine.extend block result).chain.block? hash = some other := by
    rw [extend, block?_insert, if_neg, found]
    rintro rfl
    rw [(block?_eq_none_iff _ _).mpr accepts.fresh] at found
    cases found
  have genesisHash : (engine.extend block result).chain.genesisHash = engine.chain.genesisHash :=
    genesisHash_insert ..
  refine ⟨rooted_extend accepts governed.rooted, ?_, ?_⟩
  · intro hash other found notFirst
    rw [genesisHash] at notFirst
    rw [extend, block?_insert] at found
    split at found
    · cases found
      obtain ⟨_, known, valid, _⟩ := Block.validate_eq_ok accepts.validated
      obtain ⟨parent, foundParent, rfl⟩ := Option.map_eq_some_iff.mp known
      exact ⟨parent, remains foundParent, valid⟩
    · obtain ⟨parent, foundParent, valid⟩ := governed.valid found notFirst
      exact ⟨parent, remains foundParent, valid⟩
  · intro first found
    obtain ⟨earlier, foundEarlier, _⟩ := governed.rooted.first
    rw [genesisHash, remains foundEarlier] at found
    cases found
    exact governed.first foundEarlier

theorem governed_run {config : EngineConfig} {genesis : Genesis} {engine : Engine World}
    (built : ofGenesis config genesis = .ok engine) (payloads : List Payload) :
    (engine.run payloads).chain.Governed config.chain := by
  have start := ofGenesis_ok built
  have governed : (engine.run payloads).config = config.chain ∧
      (engine.run payloads).chain.Governed config.chain := by
    apply run_induction (motive := fun node =>
      node.config = config.chain ∧ node.chain.Governed config.chain)
    · rw [start]
      exact ⟨rfl, .ofGenesis genesis config.chain⟩
    · rintro node payload block result accepts ⟨same, governed⟩
      rw [← same] at governed ⊢
      exact ⟨rfl, governed_extend accepts governed⟩
  exact governed.2

/-- On a chain with an accepted schedule a block has a base fee if and only if its rules are
those of London or later. The rules for the first base fee are applied to the blocks at the
activation of London, where it is not the first block, and to no other ones. -/
theorem run_baseFee {config : EngineConfig} (accepted : config.validate = .ok ())
    (genesis : Genesis) :
    ∃ engine, ofGenesis config genesis = .ok engine ∧ ∀ payloads : List Payload,
      let chain := (engine.run payloads).chain
      ∀ {hash : Hash} {block : StoredBlock}, chain.block? hash = some block →
        let number := block.header.number
        let hasBaseFee := (config.chain.rulesAt number).schedule.hasBaseFee
        (block.header.baseFee.isSome = true ↔ config.chain.forkAt number ≠ .berlin) ∧
          (hash = chain.genesisHash → number = 0) ∧
          (hash ≠ chain.genesisHash → 0 < number ∧
            ∃ parent, chain.block? block.header.parentHash = some parent ∧
              Header.validate hasBaseFee block.header parent.header = .ok () ∧
              (block.header.Opens hasBaseFee parent.header ↔
                config.chain.londonBlock = some number) ∧
              (config.chain.londonBlock ≠ some number →
                block.header.Continues hasBaseFee parent.header)) := by
  have chainAccepted := EngineConfig.validate_chain accepted
  have built : ofGenesis config genesis =
      .ok ⟨config.chain, genesis.world, .ofGenesis (genesis.header config.chain)⟩ := by
    rw [ofGenesis, new, accepted]
    rfl
  refine ⟨_, built, ?_⟩
  intro payloads chain hash block found number hasBaseFee
  have governed : chain.Governed config.chain := governed_run built payloads
  refine ⟨?_, ?_, ?_⟩
  · rw [governed.isSome_baseFee chainAccepted found,
      ← ChainConfig.hasLondonRules_forkAt chainAccepted, Fork.hasLondonRules_iff]
  · rintro rfl
    exact governed.number_first found
  · intro notFirst
    obtain ⟨parent, foundParent, valid⟩ := governed.valid found notFirst
    have next := governed.rooted.number_child foundParent valid
    have positive : 0 < number := by
      rw [UInt64.lt_iff_toNat_lt, next]
      exact Nat.succ_pos _
    obtain ⟨opens, continues⟩ := governed.opens_or_continues chainAccepted foundParent next
      (Header.obeys_of_validate valid)
    refine ⟨positive, parent, foundParent, valid, ⟨?_, opens⟩, continues⟩
    intro opened
    refine Decidable.byContradiction fun notLondon => ?_
    exact (continues notLondon).not_opens opened

namespace Activation

/-- A chain on which London and Shanghai come together, after the first block. -/
def config : EngineConfig :=
  { chain := { londonBlock := some 1, shanghaiBlock := some 1 } }

/-- The first block with a base fee. Its gas limit is twice its parent's. -/
def opening : Payload :=
  { Siblings.idle with
    gasLimit := 60000000
    baseFee := some 1000000000
    blockHash := 0xc0f1448795f07a576c51442bc99b117e6e61907a90617733e605de053533c576 }

/-- A child of the first block with a base fee. -/
def continuing : Payload :=
  { opening with
    parentHash := opening.blockHash
    number := 2
    timestamp := 2
    baseFee := some 875000000
    blockHash := 0x131823b9ed0252028c995967d448e57d5d91432fa7af722e081ebc7b390053ae }

/-- Both blocks are kept. The rules of the first base fee were applied to the lower one only. -/
theorem baseFee_evaluated :
    config.validate = .ok () ∧
      ∃ engine, ofGenesis config Siblings.genesis = .ok engine ∧
        let chain := (engine.run [opening, continuing]).chain
        ∃ first second, chain.block? opening.blockHash = some first ∧
          chain.block? continuing.blockHash = some second ∧
          second.header.baseFee.isSome = true ∧
          (∃ parent, chain.block? first.header.parentHash = some parent ∧
            first.header.Opens true parent.header) ∧
          ∃ parent, chain.block? second.header.parentHash = some parent ∧
            second.header.Continues true parent.header := by
  have accepted : config.validate = .ok () := by decide +kernel
  obtain ⟨engine, built, governed⟩ := run_baseFee accepted Siblings.genesis
  refine ⟨accepted, engine, built, ?_⟩
  have stored : let chain := (engine.run [opening, continuing]).chain
      (chain.block? opening.blockHash).map (·.header) = some opening.header ∧
        (chain.block? continuing.blockHash).map (·.header) = some continuing.header ∧
        chain.genesisHash = opening.parentHash := by
    rw [ofGenesis_ok built]
    decide +kernel
  obtain ⟨keptFirst, keptSecond, genesisHash⟩ := stored
  obtain ⟨first, foundFirst, headerFirst⟩ := Option.map_eq_some_iff.mp keptFirst
  obtain ⟨second, foundSecond, headerSecond⟩ := Option.map_eq_some_iff.mp keptSecond
  obtain ⟨_, _, valid⟩ := governed [opening, continuing] foundFirst
  obtain ⟨_, parent, foundParent, _, opens, _⟩ := valid (by rw [genesisHash]; decide)
  obtain ⟨carried, _, valid⟩ := governed [opening, continuing] foundSecond
  obtain ⟨_, above, foundAbove, _, _, continues⟩ := valid (by rw [genesisHash]; decide)
  rw [headerFirst] at opens foundParent
  rw [headerSecond] at carried continues foundAbove
  refine ⟨first, second, foundFirst, foundSecond, ?_, ⟨parent, ?_, ?_⟩, above, ?_, ?_⟩
  · rw [headerSecond]
    exact carried.mpr (by decide)
  · rw [headerFirst]
    exact foundParent
  · rw [headerFirst]
    exact opens.mpr rfl
  · rw [headerSecond]
    exact foundAbove
  · rw [headerSecond]
    exact continues (by decide)

end Activation

end Engine

end ExecutionLayer
