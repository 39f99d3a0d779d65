import ExecutionLayer.Proofs.Engine.BlockTree
import ExecutionLayer.Proofs.Instruction.Evaluation
import ExecutionLayer.Proofs.Transaction.Stages

/-!
# Hashes of ancestors

What a chain answers about the ancestors of a block, and what code in a child of that block
learns from it. Both windows are read in integers.
-/

set_option autoImplicit false

namespace ExecutionLayer

namespace Blockchain

/-- Parent links lead from a block to the other one. The first block has no parent. -/
inductive Descends (chain : Blockchain) : StoredBlock → StoredBlock → Prop where
  | refl (block : StoredBlock) : Descends chain block block
  | parent {block parent ancestor : StoredBlock} (notFirst : block.hash ≠ chain.genesisHash)
      (known : chain.block? block.header.parentHash = some parent)
      (later : Descends chain parent ancestor) : Descends chain block ancestor

/-- The other block is the one with the number on the parent chain of a block. -/
structure Ancestor (chain : Blockchain) (block : StoredBlock) (number : Nat)
    (ancestor : StoredBlock) : Prop where
  descends : chain.Descends block ancestor
  number : ancestor.header.number.toNat = number

/-- All blocks descend from the first one, which has number zero. -/
structure Rooted (chain : Blockchain) : Prop where
  grounded : chain.Grounded
  wellFormed : chain.WellFormed
  first : ∃ first, chain.block? chain.genesisHash = some first ∧ first.header.number = 0

/-! ## The walk along parent links -/

section

variable {chain : Blockchain} {hash : Hash} {block ancestor : StoredBlock}

namespace Rooted

theorem ofGenesis (header : Header) (first : header.number = 0) : Rooted (ofGenesis header) := by
  refine ⟨.ofGenesis header first, wellFormed_ofGenesis header,
    ⟨header, header.hash, [], []⟩, ?_, first⟩
  rw [block?_ofGenesis]
  exact if_pos rfl

/-- A block that is not the first one has its parent's number plus one. -/
theorem parent (rooted : chain.Rooted) (found : chain.block? hash = some block)
    (notFirst : block.hash ≠ chain.genesisHash) :
    ∃ parent, chain.block? block.header.parentHash = some parent ∧
      block.header.number.toNat = parent.header.number.toNat + 1 := by
  rw [rooted.grounded.hash_eq found] at notFirst
  obtain ⟨parent, known, follows⟩ := rooted.wellFormed.parent found notFirst
  exact ⟨parent, known, follows.number⟩

/-- Only the first block has number zero. -/
theorem hash_ne_genesisHash (rooted : chain.Rooted) (found : chain.block? hash = some block)
    (positive : 0 < block.header.number.toNat) : block.hash ≠ chain.genesisHash := by
  intro isFirst
  obtain ⟨first, foundFirst, zero⟩ := rooted.first
  rw [← isFirst, rooted.grounded.hash_eq found, found] at foundFirst
  cases foundFirst
  rw [zero] at positive
  exact absurd positive (Nat.lt_irrefl 0)

theorem number_le (rooted : chain.Rooted) (descends : chain.Descends block ancestor) :
    ∀ {hash}, chain.block? hash = some block →
      ancestor.header.number.toNat ≤ block.header.number.toNat := by
  induction descends with
  | refl block => exact fun _ => Nat.le_refl _
  | parent notFirst known later ih =>
      intro hash found
      obtain ⟨above, knownAbove, next⟩ := rooted.parent found notFirst
      cases known.symm.trans knownAbove
      have lower := ih known
      omega

/-- Every number up to that of a block belongs to a block on its parent chain. -/
theorem exists_ancestor (rooted : chain.Rooted) {number distance : Nat}
    (found : chain.block? hash = some block)
    (height : block.header.number.toNat = number + distance) :
    ∃ ancestor, chain.Ancestor block number ancestor := by
  induction distance generalizing hash block with
  | zero => exact ⟨block, .refl block, height⟩
  | succ distance ih =>
      have notFirst := rooted.hash_ne_genesisHash found (by omega)
      obtain ⟨parent, known, next⟩ := rooted.parent found notFirst
      obtain ⟨ancestor, descends, reached⟩ := ih known (by omega)
      exact ⟨ancestor, .parent notFirst known descends, reached⟩

/-- The walk ends at the ancestor, given a step for each number in between. -/
theorem descend_eq_some (rooted : chain.Rooted) {number : UInt64}
    (descends : chain.Descends block ancestor) (reached : ancestor.header.number = number) :
    ∀ {hash steps}, chain.block? hash = some block →
      block.header.number.toNat ≤ number.toNat + steps →
        chain.descend number steps block = some ancestor := by
  induction descends with
  | refl block =>
      intro hash steps _ _
      have here : block.header.number ≤ number := reached ▸ UInt64.le_refl _
      unfold descend
      rw [if_pos here]
  | @parent block parent ancestor notFirst known later ih =>
      intro hash steps found enough
      obtain ⟨above, knownAbove, next⟩ := rooted.parent found notFirst
      cases known.symm.trans knownAbove
      have lower := rooted.number_le later known
      rw [reached] at lower
      have notYet : ¬ block.header.number ≤ number := by
        rw [UInt64.le_iff_toNat_le]
        omega
      cases steps with
      | zero => omega
      | succ steps =>
          unfold descend
          simp only [if_neg notYet, known]
          exact ih reached known (by omega)

theorem ancestor_unique (rooted : chain.Rooted) {number : Nat} {other : StoredBlock}
    (found : chain.block? hash = some block) (one : chain.Ancestor block number ancestor)
    (two : chain.Ancestor block number other) : ancestor = other := by
  have same : other.header.number = ancestor.header.number :=
    UInt64.toNat_inj.mp (two.number.trans one.number.symm)
  have enough : block.header.number.toNat ≤
      ancestor.header.number.toNat + block.header.number.toNat := Nat.le_add_left _ _
  have toOne := rooted.descend_eq_some one.descends rfl found enough
  have toTwo := rooted.descend_eq_some two.descends same found enough
  exact Option.some.inj (toOne.symm.trans toTwo)

theorem existsUnique_ancestor (rooted : chain.Rooted) {number : Nat}
    (found : chain.block? hash = some block) (below : number ≤ block.header.number.toNat) :
    ∃! ancestor, chain.Ancestor block number ancestor := by
  obtain ⟨ancestor, holds⟩ := rooted.exists_ancestor found (Nat.add_sub_of_le below).symm
  exact ⟨ancestor, holds, fun other also => rooted.ancestor_unique found also holds⟩

end Rooted

/-- The number of a block and the 255 numbers below it. -/
theorem in_hashWindow_iff (height number : UInt64) :
    ¬(number > height ∨ height - number ≥ hashWindow) ↔
      (height.toNat : Int) - 255 ≤ number.toNat ∧ number.toNat ≤ height.toNat := by
  have size : hashWindow.toNat = 256 := rfl
  rw [not_or, gt_iff_lt, UInt64.not_lt, ge_iff_le, UInt64.not_le]
  constructor
  · rintro ⟨below, near⟩
    rw [UInt64.lt_iff_toNat_lt, UInt64.toNat_sub_of_le _ _ below] at near
    rw [UInt64.le_iff_toNat_le] at below
    omega
  · rintro ⟨near, below⟩
    have le : number ≤ height := by
      rw [UInt64.le_iff_toNat_le]
      exact below
    refine ⟨le, ?_⟩
    rw [UInt64.lt_iff_toNat_lt, UInt64.toNat_sub_of_le _ _ le]
    omega

/-- The chain knows the hash of an ancestor exactly within its window. -/
theorem Rooted.ancestorHash?_eq_some_iff (rooted : chain.Rooted)
    (found : chain.block? hash = some block) (number : UInt64) (answer : Hash) :
    chain.ancestorHash? hash number = some answer ↔
      (block.header.number.toNat - 255 : Int) ≤ number.toNat ∧
        number.toNat ≤ block.header.number.toNat ∧
        ∃ ancestor, chain.Ancestor block number.toNat ancestor ∧ ancestor.hash = answer := by
  have window := in_hashWindow_iff block.header.number number
  rw [← and_assoc, ← window]
  simp only [ancestorHash?, found, Option.bind_eq_bind, Option.bind_some]
  split
  · rename_i outside
    constructor
    · intro answered
      cases answered
    · rintro ⟨inside, _⟩
      exact absurd outside inside
  · rename_i inside
    obtain ⟨ancestor, holds, only⟩ := rooted.existsUnique_ancestor found (window.mp inside).2
    have fits := rooted.grounded.number_lt_size found
    have walked : chain.descend number chain.size block = some ancestor :=
      rooted.descend_eq_some holds.descends (UInt64.toNat_inj.mp holds.number) found (by omega)
    rw [walked, Option.bind_some]
    constructor
    · intro answered
      exact ⟨inside, ancestor, holds, Option.some.inj answered⟩
    · rintro ⟨_, other, also, rfl⟩
      rw [only other also]
      rfl

end

end Blockchain

/-! ## The instruction -/

section

variable {machine : Machine} {requested : Word} {rest : List Word}

namespace Action

/-- The operand gives way to the hash of the ancestor that it numbers. -/
theorem run_blockHash (context : Context)
    (words : machine.frame.stack.words = requested :: rest)
    (paid : Gas.blockHash ≤ machine.frame.gas) :
    ∃ stack : Stack, stack.words = ancestorHash context requested :: rest ∧
      blockHash context machine = .ok () { machine with
        frame := { machine.frame with gas := machine.frame.gas - Gas.blockHash, stack } } := by
  let payer : Machine :=
    { machine with frame := { machine.frame with gas := machine.frame.gas - Gas.blockHash } }
  obtain ⟨popped, left, pop⟩ := run_pop payer words
  have room : popped.words.length < Stack.limit := by
    have bound := machine.frame.stack.length_le
    rw [words, List.length_cons] at bound
    rw [left]
    omega
  let asking : Machine := { payer with frame := { payer.frame with stack := popped } }
  obtain ⟨stack, top, push⟩ := run_push asking (ancestorHash context requested) room
  refine ⟨stack, top.trans (congrArg _ left), ?_⟩
  simp only [blockHash, Bind.bind, EStateM.bind, run_useGas paid]
  simp only [payer, asking] at pop push
  simp only [pop, push]

end Action

theorem Machine.step_blockHash (schedule : GasSchedule) (context : Context)
    (executing : machine.frame.status = .codeExecuting)
    (opcode : machine.frame.currentOpcode = 0x40)
    (words : machine.frame.stack.words = requested :: rest)
    (paid : Gas.blockHash ≤ machine.frame.gas) :
    ∃ stack : Stack, stack.words = Action.ancestorHash context requested :: rest ∧
      machine.step schedule context = .ok { machine with
        frame := { machine.frame with
          gas := machine.frame.gas - Gas.blockHash, stack, pc := machine.frame.pc + 1 } } := by
  have decoded : Instruction.ofOpcode? schedule machine.frame.currentOpcode = some .blockHash := by
    rw [opcode]
    rfl
  have height : machine.frame.stack.height = rest.length + 1 := by
    rw [Stack.height, words, List.length_cons]
  have fits : Instruction.blockHash.stackFault? machine.frame.stack.height = none := by
    have bound := machine.frame.stack.length_le
    rw [words, List.length_cons] at bound
    simp only [Instruction.stackFault?, Instruction.consumed, Instruction.produced, height]
    rw [if_neg (by omega), if_neg (by omega)]
  obtain ⟨stack, top, ran⟩ := Action.run_blockHash context words paid
  have executed : Instruction.blockHash.execute schedule context machine = .ok 1 { machine with
      frame := { machine.frame with gas := machine.frame.gas - Gas.blockHash, stack } } := by
    change (Action.blockHash context >>= fun _ => pure 1 : Action Nat) machine = _
    simp only [Bind.bind, EStateM.bind, ran]
    rfl
  refine ⟨stack, top, ?_⟩
  simp only [step, decoded, fits, executed]
  simp only [advance, executing, if_pos]

end

/-! ## Children of a block -/

namespace Blockchain.Rooted

variable {chain : Blockchain} {hash : Hash} {block : StoredBlock} {child : Header}
  {context : Context}

/-- The clock keeps the number of a child from being clamped. -/
theorem number_child (rooted : chain.Rooted) (found : chain.block? hash = some block)
    {hasBaseFee : Bool} (valid : Header.validate hasBaseFee child block.header = .ok ()) :
    child.number.toNat = block.header.number.toNat + 1 := by
  obtain ⟨number, timestamp⟩ := Header.validate_ok valid
  rw [number]
  exact toNat_successor (rooted.grounded.number_le_timestamp found) timestamp

/-- The numbers that code can ask for are those that the chain answers. -/
theorem ancestorHash_of_near (rooted : chain.Rooted) (found : chain.block? hash = some block)
    (height : context.block.number.toNat = block.header.number.toNat + 1)
    (asks : context.blockHash = chain.ancestorHash? hash) {requested : Word}
    (near : (context.block.number.toNat : Int) - 256 ≤ requested.toNat)
    (below : requested.toNat < context.block.number.toNat) :
    ∃ ancestor, chain.Ancestor block requested.toNat ancestor ∧
      Action.ancestorHash context requested = ancestor.hash := by
  have fits : requested.toNat < UInt64.size := by
    have bound := UInt64.toNat_lt_size context.block.number
    omega
  have same : (UInt64.ofNat requested.toNat).toNat = requested.toNat :=
    UInt64.toNat_ofNat_of_lt' fits
  have under : requested.toNat ≤ block.header.number.toNat := by omega
  obtain ⟨ancestor, holds, _⟩ := rooted.existsUnique_ancestor found under
  have answered : chain.ancestorHash? hash (UInt64.ofNat requested.toNat) = some ancestor.hash := by
    rw [rooted.ancestorHash?_eq_some_iff found, same]
    exact ⟨by omega, by omega, ancestor, holds, rfl⟩
  refine ⟨ancestor, holds, ?_⟩
  have window : Action.blockHashWindow = 256 := rfl
  have inside : context.block.number.toNat - Action.blockHashWindow ≤ requested.toNat ∧
      requested.toNat < context.block.number.toNat := by omega
  rw [Action.ancestorHash]
  simp only [if_pos inside, asks, answered, Option.getD_some]

end Blockchain.Rooted

theorem Action.ancestorHash_of_far {context : Context} {requested : Word}
    (far : ¬((context.block.number.toNat : Int) - 256 ≤ requested.toNat ∧
      requested.toNat < context.block.number.toNat)) :
    ancestorHash context requested = 0 := by
  have window : blockHashWindow = 256 := rfl
  have outside : ¬(context.block.number.toNat - blockHashWindow ≤ requested.toNat ∧
      requested.toNat < context.block.number.toNat) := by omega
  rw [ancestorHash]
  simp only [if_neg outside]

/-! ## Runs -/

namespace Engine

open Blockchain

theorem rooted_extend {engine : Engine World} {payload : Payload} {block : Block}
    {result : Block.Result} (accepts : engine.Accepts payload block result)
    (rooted : engine.chain.Rooted) : (engine.extend block result).chain.Rooted := by
  obtain ⟨grounded, wellFormed⟩ := wellFormed_extend accepts rooted.grounded rooted.wellFormed
  obtain ⟨first, found, zero⟩ := rooted.first
  refine ⟨grounded, wellFormed, first, ?_, zero⟩
  rw [extend, genesisHash_insert, block?_insert, if_neg, found]
  intro same
  rw [← same, (block?_eq_none_iff _ _).mpr accepts.fresh] at found
  cases found

theorem rooted_run {config : EngineConfig} {genesis : Genesis} {engine : Engine World}
    (built : ofGenesis config genesis = .ok engine) (payloads : List Payload) :
    (engine.run payloads).chain.Rooted := by
  apply run_induction (motive := fun node => node.chain.Rooted)
  · rw [ofGenesis_ok built]
    exact .ofGenesis (genesis.header config.chain) rfl
  · intro node payload block result accepts rooted
    exact rooted_extend accepts rooted

/-- Whatever else was imported, the chain knows of a block the hashes of its ancestors down
to 255 numbers below it, and code in a valid child of the block is told those and no other. -/
theorem run_ancestorHash {config : EngineConfig} {genesis : Genesis} {engine : Engine World}
    (built : ofGenesis config genesis = .ok engine) (payloads : List Payload) {hash : Hash}
    {block : StoredBlock} (kept : (engine.run payloads).chain.block? hash = some block) :
    let chain := (engine.run payloads).chain
    (∀ number ≤ block.header.number.toNat, ∃! ancestor, chain.Ancestor block number ancestor) ∧
      (∀ (number : UInt64) (answer : Hash), chain.ancestorHash? hash number = some answer ↔
        (block.header.number.toNat - 255 : Int) ≤ number.toNat ∧
          number.toNat ≤ block.header.number.toNat ∧
          ∃ ancestor, chain.Ancestor block number.toNat ancestor ∧ ancestor.hash = answer) ∧
      ∀ {child : Header} {hasBaseFee : Bool}, child.parentHash = hash →
        Header.validate hasBaseFee child block.header = .ok () →
        ∀ (chainId : UInt64) (transaction : Transaction) (schedule : GasSchedule)
          (machine : Machine) {requested : Word} {rest : List Word},
          machine.frame.status = .codeExecuting → machine.frame.currentOpcode = 0x40 →
          machine.frame.stack.words = requested :: rest → Gas.blockHash ≤ machine.frame.gas →
          let above : Int := block.header.number.toNat + 1
          let context := transaction.context (child.context chainId)
            (chain.ancestorHash? child.parentHash)
          ∃ (pushed : Word) (stack : Stack), stack.words = pushed :: rest ∧
            machine.step schedule context = .ok { machine with
              frame := { machine.frame with
                gas := machine.frame.gas - Gas.blockHash, stack, pc := machine.frame.pc + 1 } } ∧
            (above - 256 ≤ requested.toNat ∧ requested.toNat < above →
              ∃ ancestor, chain.Ancestor block requested.toNat ancestor ∧
                pushed = ancestor.hash) ∧
            (¬(above - 256 ≤ requested.toNat ∧ requested.toNat < above) → pushed = 0) := by
  intro chain
  have rooted : chain.Rooted := rooted_run built payloads
  refine ⟨fun _ below => rooted.existsUnique_ancestor kept below,
    rooted.ancestorHash?_eq_some_iff kept, ?_⟩
  intro child hasBaseFee parent valid chainId transaction schedule machine requested rest executing
    opcode words paid above context
  have height : context.block.number.toNat = block.header.number.toNat + 1 :=
    rooted.number_child kept valid
  have same : above = context.block.number.toNat := by
    rw [height, Int.natCast_succ]
  have asks : context.blockHash = chain.ancestorHash? hash :=
    congrArg chain.ancestorHash? parent
  obtain ⟨stack, top, stepped⟩ :=
    Machine.step_blockHash schedule context executing opcode words paid
  refine ⟨_, stack, top, stepped, ?_, ?_⟩
  · rw [same]
    rintro ⟨near, below⟩
    exact rooted.ancestorHash_of_near kept height asks near (Int.ofNat_lt.mp below)
  · rw [same, Int.ofNat_lt]
    exact Action.ancestorHash_of_far

section Siblings

open Siblings

/-- A frame that asks for the hash of the block with number one. -/
def Siblings.asking : Machine where
  frame := { Frame.ofMessage { code := .ofBytes [0x40] } ∅ ∅ with
    status := .codeExecuting
    gas := 20
    stack := { words := [1] } }
  world := { base := genesis.world.view }

/-- A child of one of two siblings is told the hash of that sibling. -/
theorem siblings_ancestorHash :
    ofGenesis Siblings.config genesis = .ok start ∧
      ∃ block, (start.run [idle, payment]).chain.block? idle.blockHash = some block ∧
        Header.validate false next.header block.header = .ok () ∧
        ∃ after, asking.step (.ofFork .berlin) ((default : Transaction).context
            (next.header.context 1)
            ((start.run [idle, payment]).chain.ancestorHash? next.header.parentHash)) = .ok after ∧
          after.frame.stack.words = [idle.blockHash] := by
  have shown : ((start.run [idle, payment]).chain.block? idle.blockHash).map
      (fun block => (block.header, block.hash)) = some (idle.header, idle.blockHash) := by
    decide +kernel
  obtain ⟨block, kept, same⟩ := Option.map_eq_some_iff.mp shown
  obtain ⟨header, hash⟩ := Prod.mk.inj same
  have valid : Header.validate false next.header block.header = .ok () := by
    rw [header]
    decide +kernel
  have height : block.header.number.toNat = 1 := by
    rw [header]
    rfl
  obtain ⟨unique, _, told⟩ := run_ancestorHash ofGenesis_eq [idle, payment] kept
  obtain ⟨pushed, stack, top, stepped, inside, _⟩ :=
    told rfl valid 1 default (.ofFork .berlin) asking rfl rfl rfl (by decide)
  have asked : ((1 : Word).toNat) = 1 := rfl
  obtain ⟨ancestor, holds, rfl⟩ := inside (by rw [height, asked]; decide)
  have itself := (unique 1 height.ge).unique holds ⟨.refl block, height⟩
  rw [itself, hash] at top
  exact ⟨ofGenesis_eq, block, kept, valid, _, stepped, top⟩

end Siblings

end Engine

end ExecutionLayer
