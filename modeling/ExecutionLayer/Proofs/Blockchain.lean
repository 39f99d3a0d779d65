import ExecutionLayer.Blockchain
import ExecutionLayer.Header.Rules

/-!
# Trees of blocks

What insertion does to a chain, the chains whose blocks all descend from the first one,
and why the ancestors of a block do not depend on what else the chain holds.
-/

set_option autoImplicit false

namespace ExecutionLayer.Blockchain

/-! ## Insertion -/

/-- A block as the chain keeps it, with its receipts. -/
def stored (block : Block) (receipts : List Receipt) : StoredBlock :=
  ⟨block.header, block.hash, block.transactions.map (·.hash), receipts⟩

theorem contains_iff (chain : Blockchain) (hash : Hash) :
    chain.contains hash = true ↔ ∃ block, chain.block? hash = some block := by
  rw [contains, block?, Std.ExtTreeMap.contains_iff_mem, ← Option.isSome_iff_exists,
    Std.ExtTreeMap.isSome_getElem?_iff_mem]

theorem block?_eq_none_iff (chain : Blockchain) (hash : Hash) :
    chain.block? hash = none ↔ chain.contains hash = false := by
  rw [← Bool.not_eq_true, contains_iff, Option.eq_none_iff_forall_ne_some]
  simp

theorem block?_ofGenesis (header : Header) (hash : Hash) :
    (ofGenesis header).block? hash =
      if header.hash = hash then some ⟨header, header.hash, [], []⟩ else none := by
  simp [block?, ofGenesis, Std.ExtTreeMap.getElem?_insert]

theorem blocks_insert (chain : Blockchain) (block : Block) (receipts : List Receipt) :
    (chain.insert block receipts).blocks = chain.blocks.insert block.hash (stored block receipts) := by
  simp only [insert, stored]
  split <;> rfl

theorem block?_insert (chain : Blockchain) (block : Block) (receipts : List Receipt)
    (hash : Hash) :
    (chain.insert block receipts).block? hash =
      if block.hash = hash then some (stored block receipts) else chain.block? hash := by
  rw [block?, blocks_insert]
  simp [Std.ExtTreeMap.getElem?_insert, block?]

theorem size_insert (chain : Blockchain) (block : Block) (receipts : List Receipt)
    (fresh : chain.contains block.hash = false) :
    (chain.insert block receipts).size = chain.size + 1 := by
  have absent : block.hash ∉ chain.blocks := by
    rw [← Std.ExtTreeMap.contains_iff_mem, Bool.not_eq_true]
    exact fresh
  rw [size, blocks_insert, Std.ExtTreeMap.size_insert]
  exact if_neg absent

theorem block?_headHash (chain : Blockchain) : chain.block? chain.headHash = some chain.head :=
  Std.ExtTreeMap.getElem?_eq_some_getElem chain.head_mem

@[simp] theorem head_ofGenesis (header : Header) :
    (ofGenesis header).head = ⟨header, header.hash, [], []⟩ := by
  apply Option.some.inj
  rw [← block?_headHash, block?_ofGenesis]
  exact if_pos rfl

theorem ne_headHash {chain : Blockchain} {hash : Hash} (fresh : chain.contains hash = false) :
    hash ≠ chain.headHash := by
  rintro rfl
  have known := (contains_iff chain chain.headHash).mpr ⟨_, chain.block?_headHash⟩
  rw [fresh] at known
  cases known

theorem headHash_insert (chain : Blockchain) (block : Block) (receipts : List Receipt)
    (fresh : chain.contains block.hash = false) :
    (chain.insert block receipts).headHash =
      if chain.head.header.number < block.header.number then block.hash else chain.headHash := by
  have member : chain.headHash ∈ chain.blocks.insert block.hash (stored block receipts) :=
    Std.ExtTreeMap.mem_insert.2 (.inr chain.head_mem)
  have kept :
      (chain.blocks.insert block.hash (stored block receipts))[chain.headHash] = chain.head := by
    rw [Std.ExtTreeMap.getElem_insert, dif_neg]
    · rfl
    · rw [Std.compare_eq_iff_eq]
      exact ne_headHash fresh
  simp only [stored] at kept
  simp only [insert, gt_iff_lt]
  split
  · rename_i higher
    rw [kept] at higher
    rw [if_pos higher]
  · rename_i notHigher
    rw [kept] at notHigher
    rw [if_neg notHigher]

theorem head_insert (chain : Blockchain) (block : Block) (receipts : List Receipt)
    (fresh : chain.contains block.hash = false) :
    (chain.insert block receipts).head =
      if chain.head.header.number < block.header.number then stored block receipts
      else chain.head := by
  apply Option.some.inj
  rw [← block?_headHash, headHash_insert chain block receipts fresh, block?_insert]
  by_cases higher : chain.head.header.number < block.header.number
  · simp only [if_pos higher, ↓reduceIte]
  · simp only [if_neg higher, if_neg (ne_headHash fresh), block?_headHash]

/-! ## Chains that descend from their first block -/

/-- Every block lies above another one, down to number zero. The clock keeps numbers
below their bound, and no block is higher than there are blocks. -/
structure Grounded (chain : Blockchain) : Prop where
  hash_eq : ∀ {hash block}, chain.block? hash = some block → block.hash = hash
  header_hash : ∀ {hash block}, chain.block? hash = some block → block.header.hash = hash
  parent : ∀ {hash block}, chain.block? hash = some block → block.header.number = 0 ∨
    ∃ parent, chain.block? block.header.parentHash = some parent ∧
      block.header.number.toNat = parent.header.number.toNat + 1
  number_le_timestamp : ∀ {hash block}, chain.block? hash = some block →
    block.header.number ≤ block.header.timestamp
  number_lt_size : ∀ {hash block}, chain.block? hash = some block →
    block.header.number.toNat < chain.size

/-- A number that is not after a clock has a successor while the clock moves on. -/
theorem toNat_successor {number clock later : UInt64} (bounded : number ≤ clock)
    (moved : clock < later) : (Header.successor number).toNat = number.toNat + 1 := by
  have fits : number.toNat + 1 < UInt64.size := by
    have bound := UInt64.toNat_lt_size later
    rw [UInt64.le_iff_toNat_le] at bounded
    rw [UInt64.lt_iff_toNat_lt] at moved
    omega
  rw [Header.successor, if_pos fits, UInt64.toNat_add, UInt64.toNat_one]
  exact Nat.mod_eq_of_lt fits

namespace Grounded

theorem ofGenesis (header : Header) (first : header.number = 0) :
    Grounded (ofGenesis header) := by
  have only {hash : Hash} {block : StoredBlock}
      (found : (Blockchain.ofGenesis header).block? hash = some block) :
      header.hash = hash ∧ block = ⟨header, header.hash, [], []⟩ := by
    rw [block?_ofGenesis] at found
    split at found
    · rename_i same
      exact ⟨same, (Option.some.inj found).symm⟩
    · cases found
  constructor
  · intro hash block found
    obtain ⟨rfl, rfl⟩ := only found
    rfl
  · intro hash block found
    obtain ⟨rfl, rfl⟩ := only found
    rfl
  · intro hash block found
    obtain ⟨rfl, rfl⟩ := only found
    exact .inl first
  · intro hash block found
    obtain ⟨rfl, rfl⟩ := only found
    rw [first, UInt64.le_iff_toNat_le]
    exact Nat.zero_le _
  · intro hash block found
    obtain ⟨rfl, rfl⟩ := only found
    rw [first]
    exact Nat.zero_lt_one

theorem insert {chain : Blockchain} (grounded : Grounded chain) (block : Block)
    (receipts : List Receipt) (fresh : chain.contains block.hash = false) {parent : Header}
    (known : chain.header? block.header.parentHash = some parent)
    (number : block.header.number = Header.successor parent.number)
    (timestamp : parent.timestamp < block.header.timestamp) :
    Grounded (chain.insert block receipts) := by
  obtain ⟨above, found, rfl⟩ := Option.map_eq_some_iff.mp known
  have height : block.header.number.toNat = above.header.number.toNat + 1 := by
    rw [number]
    exact toNat_successor (grounded.number_le_timestamp found) timestamp
  have split {hash : Hash} {other : StoredBlock}
      (found : (chain.insert block receipts).block? hash = some other) :
      block.hash = hash ∧ other = stored block receipts ∨ chain.block? hash = some other := by
    rw [block?_insert] at found
    split at found
    · rename_i same
      exact .inl ⟨same, (Option.some.inj found).symm⟩
    · exact .inr found
  have remains {hash : Hash} {other : StoredBlock} (found : chain.block? hash = some other) :
      (chain.insert block receipts).block? hash = some other := by
    rw [block?_insert, if_neg, found]
    rintro rfl
    rw [(block?_eq_none_iff chain _).mpr fresh] at found
    cases found
  constructor
  · intro hash other added
    obtain ⟨rfl, rfl⟩ | old := split added
    · rfl
    · exact grounded.hash_eq old
  · intro hash other added
    obtain ⟨rfl, rfl⟩ | old := split added
    · rfl
    · exact grounded.header_hash old
  · intro hash other added
    obtain ⟨rfl, rfl⟩ | old := split added
    · exact .inr ⟨above, remains found, height⟩
    · obtain zero | ⟨parent, foundParent, next⟩ := grounded.parent old
      · exact .inl zero
      · exact .inr ⟨parent, remains foundParent, next⟩
  · intro hash other added
    obtain ⟨rfl, rfl⟩ | old := split added
    · have bounded := grounded.number_le_timestamp found
      rw [UInt64.le_iff_toNat_le] at bounded ⊢
      rw [UInt64.lt_iff_toNat_lt] at timestamp
      simp only [stored]
      omega
    · exact grounded.number_le_timestamp old
  · intro hash other added
    rw [size_insert chain block receipts fresh]
    obtain ⟨rfl, rfl⟩ | old := split added
    · have bounded := grounded.number_lt_size found
      simp only [stored]
      omega
    · exact Nat.lt_succ_of_lt (grounded.number_lt_size old)

end Grounded

/-! ## Chains with the same blocks -/

/-- Every block of the smaller chain is in the larger one, with the same header. -/
def Within (smaller larger : Blockchain) : Prop :=
  ∀ hash block, smaller.block? hash = some block →
    ∃ other, larger.block? hash = some other ∧ other.header = block.header

namespace Within

variable {smaller larger : Blockchain}

theorem header?_eq (within : Within smaller larger) {hash : Hash}
    (known : smaller.contains hash = true) : larger.header? hash = smaller.header? hash := by
  obtain ⟨block, found⟩ := (contains_iff smaller hash).mp known
  obtain ⟨other, foundOther, same⟩ := within _ _ found
  rw [header?, header?, found, foundOther, Option.map_some, Option.map_some, same]

theorem contains_eq_false (within : Within smaller larger) {hash : Hash}
    (unknown : larger.contains hash = false) : smaller.contains hash = false := by
  rw [← Bool.not_eq_true, contains_iff]
  rintro ⟨block, found⟩
  obtain ⟨other, foundOther, _⟩ := within _ _ found
  rw [(block?_eq_none_iff larger hash).mpr unknown] at foundOther
  cases foundOther

/-- Both chains lead from a block to the same ancestor, given enough steps. -/
theorem descend_eq (within : Within smaller larger) (grounded : Grounded smaller)
    (groundedLarger : Grounded larger) (number : UInt64) {steps otherSteps : Nat} {hash : Hash}
    {block other : StoredBlock} (found : smaller.block? hash = some block)
    (foundOther : larger.block? hash = some other)
    (enough : block.header.number.toNat ≤ number.toNat + steps)
    (enoughOther : block.header.number.toNat ≤ number.toNat + otherSteps) :
    (larger.descend number otherSteps other).map (·.hash) =
      (smaller.descend number steps block).map (·.hash) := by
  have sameHeader : other.header = block.header := by
    obtain ⟨again, foundAgain, same⟩ := within _ _ found
    rw [foundOther] at foundAgain
    rw [Option.some.inj foundAgain, same]
  induction steps generalizing otherSteps hash block other with
  | zero =>
      have reached : block.header.number ≤ number := by
        rw [UInt64.le_iff_toNat_le]
        exact enough
      have reachedOther : other.header.number ≤ number := sameHeader ▸ reached
      unfold descend
      rw [if_pos reached, if_pos reachedOther, Option.map_some, Option.map_some,
        grounded.hash_eq found, groundedLarger.hash_eq foundOther]
  | succ steps ih =>
      by_cases reached : block.header.number ≤ number
      · have reachedOther : other.header.number ≤ number := sameHeader ▸ reached
        unfold descend
        rw [if_pos reached, if_pos reachedOther, Option.map_some, Option.map_some,
          grounded.hash_eq found, groundedLarger.hash_eq foundOther]
      · have above : number.toNat < block.header.number.toNat := by
          rw [UInt64.le_iff_toNat_le] at reached
          omega
        obtain zero | ⟨parent, foundParent, next⟩ := grounded.parent found
        · rw [zero] at above
          simp at above
        · obtain ⟨otherParent, foundOtherParent, sameParent⟩ := within _ _ foundParent
          cases otherSteps with
          | zero => omega
          | succ otherSteps =>
              unfold descend
              simp only [if_neg reached, sameHeader, foundParent, foundOtherParent]
              exact ih foundParent foundOtherParent (by omega) (by omega) sameParent

/-- A child sees the same ancestors in both chains. -/
theorem ancestorHash?_eq (within : Within smaller larger) (grounded : Grounded smaller)
    (groundedLarger : Grounded larger) {parent : Hash}
    (known : smaller.contains parent = true) :
    larger.ancestorHash? parent = smaller.ancestorHash? parent := by
  obtain ⟨block, found⟩ := (contains_iff smaller parent).mp known
  obtain ⟨other, foundOther, same⟩ := within _ _ found
  funext number
  have bound := grounded.number_lt_size found
  have boundOther := groundedLarger.number_lt_size foundOther
  rw [same] at boundOther
  have agree : (larger.descend number larger.size other).map (·.hash) =
      (smaller.descend number smaller.size block).map (·.hash) :=
    within.descend_eq grounded groundedLarger number found foundOther (by omega) (by omega)
  have mapped (chain : Blockchain) (start : StoredBlock) :
      (do
        let ancestor ← chain.descend number chain.size start
        return ancestor.hash : Option Hash) =
        (chain.descend number chain.size start).map (·.hash) := by
    cases chain.descend number chain.size start <;> rfl
  simp only [ancestorHash?, found, foundOther, Option.bind_eq_bind, Option.bind_some, same]
  split
  · rfl
  · exact (mapped larger other).trans (agree.trans (mapped smaller block).symm)

end Within

end ExecutionLayer.Blockchain
