import ExecutionLayer.Header.Rules
import ExecutionLayer.Proofs.Results
import Mathlib.Algebra.Group.Nat.Defs
import Mathlib.Algebra.Order.Group.Unbundled.Int

/-!
# Header rules over numbers

Validation accepts a header exactly if it obeys every rule. The number that the rules ask for and
the gas limit that they measure against are clamped to 64 bits, which never refuses a header that
obeys the rules of numbers of any size, but accepts some that break them.
-/

set_option autoImplicit false

namespace ExecutionLayer.Header

variable {hasBaseFee : Bool} {header parent : Header}

/-! ## The rules that are checked -/

/-- Every rule that validation checks of a header over its parent. -/
structure Obeys (hasBaseFee : Bool) (header parent : Header) : Prop where
  number : header.number = successor parent.number
  timestamp : parent.timestamp < header.timestamp
  gasLimit : gasLimitAllowed (referenceGasLimit hasBaseFee parent) header.gasLimit = true
  gasUsed : header.gasUsed ≤ header.gasLimit
  extraData : header.extraData.length ≤ maxExtraData
  difficulty : header.difficulty = blockDifficulty
  ommersHash : header.ommersHash = emptyOmmersHash
  baseFee : header.baseFee = if hasBaseFee then some parent.nextBaseFee else none

theorem obeys_of_validate (valid : validate hasBaseFee header parent = .ok ()) :
    header.Obeys hasBaseFee parent := by
  unfold validate at valid
  obtain ⟨number, valid⟩ := guard_eq_ok valid
  obtain ⟨timestamp, valid⟩ := guard_eq_ok valid
  obtain ⟨gasLimit, valid⟩ := guard_eq_ok valid
  obtain ⟨gasUsed, valid⟩ := guard_eq_ok valid
  obtain ⟨extraData, valid⟩ := guard_eq_ok valid
  obtain ⟨difficulty, valid⟩ := guard_eq_ok valid
  obtain ⟨ommersHash, valid⟩ := guard_eq_ok valid
  have baseFee : header.baseFee = if hasBaseFee then some parent.nextBaseFee else none := by
    refine Decidable.byContradiction fun differs => ?_
    rw [if_pos differs] at valid
    cases valid
  exact {
    number := Decidable.not_not.mp number
    timestamp := UInt64.not_le.mp timestamp
    gasLimit := by simpa using gasLimit
    gasUsed := UInt64.not_lt.mp gasUsed
    extraData := Nat.not_lt.mp extraData
    difficulty := Decidable.not_not.mp difficulty
    ommersHash := Decidable.not_not.mp ommersHash
    baseFee }

theorem validate_of_obeys (obeys : header.Obeys hasBaseFee parent) :
    validate hasBaseFee header parent = .ok () := by
  unfold validate
  simp only [obeys.number, UInt64.not_le.mpr obeys.timestamp, obeys.gasLimit,
    UInt64.not_lt.mpr obeys.gasUsed, Nat.not_lt.mpr obeys.extraData, obeys.difficulty,
    obeys.ommersHash, obeys.baseFee, ne_eq, not_true_eq_false, Bool.not_true, Bool.false_eq_true,
    ↓reduceIte]
  rfl

theorem validate_eq_ok_iff :
    validate hasBaseFee header parent = .ok () ↔ header.Obeys hasBaseFee parent :=
  ⟨obeys_of_validate, validate_of_obeys⟩

theorem validate_ok (valid : validate hasBaseFee header parent = .ok ()) :
    header.number = successor parent.number ∧ parent.timestamp < header.timestamp :=
  ⟨(obeys_of_validate valid).number, (obeys_of_validate valid).timestamp⟩

theorem validate_gasUsed (valid : validate hasBaseFee header parent = .ok ()) :
    header.gasUsed ≤ header.gasLimit :=
  (obeys_of_validate valid).gasUsed

/-! ## Clamped numbers -/

theorem toNat_successor (number : UInt64) :
    (successor number).toNat = min (number.toNat + 1) (2 ^ 64 - 1) := by
  have bound := number.toNat_lt
  unfold successor
  split
  · rename_i fits
    rw [UInt64.toNat_add, UInt64.toNat_one, Nat.mod_eq_of_lt fits]
    simp only [UInt64.size] at fits
    omega
  · rename_i last
    simp only [UInt64.size] at last
    omega

/-- The gas limit that a child is measured against, over numbers of any size. -/
def exactReference (hasBaseFee : Bool) (parent : Header) : Nat :=
  if hasBaseFee ∧ parent.baseFee = none then 2 * parent.gasLimit.toNat
  else parent.gasLimit.toNat

theorem toNat_referenceGasLimit (hasBaseFee : Bool) (parent : Header) :
    (referenceGasLimit hasBaseFee parent).toNat =
      min (exactReference hasBaseFee parent) (2 ^ 64 - 1) := by
  have bound := parent.gasLimit.toNat_lt
  unfold referenceGasLimit exactReference
  split
  · have two : elasticity.toNat = 2 := rfl
    rw [UInt64.toNat_ofNat', two, UInt64.size]
    omega
  · omega

theorem distance_lt_iff (a b bound : UInt64) :
    distance a b < bound ↔ |(a.toNat : ℤ) - b.toNat| < bound.toNat := by
  rw [UInt64.lt_iff_toNat_lt, abs_lt]
  unfold distance
  split
  · rename_i le
    have ordered := UInt64.le_iff_toNat_le.mp le
    rw [UInt64.toNat_sub_of_le _ _ le]
    omega
  · rename_i above
    have le := UInt64.le_of_lt (UInt64.not_le.mp above)
    have ordered := UInt64.le_iff_toNat_le.mp le
    rw [UInt64.toNat_sub_of_le _ _ le]
    omega

/-! ## The rules over numbers of any size -/

/-- The rules of a header over numbers of any size, given the number that it must have and the gas
limit that its own must be near to. -/
structure Conforms (hasBaseFee : Bool) (number reference : Nat) (header parent : Header) :
    Prop where
  number : header.number.toNat = number
  timestamp : parent.timestamp.toNat < header.timestamp.toNat
  near : |(header.gasLimit.toNat : ℤ) - reference| < (reference / 1024 : ℕ)
  floor : 5000 ≤ header.gasLimit.toNat
  gasUsed : header.gasUsed.toNat ≤ header.gasLimit.toNat
  extraData : header.extraData.length ≤ 32
  difficulty : header.difficulty.toNat = 1
  ommersHash : header.ommersHash = keccak256 (Rlp.Item.list []).encode
  baseFee : header.baseFee = if hasBaseFee then some parent.nextBaseFee else none

theorem emptyOmmersHash_eq : emptyOmmersHash = keccak256 (Rlp.Item.list []).encode := by
  decide +kernel

theorem gasLimitAllowed_iff (reference gasLimit : UInt64) :
    gasLimitAllowed reference gasLimit = true ↔
      |(gasLimit.toNat : ℤ) - reference.toNat| < (reference.toNat / 1024 : ℕ) ∧
        5000 ≤ gasLimit.toNat := by
  have divided : (reference / gasLimitDivisor).toNat = reference.toNat / 1024 := by
    rw [UInt64.toNat_div]
    rfl
  rw [gasLimitAllowed, Bool.and_eq_true, decide_eq_true_iff, decide_eq_true_iff, distance_lt_iff,
    divided, ge_iff_le, UInt64.le_iff_toNat_le]
  rfl

theorem obeys_iff_conforms : header.Obeys hasBaseFee parent ↔
    header.Conforms hasBaseFee (min (parent.number.toNat + 1) (2 ^ 64 - 1))
      (min (exactReference hasBaseFee parent) (2 ^ 64 - 1)) parent := by
  rw [← toNat_successor, ← toNat_referenceGasLimit]
  constructor
  · intro obeys
    obtain ⟨near, floor⟩ := (gasLimitAllowed_iff ..).mp obeys.gasLimit
    exact {
      number := congrArg UInt64.toNat obeys.number
      timestamp := UInt64.lt_iff_toNat_lt.mp obeys.timestamp
      near, floor
      gasUsed := UInt64.le_iff_toNat_le.mp obeys.gasUsed
      extraData := obeys.extraData
      difficulty := congrArg BitVec.toNat obeys.difficulty
      ommersHash := obeys.ommersHash.trans emptyOmmersHash_eq
      baseFee := obeys.baseFee }
  · intro conforms
    exact {
      number := UInt64.toNat_inj.mp conforms.number
      timestamp := UInt64.lt_iff_toNat_lt.mpr conforms.timestamp
      gasLimit := (gasLimitAllowed_iff ..).mpr ⟨conforms.near, conforms.floor⟩
      gasUsed := UInt64.le_iff_toNat_le.mpr conforms.gasUsed
      extraData := conforms.extraData
      difficulty := BitVec.eq_of_toNat_eq conforms.difficulty
      ommersHash := conforms.ommersHash.trans emptyOmmersHash_eq.symm
      baseFee := conforms.baseFee }

theorem near_clamped {gasLimit reference : Nat} (fits : gasLimit < 2 ^ 64)
    (near : |(gasLimit : ℤ) - reference| < (reference / 1024 : ℕ)) :
    |(gasLimit : ℤ) - (min reference (2 ^ 64 - 1) : ℕ)| <
      (min reference (2 ^ 64 - 1) / 1024 : ℕ) := by
  rcases Nat.lt_or_ge reference (2 ^ 64) with small | large
  · rwa [Nat.min_eq_left (by omega)]
  · -- The clamped reference is no farther away, and the lower end of its range is no higher.
    rw [Nat.min_eq_right (by omega)]
    rw [abs_lt] at near ⊢
    omega

theorem Conforms.clamped {number reference : Nat}
    (conforms : header.Conforms hasBaseFee number reference parent) :
    header.Conforms hasBaseFee (min number (2 ^ 64 - 1)) (min reference (2 ^ 64 - 1)) parent := by
  have bound := header.number.toNat_lt
  have exact := conforms.number
  exact { conforms with
    number := by omega
    near := near_clamped header.gasLimit.toNat_lt conforms.near }

/-- Validation accepts a header exactly if it obeys the rules for the number after its parent's and
the gas limit of its parent, both clamped to 64 bits. So it accepts every header that obeys them
over numbers of any size, and no other one where the two are below the clamp. -/
theorem validate_over_numbers (hasBaseFee : Bool) (header parent : Header) :
    let number := parent.number.toNat + 1
    let reference := exactReference hasBaseFee parent
    (validate hasBaseFee header parent = .ok () ↔
      header.Conforms hasBaseFee (min number (2 ^ 64 - 1)) (min reference (2 ^ 64 - 1)) parent) ∧
    (header.Conforms hasBaseFee number reference parent →
      validate hasBaseFee header parent = .ok ()) ∧
    (number < 2 ^ 64 → reference < 2 ^ 64 → validate hasBaseFee header parent = .ok () →
      header.Conforms hasBaseFee number reference parent) := by
  intro number reference
  have accepted := validate_eq_ok_iff.trans (@obeys_iff_conforms hasBaseFee header parent)
  refine ⟨accepted, fun conforms => accepted.mpr conforms.clamped, fun follows fits valid => ?_⟩
  have conforms := accepted.mp valid
  rwa [Nat.min_eq_left (by omega), Nat.min_eq_left (by omega)] at conforms

/-- A header that is nothing but a number, a time and a gas limit. -/
def ofLimits (number timestamp gasLimit : UInt64) (baseFee : Option Word) : Header :=
  { ommersHash := emptyOmmersHash, number, timestamp, gasLimit, baseFee }

/-- A parent with the greatest number has a child of the same number; behind a parent of more than
half the greatest gas limit, the first child with a base fee may have a gas limit that is too far
from its double. Both are accepted. -/
theorem validate_saturated :
    (let parent := ofLimits (.ofNat (2 ^ 64 - 1)) 12 30000000 none
      let child := ofLimits (.ofNat (2 ^ 64 - 1)) 24 30000000 none
      validate false child parent = .ok () ∧
        ¬child.Conforms false (parent.number.toNat + 1) (exactReference false parent) parent) ∧
    (let parent := ofLimits 1 12 (.ofNat (2 ^ 63 + 1)) none
      let child := ofLimits 2 24 (.ofNat (2 ^ 64 - 2 ^ 54 + 1)) (some initialBaseFee)
      validate true child parent = .ok () ∧
        ¬child.Conforms true (parent.number.toNat + 1) (exactReference true parent) parent) ∧
    (let parent := ofLimits 1 12 30000000 none
      let child := ofLimits 2 24 60000000 (some initialBaseFee)
      parent.number.toNat + 1 < 2 ^ 64 ∧ exactReference true parent < 2 ^ 64 ∧
        validate true child parent = .ok () ∧
        child.Conforms true (parent.number.toNat + 1) (exactReference true parent) parent) := by
  refine ⟨⟨by decide +kernel, fun conforms => absurd conforms.number (by decide +kernel)⟩,
    ⟨by decide +kernel, fun conforms => absurd conforms.near (by decide +kernel)⟩, ?_⟩
  intro parent child
  have follows : parent.number.toNat + 1 < 2 ^ 64 := by decide
  have fits : exactReference true parent < 2 ^ 64 := by decide
  have valid : validate true child parent = .ok () := by decide +kernel
  exact ⟨follows, fits, valid,
    (validate_over_numbers true child parent).2.2 follows fits valid⟩

end ExecutionLayer.Header
