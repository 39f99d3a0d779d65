import Mathlib.Algebra.Group.Nat.Defs
import ExecutionLayer.Header.BaseFee

/-!
# The base fee over numbers

The base fee of a child is that of exact arithmetic: one division by eight targets is a division by
the target and one by eight, and no clamp on the way shows in the result except the last one. So
the fee is monotone in the gas used, falls by at most one eighth, and rises by at most one eighth
as long as the gas used is at most twice the target.
-/

set_option autoImplicit false

namespace ExecutionLayer

/-! ## Clamped words -/

namespace Word

theorem toNat_ofNatClamped (value : Nat) :
    (ofNatClamped value).toNat = min value (size - 1) := by
  have fits : min value (size - 1) < 2 ^ 256 :=
    Nat.lt_of_le_of_lt (Nat.min_le_right ..) (by decide)
  rw [ofNatClamped, BitVec.toNat_ofNat, Nat.mod_eq_of_lt fits]

theorem toNat_saturatingAdd (a b : Word) :
    (a.saturatingAdd b).toNat = min (a.toNat + b.toNat) (size - 1) :=
  toNat_ofNatClamped _

theorem toNat_saturatingSub (a b : Word) : (a.saturatingSub b).toNat = a.toNat - b.toNat := by
  have fits : a.toNat - b.toNat < 2 ^ 256 := Nat.lt_of_le_of_lt (Nat.sub_le ..) a.isLt
  rw [saturatingSub, BitVec.toNat_ofNat, Nat.mod_eq_of_lt fits]

end Word

namespace Header

/-! ## Exact changes -/

/-- By how much a fee moves over numbers of any size. -/
def exactDelta (fee distance target : Nat) : Nat :=
  fee * distance / target / 8

/-- The next fee over numbers of any size. -/
def exactBaseFee (fee target used : Nat) : Nat :=
  if used = target then fee
  else if target < used then fee + max (exactDelta fee (used - target) target) 1
  else fee - exactDelta fee (target - used) target

theorem exactDelta_mono (fee target : Nat) {near far : Nat} (le : near ≤ far) :
    exactDelta fee near target ≤ exactDelta fee far target :=
  Nat.div_le_div_right (Nat.div_le_div_right (Nat.mul_le_mul_left fee le))

/-- Within one target of it the fee moves by at most one eighth. -/
theorem exactDelta_le (fee : Nat) {distance target : Nat} (near : distance ≤ target) :
    exactDelta fee distance target ≤ fee / 8 := by
  have share : fee * distance / target ≤ fee := by
    apply Nat.div_le_of_le_mul
    rw [Nat.mul_comm target]
    exact Nat.mul_le_mul_left fee near
  exact Nat.div_le_div_right share

theorem exactBaseFee_of_le {target used : Nat} (fee : Nat) (few : used ≤ target) :
    exactBaseFee fee target used = fee - exactDelta fee (target - used) target := by
  unfold exactBaseFee
  by_cases same : used = target
  · rw [if_pos same, same, Nat.sub_self, exactDelta, Nat.mul_zero, Nat.zero_div, Nat.zero_div]
    rfl
  · rw [if_neg same, if_neg (Nat.not_lt.mpr few)]

theorem exactBaseFee_of_lt {target used : Nat} (fee : Nat) (many : target < used) :
    exactBaseFee fee target used = fee + max (exactDelta fee (used - target) target) 1 := by
  rw [exactBaseFee, if_neg (Nat.ne_of_gt many), if_pos many]

theorem exactBaseFee_mono (fee target : Nat) {fewer more : Nat} (le : fewer ≤ more) :
    exactBaseFee fee target fewer ≤ exactBaseFee fee target more := by
  rcases Nat.lt_or_ge target more with above | below
  · rw [exactBaseFee_of_lt fee above]
    rcases Nat.lt_or_ge target fewer with many | few
    · have delta := exactDelta_mono fee target (Nat.sub_le_sub_right le target)
      rw [exactBaseFee_of_lt fee many]
      omega
    · rw [exactBaseFee_of_le fee few]
      omega
  · have delta := exactDelta_mono fee target (Nat.sub_le_sub_left le target)
    rw [exactBaseFee_of_le fee below, exactBaseFee_of_le fee (Nat.le_trans le below)]
    omega

/-- A fee never falls by more than one eighth. -/
theorem le_exactBaseFee (fee target used : Nat) :
    fee - fee / 8 ≤ exactBaseFee fee target used := by
  rcases Nat.lt_or_ge target used with many | few
  · rw [exactBaseFee_of_lt fee many]
    omega
  · have fall := exactDelta_le fee (Nat.sub_le target used)
    rw [exactBaseFee_of_le fee few]
    omega

/-- What bounds the change from the target to the gas used bounds the rise. -/
theorem exactBaseFee_le {fee target used bound : Nat}
    (rise : exactDelta fee (used - target) target ≤ bound) :
    exactBaseFee fee target used ≤ fee + max bound 1 := by
  rcases Nat.lt_or_ge target used with many | few
  · rw [exactBaseFee_of_lt fee many]
    omega
  · rw [exactBaseFee_of_le fee few]
    omega

/-! ## The fee of a header -/

section

variable {parent : Header} {fee : Word}

theorem toNat_gasTarget (parent : Header) : parent.gasTarget.toNat = parent.gasLimit.toNat / 2 := by
  rw [gasTarget, UInt64.toNat_div]
  rfl

theorem toNat_baseFeeDelta (fee : Word) (distance target : UInt64) :
    (baseFeeDelta fee distance target).toNat =
      min (exactDelta fee.toNat distance.toNat target.toNat) (Word.size - 1) := by
  rw [baseFeeDelta, Word.toNat_ofNatClamped, exactDelta, Nat.div_div_eq_div_mul]
  rfl

/-- Clamping the change is no loss, as the sum is clamped to the same word. -/
theorem toNat_raised (fee delta : Word) {exact : Nat}
    (clamped : delta.toNat = min exact (Word.size - 1)) :
    (fee.saturatingAdd (if delta = 0 then 1 else delta)).toNat =
      min (fee.toNat + max exact 1) (Word.size - 1) := by
  have least : (if delta = 0 then 1 else delta : Word).toNat = max delta.toNat 1 := by
    split
    · rename_i zero
      rw [zero]
      rfl
    · rename_i nonzero
      have positive : delta.toNat ≠ 0 := fun zero => nonzero (BitVec.eq_of_toNat_eq zero)
      omega
  rw [Word.toNat_saturatingAdd, least, clamped]
  have greatest : 1 ≤ Word.size - 1 := by decide
  omega

theorem toNat_nextBaseFee (carried : parent.baseFee = some fee)
    (limit : 2 ≤ parent.gasLimit.toNat) :
    parent.nextBaseFee.toNat =
      min (exactBaseFee fee.toNat (parent.gasLimit.toNat / 2) parent.gasUsed.toNat)
        (Word.size - 1) := by
  have target := parent.toNat_gasTarget
  have whole : parent.gasTarget ≠ 0 := by
    intro zero
    rw [zero, UInt64.toNat_zero] at target
    omega
  have small : fee.toNat ≤ Word.size - 1 := Nat.le_sub_one_of_lt fee.isLt
  rw [nextBaseFee, carried, ← target]
  dsimp only
  by_cases same : parent.gasUsed = parent.gasTarget
  · rw [if_pos (.inr same), same, exactBaseFee, if_pos rfl, Nat.min_eq_left small]
  rw [if_neg (not_or.mpr ⟨whole, same⟩)]
  by_cases many : parent.gasTarget < parent.gasUsed
  · have above := UInt64.lt_iff_toNat_lt.mp many
    have distance := UInt64.toNat_sub_of_le _ _ (UInt64.le_of_lt many)
    rw [if_pos many, exactBaseFee_of_lt _ above, ← distance]
    exact toNat_raised fee _ (toNat_baseFeeDelta ..)
  · have few := UInt64.not_lt.mp many
    have below := UInt64.le_iff_toNat_le.mp few
    have distance := UInt64.toNat_sub_of_le _ _ few
    rw [if_neg many, exactBaseFee_of_le _ below, ← distance, Word.toNat_saturatingSub,
      toNat_baseFeeDelta]
    omega

theorem nextBaseFee_mono (carried : parent.baseFee = some fee) (limit : 2 ≤ parent.gasLimit.toNat)
    {fewer more : UInt64} (le : fewer ≤ more) :
    { parent with gasUsed := fewer }.nextBaseFee ≤ { parent with gasUsed := more }.nextBaseFee := by
  have before := @toNat_nextBaseFee { parent with gasUsed := fewer } fee carried limit
  have after := @toNat_nextBaseFee { parent with gasUsed := more } fee carried limit
  have exactly := exactBaseFee_mono fee.toNat (parent.gasLimit.toNat / 2)
    (UInt64.le_iff_toNat_le.mp le)
  dsimp only at before after
  rw [BitVec.le_def, before, after]
  omega

end

/-- A header with a base fee and what counts for the next one. -/
def ofUsage (fee : Word) (gasLimit gasUsed : UInt64) : Header :=
  { ommersHash := emptyOmmersHash, gasLimit, gasUsed, baseFee := some fee }

/-- The next base fee is that of the standard, which divides by the target and then by eight over
numbers of any size, clamped to the greatest word. So it is monotone in the gas used. -/
theorem nextBaseFee_exact {parent : Header} {fee : Word} (carried : parent.baseFee = some fee)
    (limit : 2 ≤ parent.gasLimit.toNat) :
    let target := parent.gasLimit.toNat / 2
    let used := parent.gasUsed.toNat
    (parent.nextBaseFee.toNat =
      if used = target then fee.toNat
      else if target < used then
        min (2 ^ 256 - 1) (fee.toNat + max (fee.toNat * (used - target) / target / 8) 1)
      else fee.toNat - fee.toNat * (target - used) / target / 8) ∧
    ∀ fewer more : UInt64, fewer ≤ more →
      { parent with gasUsed := fewer }.nextBaseFee ≤
        { parent with gasUsed := more }.nextBaseFee := by
  refine ⟨?_, fun fewer more le => nextBaseFee_mono carried limit le⟩
  have small : fee.toNat ≤ Word.size - 1 := Nat.le_sub_one_of_lt fee.isLt
  have greatest : (2 ^ 256 - 1 : Nat) = Word.size - 1 := rfl
  rw [toNat_nextBaseFee carried limit, greatest]
  simp only [exactBaseFee, exactDelta]
  split
  · exact Nat.min_eq_left small
  · split
    · exact Nat.min_comm ..
    · exact Nat.min_eq_left (Nat.le_trans (Nat.sub_le ..) small)

/-- A full block with an odd gas limit, where the fee is the greatest word already. -/
theorem nextBaseFee_greatest :
    let parent := ofUsage (BitVec.allOnes 256) 5 5
    (parent.baseFee = some (BitVec.allOnes 256) ∧ 2 ≤ parent.gasLimit.toNat) ∧
      parent.nextBaseFee.toNat = 2 ^ 256 - 1 ∧
      (1 : UInt64) ≤ 2 ∧
        { parent with gasUsed := 1 }.nextBaseFee ≤ { parent with gasUsed := 2 }.nextBaseFee := by
  intro parent
  have carried : parent.baseFee = some (BitVec.allOnes 256) := rfl
  have limit : 2 ≤ parent.gasLimit.toNat := by decide
  obtain ⟨value, mono⟩ := nextBaseFee_exact carried limit
  refine ⟨⟨carried, limit⟩, ?_, by decide, mono 1 2 (by decide)⟩
  rw [value]
  decide

/-! ## How far a fee moves -/

/-- One unit of gas above twice the target matters less, the higher the target is. -/
theorem exactDelta_above (fee : Nat) {target : Nat} (high : 2500 ≤ target) :
    exactDelta fee (target + 1) target ≤ 2501 * fee / 20000 := by
  rw [exactDelta, Nat.div_div_eq_div_mul, Nat.le_div_iff_mul_le (by decide)]
  have positive : 0 < target := by omega
  apply Nat.le_of_mul_le_mul_right _ positive
  have divided : fee * (target + 1) / (target * 8) * (target * 8) ≤ fee * (target + 1) :=
    Nat.div_mul_le_self ..
  have ratio : 2500 * (target + 1) ≤ 2501 * target := by omega
  calc fee * (target + 1) / (target * 8) * 20000 * target
      = 2500 * (fee * (target + 1) / (target * 8) * (target * 8)) := by
        rw [show 20000 = 2500 * 8 from rfl]
        ac_rfl
    _ ≤ 2500 * (fee * (target + 1)) := Nat.mul_le_mul_left 2500 divided
    _ = fee * (2500 * (target + 1)) := by ac_rfl
    _ ≤ fee * (2501 * target) := Nat.mul_le_mul_left fee ratio
    _ = 2501 * fee * target := by ac_rfl

/-- The target of an odd gas limit is rounded down, so a full block may use one unit of gas more
than twice its target, and the fee then rises by more than one eighth. -/
theorem nextBaseFee_above_eighth :
    ¬∀ (parent : Header) (fee : Word), parent.baseFee = some fee →
      parent.gasUsed ≤ parent.gasLimit → 5000 ≤ parent.gasLimit.toNat →
        parent.nextBaseFee.toNat ≤ fee.toNat + max (fee.toNat / 8) 1 ∧
          fee.toNat - fee.toNat / 8 ≤ parent.nextBaseFee.toNat := by
  intro bounded
  have rise := (bounded (ofUsage 20000 5001 5001) 20000 rfl (by decide) (by decide)).1
  exact absurd rise (by decide)

/-- The base fee never falls by more than one eighth, and rises by no more than one eighth, or by
one, unless the block used more gas than twice its target, as only a full block with an odd gas
limit can. Then it still rises by no more than one eighth and one 20000th. -/
theorem nextBaseFee_bounds {parent : Header} {fee : Word} (carried : parent.baseFee = some fee)
    (within : parent.gasUsed ≤ parent.gasLimit) (limit : 5000 ≤ parent.gasLimit.toNat) :
    fee.toNat - fee.toNat / 8 ≤ parent.nextBaseFee.toNat ∧
      (parent.gasUsed.toNat ≤ 2 * (parent.gasLimit.toNat / 2) →
        parent.nextBaseFee.toNat ≤ fee.toNat + max (fee.toNat / 8) 1) ∧
      parent.nextBaseFee.toNat ≤ fee.toNat + max (2501 * fee.toNat / 20000) 1 := by
  have used := UInt64.le_iff_toNat_le.mp within
  have small : fee.toNat ≤ Word.size - 1 := Nat.le_sub_one_of_lt fee.isLt
  rw [toNat_nextBaseFee carried (by omega)]
  refine ⟨?_, ?_, ?_⟩
  · have fall := le_exactBaseFee fee.toNat (parent.gasLimit.toNat / 2) parent.gasUsed.toNat
    omega
  · intro near
    exact Nat.le_trans (Nat.min_le_left ..) (exactBaseFee_le (exactDelta_le _ (by omega)))
  · have high : 2500 ≤ parent.gasLimit.toNat / 2 := by omega
    have far :
        parent.gasUsed.toNat - parent.gasLimit.toNat / 2 ≤ parent.gasLimit.toNat / 2 + 1 := by
      omega
    have rise := Nat.le_trans (exactDelta_mono fee.toNat _ far) (exactDelta_above fee.toNat high)
    exact Nat.le_trans (Nat.min_le_left ..) (exactBaseFee_le rise)

/-- A full block with an odd gas limit, and one with a unit of gas less. -/
theorem nextBaseFee_bounds_odd :
    ((ofUsage 20000 5001 5001).baseFee = some 20000 ∧
      (ofUsage 20000 5001 5001).gasUsed ≤ (ofUsage 20000 5001 5001).gasLimit ∧
      5000 ≤ (ofUsage 20000 5001 5001).gasLimit.toNat ∧
      (ofUsage 20000 5001 5001).nextBaseFee.toNat ≤ 22501) ∧
    (5000 ≤ 2 * (5001 / 2) ∧ (ofUsage 20000 5001 5000).nextBaseFee.toNat ≤ 22500) := by
  have carried (used : UInt64) : (ofUsage 20000 5001 used).baseFee = some 20000 := rfl
  obtain ⟨-, -, full⟩ := nextBaseFee_bounds (carried 5001) (by decide) (by decide)
  obtain ⟨-, near, -⟩ := nextBaseFee_bounds (carried 5000) (by decide) (by decide)
  exact ⟨⟨rfl, by decide, by decide, full⟩, by decide, near (by decide)⟩

end Header

end ExecutionLayer
