import ExecutionLayer.Header.Basic

/-!
# The base fee

Each block's base fee follows from its parent: it rises when the parent used more
than half of its gas limit and falls when it used less, by an eighth for a whole target.
-/

set_option autoImplicit false

namespace ExecutionLayer.Header

def initialBaseFee : Word := 1000000000

/-- The gas limit is this many times the gas that a block is meant to use. -/
def elasticity : UInt64 := 2

/-- The base fee moves by one part in this many when the gas used is a whole target away. -/
def baseFeeChangeDenominator : Nat := 8

def gasTarget (header : Header) : UInt64 :=
  header.gasLimit / elasticity

/-- By how much a base fee moves when the gas used is `distance` away from the target. -/
def baseFeeDelta (baseFee : Word) (distance target : UInt64) : Word :=
  .ofNatClamped (baseFee.toNat * distance.toNat / (target.toNat * baseFeeChangeDenominator))

/-- The base fee that a child of `parent` must carry. A rise is at least one. -/
def nextBaseFee (parent : Header) : Word :=
  match parent.baseFee with
  | none => initialBaseFee
  | some baseFee =>
      let target := parent.gasTarget
      if target = 0 ∨ parent.gasUsed = target then baseFee
      else if parent.gasUsed > target then
        let delta := baseFeeDelta baseFee (parent.gasUsed - target) target
        baseFee.saturatingAdd (if delta = 0 then 1 else delta)
      else
        baseFee.saturatingSub (baseFeeDelta baseFee (target - parent.gasUsed) target)

end ExecutionLayer.Header
