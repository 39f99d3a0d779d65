import ExecutionLayer.Gas
import ExecutionLayer.Json.Record
import ExecutionLayer.Json.Scalar

/-!
# Chain configuration

The identity of a chain and the blocks at which its milestones become active, with
the rules that follow for each block.
-/

set_option autoImplicit false

namespace ExecutionLayer

structure ChainConfig where
  chainId : UInt64 := 1
  /-- Earlier blocks are governed by this milestone's rules too, as the oldest there are. -/
  berlinBlock : UInt64 := 0
  londonBlock : Option UInt64 := some 0
  shanghaiBlock : Option UInt64 := some 0
deriving DecidableEq, Repr, Inhabited

structure BlockRules where
  fork : Fork
  chainId : UInt64
deriving DecidableEq, Repr, Inhabited

def BlockRules.schedule (rules : BlockRules) : GasSchedule :=
  .ofFork rules.fork

namespace ChainConfig

def isActive (activation : Option UInt64) (number : UInt64) : Bool :=
  activation.any (· ≤ number)

def forkAt (chain : ChainConfig) (number : UInt64) : Fork :=
  if isActive chain.shanghaiBlock number then .shanghai
  else if isActive chain.londonBlock number then .london
  else .berlin

def rulesAt (chain : ChainConfig) (number : UInt64) : BlockRules :=
  ⟨chain.forkAt number, chain.chainId⟩

def ofJson? (document : Json) : Option ChainConfig := do
  match ← Json.fields? [["chain_id"], ["berlin_block"], ["london_block"], ["shanghai_block"]]
      document with
  | [chainId, berlinBlock, londonBlock, shanghaiBlock] =>
      let default : ChainConfig := {}
      return {
        chainId := ← Json.optional default.chainId Json.uint64? chainId
        berlinBlock := ← Json.optional default.berlinBlock Json.uint64? berlinBlock
        londonBlock := ← Json.optional default.londonBlock (Json.nullable Json.uint64?) londonBlock
        shanghaiBlock :=
          ← Json.optional default.shanghaiBlock (Json.nullable Json.uint64?) shanghaiBlock }
  | _ => none

private def activationJson (activation : Option UInt64) : Json :=
  activation.elim .null Json.ofUInt64

def toJson (chain : ChainConfig) : Json :=
  .record [("chain_id", .ofUInt64 chain.chainId), ("berlin_block", .ofUInt64 chain.berlinBlock),
    ("london_block", activationJson chain.londonBlock),
    ("shanghai_block", activationJson chain.shanghaiBlock)]

end ChainConfig

end ExecutionLayer
