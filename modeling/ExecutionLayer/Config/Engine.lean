import ExecutionLayer.Config.Chain
import ExecutionLayer.Config.LogFilter
import ExecutionLayer.Json.Reader

/-!
# Engine configuration

The settings of an engine as a document, with the checks that a chain must pass
before blocks can be imported on it.
-/

set_option autoImplicit false

namespace ExecutionLayer

structure LoggingConfig where
  /-- The directives that select log lines. -/
  level : String := "info"
  /-- One JSON object a line in place of text. -/
  json : Bool := false
deriving DecidableEq, Repr, Inhabited

structure EngineConfig where
  chain : ChainConfig := {}
  logging : LoggingConfig := {}
deriving DecidableEq, Repr, Inhabited

inductive ConfigError where
  | parse
  | invalidChainId
  | activationOrder (reason : String)
  | invalidLogLevel (level : String)
deriving DecidableEq, Repr, Inhabited

def ConfigError.message : ConfigError → String
  | .parse => "parse error"
  | .invalidChainId => "chain id must be non-zero"
  | .activationOrder reason => "invalid milestone order: " ++ reason
  | .invalidLogLevel level => "invalid log level: " ++ level

namespace ChainConfig

def checkLondon (chain : ChainConfig) : Except ConfigError Unit :=
  match chain.londonBlock with
  | none => .ok ()
  | some london =>
      if london < chain.berlinBlock then
        .error (.activationOrder
          ("london_block " ++ toString london.toNat ++ " before berlin_block " ++
            toString chain.berlinBlock.toNat))
      else .ok ()

def checkShanghai (chain : ChainConfig) : Except ConfigError Unit :=
  match chain.shanghaiBlock, chain.londonBlock with
  | none, _ => .ok ()
  | some _, none => .error (.activationOrder "shanghai_block set without london_block")
  | some shanghai, some london =>
      if shanghai < london then
        .error (.activationOrder
          ("shanghai_block " ++ toString shanghai.toNat ++ " before london_block " ++
            toString london.toNat))
      else .ok ()

def validate (chain : ChainConfig) : Except ConfigError Unit := do
  if chain.chainId = 0 then throw .invalidChainId
  chain.checkLondon
  chain.checkShanghai

end ChainConfig

namespace LoggingConfig

def validate (logging : LoggingConfig) : Except ConfigError Unit :=
  if LogFilter.isValid logging.level then .ok () else .error (.invalidLogLevel logging.level)

def ofJson? (document : Json) : Option LoggingConfig := do
  match ← Json.fields? [["level"], ["json"]] document with
  | [level, json] =>
      let default : LoggingConfig := {}
      return {
        level := ← Json.optional default.level Json.text? level
        json := ← Json.optional default.json Json.bool? json }
  | _ => none

def toJson (logging : LoggingConfig) : Json :=
  .record [("level", .text logging.level), ("json", .bool logging.json)]

end LoggingConfig

namespace EngineConfig

/-- Checks every setting; the first that cannot be used is reported. -/
def validate (config : EngineConfig) : Except ConfigError Unit := do
  config.chain.validate
  config.logging.validate

/-- The configuration in a document, before any check. -/
def ofJson? (document : Json) : Option EngineConfig := do
  match ← Json.fields? [["chain"], ["logging"]] document with
  | [chain, logging] =>
      return {
        chain := ← Json.optional {} ChainConfig.ofJson? chain
        logging := ← Json.optional {} LoggingConfig.ofJson? logging }
  | _ => none

def toJson (config : EngineConfig) : Json :=
  .record [("chain", config.chain.toJson), ("logging", config.logging.toJson)]

def parse (text : String) : Except ConfigError EngineConfig := do
  match (Json.parse? text).bind ofJson? with
  | none => throw .parse
  | some config =>
      config.validate
      return config

end EngineConfig

end ExecutionLayer
