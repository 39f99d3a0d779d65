import ExecutionLayer.Block.Import
import ExecutionLayer.Config.Engine
import ExecutionLayer.Genesis
import ExecutionLayer.Payload
import ExecutionLayer.Transaction.Signed

/-!
# The engine

The chain and the world of one node. It imports proposed payloads and answers each
with a verdict; only faults of its own world are errors.
-/

set_option autoImplicit false

namespace ExecutionLayer

inductive EngineError where
  | state (error : StateError)
  | config (error : ConfigError)
deriving DecidableEq, Repr, Inhabited

def EngineError.message : EngineError → String
  | .state error => "state error: " ++ error.message
  | .config error => "configuration error: " ++ error.message

/-- A node: the configuration of its chain, its world and its blocks. -/
structure Engine (Store : Type) where
  config : ChainConfig
  store : Store
  chain : Blockchain

namespace Engine

/-- A node whose chain starts at a header and whose store holds the world after it. -/
def new {Store : Type} (config : EngineConfig) (genesis : Header) (store : Store) :
    Except EngineError (Engine Store) := do
  config.validate.mapError .config
  return ⟨config.chain, store, .ofGenesis genesis⟩

def ofGenesis (config : EngineConfig) (genesis : Genesis) : Except EngineError (Engine World) :=
  new config (genesis.header config.chain) genesis.world

section Import

variable {Store : Type} [WorldStore Store]

/-- Imports a decoded block. It joins the chain only if the proposer claimed its hash. -/
def importBlock (engine : Engine Store) (hashMatches : Bool) (block : Block) :
    Except EngineError (PayloadStatus × Engine Store) :=
  match block.validate (engine.config.rulesAt block.header.number) engine.store engine.chain with
  | .ok result =>
      if hashMatches then
        match Block.commit engine.store engine.chain block result with
        | .ok (store, chain) => .ok (.valid, { engine with store, chain })
        | .error error => .error (.state error)
      else .ok (.invalid, engine)
  | .error (.unknownParent _) => .ok (.syncing, engine)
  | .error (.state error) => .error (.state error)
  | .error _ => .ok (.invalid, engine)

/-- Answers a payload with a verdict and imports its block if it is valid. -/
def newPayload (engine : Engine Store) (payload : Payload) :
    Except EngineError (PayloadStatus × Engine Store) :=
  if engine.chain.contains payload.blockHash then .ok (.known, engine)
  else
    match Transaction.decodeAll payload.transactions with
    | .error _ => .ok (.invalid, engine)
    | .ok transactions =>
        engine.importBlock payload.claimsOwnHash ⟨payload.header, transactions⟩

/-- Acknowledges a choice of the consensus layer. Nothing moves. -/
def forkchoiceUpdated (engine : Engine Store) (_choice : Forkchoice) : Engine Store :=
  engine

def head (engine : Engine Store) : UInt64 × Hash :=
  (engine.chain.head.header.number, engine.chain.head.hash)

def stateRoot (engine : Engine Store) : Except EngineError Hash :=
  (WorldStore.root engine.store).mapError .state

def account (engine : Engine Store) (address : Address) : Except EngineError (Option Account) :=
  ((WorldStore.view engine.store).account address).mapError .state

end Import

end Engine

end ExecutionLayer
