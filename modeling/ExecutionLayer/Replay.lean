import ExecutionLayer.Engine

/-!
# Replays

A session of an engine as one document: what the chain starts with and the payloads
that follow. The answers end with the first fault.
-/

set_option autoImplicit false

namespace ExecutionLayer

/-- A genesis and the payloads to import on top of it, in order. -/
structure Replay where
  config : EngineConfig := {}
  genesis : Genesis
  payloads : List Payload

namespace Replay

def ofJson? (document : Json) : Option Replay := do
  match ← Json.fields? [["config"], ["genesis"], ["payloads"]] document with
  | [config, genesis, payloads] =>
      return {
        config := ← Json.optional {} EngineConfig.ofJson? config
        genesis := ← Json.required Genesis.ofJson? genesis
        payloads := ← Json.required (Json.list? Payload.ofJson?) payloads }
  | _ => none

/-- The responses to payloads in order, and the fault that ended them early. -/
def responses (engine : Engine World) :
    List Payload → List PayloadResponse × Option EngineError
  | [] => ([], none)
  | payload :: rest =>
      match engine.newPayload payload with
      | .error error => ([], some error)
      | .ok (status, engine) =>
          let (later, fault) := responses engine rest
          (⟨payload.blockHash, status⟩ :: later, fault)

def run (replay : Replay) : List PayloadResponse × Option EngineError :=
  match Engine.ofGenesis replay.config replay.genesis with
  | .error error => ([], some error)
  | .ok engine => responses engine replay.payloads

def runText (text : String) : List PayloadResponse × Option EngineError :=
  match (Json.parse? text).bind ofJson? with
  | none => ([], some (.config .parse))
  | some replay => replay.run

end Replay

end ExecutionLayer
