import ExecutionLayer.Json.Printer
import ExecutionLayer.Replay

/-!
# The command line

Reads a session from standard input and writes one response a line. A fault goes to
standard error and makes the exit code one.
-/

set_option autoImplicit false

namespace ExecutionLayer

partial def readAll (stream : IO.FS.Stream) (text : String) : IO String := do
  let line ← stream.getLine
  if line.isEmpty then return text else readAll stream (text ++ line)

end ExecutionLayer

/-- Replays the session on standard input. -/
def main : IO UInt32 := do
  let text ← ExecutionLayer.readAll (← IO.getStdin) ""
  let (responses, fault) := ExecutionLayer.Replay.runText text
  for response in responses do
    IO.println response.toJson.render
  match fault with
  | none => return 0
  | some error =>
      IO.eprintln error.message
      return 1
