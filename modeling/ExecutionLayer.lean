import ExecutionLayer.Json.Reader
import ExecutionLayer.Json.Printer
import ExecutionLayer.Digest.Keccak
import ExecutionLayer.Gas
import ExecutionLayer.Digest.Sha256
import ExecutionLayer.Digest.Ripemd160
import ExecutionLayer.Digest.Blake2b
import ExecutionLayer.Trie.Node
import ExecutionLayer.Trie.Root
import ExecutionLayer.World.InMemory
import ExecutionLayer.World.Overlay
import ExecutionLayer.World.Journal
import ExecutionLayer.Transaction.Signed
import ExecutionLayer.Receipt
import ExecutionLayer.Transaction.Execution
import ExecutionLayer.Config.Engine
import ExecutionLayer.Genesis
import ExecutionLayer.Payload
import ExecutionLayer.Json.Record
import ExecutionLayer.Json.Scalar
import ExecutionLayer.Header.Rules
import ExecutionLayer.Machine.Frame
import ExecutionLayer.Machine.Context
import ExecutionLayer.Instruction.Computation
import ExecutionLayer.Instruction.Step
import ExecutionLayer.Precompile.Registry
import ExecutionLayer.Execution
import ExecutionLayer.Main
import ExecutionLayer.Proofs.World.Readings
import ExecutionLayer.Proofs.World.Refinement
import ExecutionLayer.Proofs.World.Effects
import ExecutionLayer.Proofs.World.Rollback
import ExecutionLayer.Proofs.Blockchain
import ExecutionLayer.Proofs.Engine.Runs
import ExecutionLayer.Proofs.Block.Validation
import ExecutionLayer.Proofs.Engine.StateRoot
import ExecutionLayer.Proofs.Engine.SideBranches
import ExecutionLayer.Proofs.World.Conservation
import ExecutionLayer.Proofs.Instruction.Charges
import ExecutionLayer.Proofs.Instruction.Ordinary
import ExecutionLayer.Proofs.Block.Conservation
import ExecutionLayer.Proofs.Engine.Faults
import ExecutionLayer.Proofs.World.Merging
import ExecutionLayer.Proofs.World.Commitment
import ExecutionLayer.Proofs.World.Finalization
import ExecutionLayer.Proofs.Execution.Failures
import ExecutionLayer.Proofs.Execution.ReadOnly
import ExecutionLayer.Proofs.Execution.Gas
import ExecutionLayer.Proofs.Execution.Termination
import ExecutionLayer.Proofs.Transaction.Conservation
import ExecutionLayer.Proofs.Execution.Refunds
import ExecutionLayer.Proofs.Execution.Boundaries
import ExecutionLayer.Proofs.Execution.Nesting
import ExecutionLayer.Proofs.Execution.Recursion
import ExecutionLayer.Proofs.Rlp.Numbers
import ExecutionLayer.Proofs.Rlp.Reading
import ExecutionLayer.Proofs.Trie.Grouping
import ExecutionLayer.Proofs.Trie.Contents
import ExecutionLayer.Proofs.Trie.Commitment
import ExecutionLayer.Proofs.Engine.BlockTree
import ExecutionLayer.Proofs.Rlp.Values
import ExecutionLayer.Proofs.Payload
import ExecutionLayer.Proofs.Rlp.Canonical
import ExecutionLayer.Proofs.Transaction.Envelope
import ExecutionLayer.Proofs.Transaction.Spelling
import ExecutionLayer.Proofs.Transaction.Stages
import ExecutionLayer.Proofs.Transaction.Amounts
import ExecutionLayer.Proofs.Block.Gas
import ExecutionLayer.Proofs.Transaction.Failure
import ExecutionLayer.Proofs.World.Standing
import ExecutionLayer.Proofs.Instruction.Foreign
import ExecutionLayer.Proofs.Execution.Deployments
import ExecutionLayer.Proofs.Execution.Bystanders
import ExecutionLayer.Proofs.Execution.Warmth
import ExecutionLayer.Proofs.Block.Nonces
import ExecutionLayer.Proofs.Engine.Ancestry
import ExecutionLayer.Proofs.Engine.Owners
import ExecutionLayer.Proofs.Engine.BaseFees
import ExecutionLayer.Proofs.Instruction.Metering
import ExecutionLayer.Proofs.Execution.Shapes
import ExecutionLayer.Proofs.Execution.Memory
import ExecutionLayer.Proofs.Machine.Charging
import ExecutionLayer.Proofs.Machine.Contents
import ExecutionLayer.Proofs.Instruction.Jumps
import ExecutionLayer.Proofs.Execution.MemoryLimit
import ExecutionLayer.Proofs.Word.Signed
import ExecutionLayer.Proofs.Header.BaseFee
import ExecutionLayer.Proofs.Instruction.Finishing
import ExecutionLayer.Proofs.Instruction.Copies
import ExecutionLayer.Proofs.Header.Rules
import ExecutionLayer.Proofs.Power
import ExecutionLayer.Proofs.Precompile.ModExp
import ExecutionLayer.Proofs.Curve.Group
import ExecutionLayer.Proofs.Curve.Field
import ExecutionLayer.Proofs.Precompile.Bn254
import ExecutionLayer.Proofs.Trie.Composition
import ExecutionLayer.Proofs.Curve.Extension
import ExecutionLayer.Proofs.Precompile.Pairing
import ExecutionLayer.Proofs.Quantity
import ExecutionLayer.Proofs.Payload.Documents
import ExecutionLayer.Proofs.Instruction.Destruction
import ExecutionLayer.Proofs.World.Atomicity
import ExecutionLayer.Proofs.Curve.Embedding
