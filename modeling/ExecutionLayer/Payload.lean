import ExecutionLayer.Header.Basic
import ExecutionLayer.Json.Record
import ExecutionLayer.Json.Scalar

/-!
# Payloads

Candidate blocks as the consensus layer proposes them, the verdict on them, and the
documents in which both travel.
-/

set_option autoImplicit false

namespace ExecutionLayer

/-- A proposed block: the header fields that are not fixed, the hash that the proposer
claims, and opaque transactions. -/
structure Payload where
  parentHash : Hash := 0
  feeRecipient : Address := 0
  stateRoot : Hash := 0
  receiptsRoot : Hash := 0
  logsBloom : Bloom := 0
  number : UInt64 := 0
  gasLimit : UInt64 := 0
  gasUsed : UInt64 := 0
  timestamp : UInt64 := 0
  baseFee : Option Word := none
  blockHash : Hash := 0
  transactions : List Bytes := []
deriving DecidableEq, Repr, Inhabited

namespace Payload

/-- The fields of the document in their declared order, with the names each may have. -/
def fieldNames : List (List String) :=
  [["parentHash"], ["feeRecipient", "coinbase"], ["stateRoot"], ["receiptsRoot"], ["logsBloom"],
    ["number"], ["gasLimit"], ["gasUsed"], ["timestamp"], ["baseFeePerGas"], ["blockHash"],
    ["transactions"]]

/-- The payload in a document. Only the base fee may be missing. -/
def ofJson? (document : Json) : Option Payload := do
  match ← Json.fields? fieldNames document with
  | [parentHash, feeRecipient, stateRoot, receiptsRoot, logsBloom, number, gasLimit, gasUsed,
      timestamp, baseFee, blockHash, transactions] =>
      return {
        parentHash := ← Json.required Json.hash? parentHash
        feeRecipient := ← Json.required Json.address? feeRecipient
        stateRoot := ← Json.required Json.hash? stateRoot
        receiptsRoot := ← Json.required Json.hash? receiptsRoot
        logsBloom := ← Json.required Json.bloom? logsBloom
        number := ← Json.required Json.quantity? number
        gasLimit := ← Json.required Json.quantity? gasLimit
        gasUsed := ← Json.required Json.quantity? gasUsed
        timestamp := ← Json.required Json.quantity? timestamp
        baseFee := ← Json.optional none (Json.nullable Json.word?) baseFee
        blockHash := ← Json.required Json.hash? blockHash
        transactions := ← Json.required (Json.list? Json.bytes?) transactions }
  | _ => none

def toJson (payload : Payload) : Json :=
  .record
    ([("parentHash", .ofHash payload.parentHash), ("feeRecipient", .ofAddress payload.feeRecipient),
      ("stateRoot", .ofHash payload.stateRoot), ("receiptsRoot", .ofHash payload.receiptsRoot),
      ("logsBloom", .ofBloom payload.logsBloom), ("number", .ofQuantity payload.number),
      ("gasLimit", .ofQuantity payload.gasLimit), ("gasUsed", .ofQuantity payload.gasUsed),
      ("timestamp", .ofQuantity payload.timestamp)] ++
      (payload.baseFee.map fun baseFee => ("baseFeePerGas", Json.ofWord baseFee)).toList ++
      [("blockHash", .ofHash payload.blockHash),
        ("transactions", .array (payload.transactions.map Json.ofBytes))])

def transactionsRoot (payload : Payload) : Hash :=
  Trie.listRoot payload.transactions

/-- The header of the proposed block. What a payload does not carry is fixed. -/
def header (payload : Payload) : Header where
  parentHash := payload.parentHash
  ommersHash := Header.emptyOmmersHash
  coinbase := payload.feeRecipient
  stateRoot := payload.stateRoot
  transactionsRoot := payload.transactionsRoot
  receiptsRoot := payload.receiptsRoot
  logsBloom := payload.logsBloom
  difficulty := Header.blockDifficulty
  number := payload.number
  gasLimit := payload.gasLimit
  gasUsed := payload.gasUsed
  timestamp := payload.timestamp
  baseFee := payload.baseFee

def claimsOwnHash (payload : Payload) : Bool :=
  payload.blockHash = payload.header.hash

end Payload

inductive PayloadStatus where
  | valid
  | invalid
  /-- The block was part of the chain before. -/
  | known
  /-- The parent is not known. -/
  | syncing
deriving DecidableEq, Repr, Inhabited

def PayloadStatus.name : PayloadStatus → String
  | .valid => "VALID"
  | .invalid => "INVALID"
  | .known => "KNOWN"
  | .syncing => "SYNCING"

structure PayloadResponse where
  blockHash : Hash
  status : PayloadStatus
deriving DecidableEq, Repr, Inhabited

def PayloadResponse.toJson (response : PayloadResponse) : Json :=
  .record [("blockHash", .ofHash response.blockHash), ("status", .text response.status.name)]

/-- The blocks that the consensus layer regards as head, safe and final. -/
structure Forkchoice where
  head : Hash
  safe : Hash
  finalized : Hash
deriving DecidableEq, Repr, Inhabited

def Forkchoice.ofJson? (document : Json) : Option Forkchoice := do
  match ← Json.fields? [["headBlockHash"], ["safeBlockHash"], ["finalizedBlockHash"]]
      document with
  | [head, safe, finalized] =>
      return {
        head := ← Json.required Json.hash? head
        safe := ← Json.required Json.hash? safe
        finalized := ← Json.required Json.hash? finalized }
  | _ => none

end ExecutionLayer
