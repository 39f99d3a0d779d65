import ExecutionLayer.Payload
import ExecutionLayer.Proofs.Json.Values

/-!
# Payloads read back

The document of a payload is a record whose names belong to one field each. So each field is read
back from it, a base fee that was left out included, and the document from its text.
-/

set_option autoImplicit false

namespace ExecutionLayer.Payload

open Json (Slot WellFormed)

def slots (payload : Payload) : List Slot :=
  [⟨"parentHash", [], some (.ofHash payload.parentHash)⟩,
    ⟨"feeRecipient", ["coinbase"], some (.ofAddress payload.feeRecipient)⟩,
    ⟨"stateRoot", [], some (.ofHash payload.stateRoot)⟩,
    ⟨"receiptsRoot", [], some (.ofHash payload.receiptsRoot)⟩,
    ⟨"logsBloom", [], some (.ofBloom payload.logsBloom)⟩,
    ⟨"number", [], some (.ofQuantity payload.number)⟩,
    ⟨"gasLimit", [], some (.ofQuantity payload.gasLimit)⟩,
    ⟨"gasUsed", [], some (.ofQuantity payload.gasUsed)⟩,
    ⟨"timestamp", [], some (.ofQuantity payload.timestamp)⟩,
    ⟨"baseFeePerGas", [], payload.baseFee.map Json.ofWord⟩,
    ⟨"blockHash", [], some (.ofHash payload.blockHash)⟩,
    ⟨"transactions", [], some (.array (payload.transactions.map Json.ofBytes))⟩]

theorem toJson_eq_record (payload : Payload) :
    payload.toJson = .record (Json.members payload.slots) := by
  unfold toJson slots
  cases payload.baseFee <;> rfl

theorem names_slots (payload : Payload) : payload.slots.map Slot.names = fieldNames :=
  rfl

theorem nodup_fieldNames : fieldNames.flatten.Nodup := by
  decide

theorem fields?_toJson (payload : Payload) :
    Json.fields? fieldNames payload.toJson = some (payload.slots.map Slot.value) := by
  have distinct : (payload.slots.flatMap Slot.names).Nodup := by
    rw [List.flatMap_def, names_slots]
    exact nodup_fieldNames
  rw [toJson_eq_record, ← names_slots payload]
  exact Json.fields?_record_members distinct

theorem ofJson?_toJson (payload : Payload) : ofJson? payload.toJson = some payload := by
  have fee : Json.optional none (Json.nullable Json.word?) (payload.baseFee.map Json.ofWord) =
      some payload.baseFee := by
    cases payload.baseFee with
    | none => rfl
    | some fee => exact congrArg (Option.map some) (Json.word?_ofWord fee)
  have transactions := Json.list?_map Json.bytes?_ofBytes payload.transactions
  rw [ofJson?, fields?_toJson, Option.bind_eq_bind, Option.bind_some]
  -- The twelve values are laid out before anything is read, so that each is met only once.
  unfold slots
  dsimp only [List.map]
  simp only [Json.required, Json.hash?_ofHash, Json.address?_ofAddress, Json.bloom?_ofBloom,
    Json.quantity?_ofQuantity, fee, transactions, Option.bind_eq_bind, Option.bind_some]
  rfl

theorem wellFormed_toJson (payload : Payload) : WellFormed payload.toJson := by
  rw [toJson_eq_record]
  apply Json.wellFormed_record_members
  have transactions : WellFormed (.array (payload.transactions.map Json.ofBytes)) := by
    refine .array fun element listed => ?_
    obtain ⟨bytes, -, rfl⟩ := List.mem_map.mp listed
    exact Json.wellFormed_text _
  simp [slots, transactions, Json.ofHash, Json.ofAddress, Json.ofBloom, Json.ofQuantity,
    Json.ofWord]

/-- Every payload is read back from its document, and from the text of its document. -/
theorem round_trip (payload : Payload) :
    ofJson? payload.toJson = some payload ∧
      (Json.parse? payload.toJson.render).bind ofJson? = some payload := by
  have read := ofJson?_toJson payload
  refine ⟨read, ?_⟩
  rw [Json.parse?_render payload.wellFormed_toJson, Option.bind_some, read]

end ExecutionLayer.Payload
