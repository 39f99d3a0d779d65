import ExecutionLayer.Proofs.Results
import ExecutionLayer.Proofs.Rlp.Values
import ExecutionLayer.Transaction.Signed

/-!
# Signed transactions in writing

The canonical envelope of a transaction and its signature. It is read back field by field, with
the sender that the signature recovers from what was signed.
-/

set_option autoImplicit false

namespace ExecutionLayer

def AccessListEntry.item (entry : AccessListEntry) : Rlp.Item :=
  .list [.ofAddress entry.address, .list (entry.slots.map .ofHash)]

namespace Transaction

open Rlp (Item)

/-! ## What is written -/

def Kind.typeBytes : Kind → Bytes
  | .legacy => []
  | kind => [kind.typeByte]

/-- The form, with its chain, its prices and its announced accounts. -/
inductive Form where
  | legacy (chainId : Option UInt64) (gasPrice : Word)
  | accessList (chainId : UInt64) (gasPrice : Word) (entries : List AccessListEntry)
  | dynamicFee (chainId : UInt64) (maxPriorityFee maxFee : Word) (entries : List AccessListEntry)

namespace Form

def kind : Form → Kind
  | .legacy .. => .legacy
  | .accessList .. => .accessList
  | .dynamicFee .. => .dynamicFee

/-- The value that carries the parity, and in a legacy transaction the chain as well. -/
def v (form : Form) (yIsOdd : Bool) : Nat :=
  match form with
  | .legacy none _ => 27 + yIsOdd.toNat
  | .legacy (some chainId) _ => 35 + 2 * chainId.toNat + yIsOdd.toNat
  | .accessList .. | .dynamicFee .. => yIsOdd.toNat

/-- What is signed behind the fields, so that a legacy transaction counts on one chain only. -/
def replayItems : Form → List Item
  | .legacy (some chainId) _ => [.ofUInt64 chainId, .data [], .data []]
  | _ => []

end Form

structure Unsigned where
  form : Form
  nonce : UInt64
  gasLimit : UInt64
  recipient : Option Address
  value : Word
  data : Bytes

/-- The recipient as its 20 bytes; a creation has none of them. -/
def recipientItem : Option Address → Item
  | none => .data []
  | some recipient => .ofAddress recipient

def accessListItem (entries : List AccessListEntry) : Item :=
  .list (entries.map AccessListEntry.item)

namespace Unsigned

def items (unsigned : Unsigned) : List Item :=
  match unsigned.form with
  | .legacy _ gasPrice =>
      [.ofUInt64 unsigned.nonce, .ofWord gasPrice, .ofUInt64 unsigned.gasLimit,
        recipientItem unsigned.recipient, .ofWord unsigned.value, .data unsigned.data]
  | .accessList chainId gasPrice entries =>
      [.ofUInt64 chainId, .ofUInt64 unsigned.nonce, .ofWord gasPrice,
        .ofUInt64 unsigned.gasLimit, recipientItem unsigned.recipient, .ofWord unsigned.value,
        .data unsigned.data, accessListItem entries]
  | .dynamicFee chainId maxPriorityFee maxFee entries =>
      [.ofUInt64 chainId, .ofUInt64 unsigned.nonce, .ofWord maxPriorityFee, .ofWord maxFee,
        .ofUInt64 unsigned.gasLimit, recipientItem unsigned.recipient, .ofWord unsigned.value,
        .data unsigned.data, accessListItem entries]

def signingMessage (unsigned : Unsigned) : Bytes :=
  unsigned.form.kind.typeBytes ++ (Item.list (unsigned.items ++ unsigned.form.replayItems)).encode

def signatureItems (unsigned : Unsigned) (signature : Signature) : List Item :=
  [.ofNat (unsigned.form.v signature.yIsOdd), .ofWord signature.r, .ofWord signature.s]

def signedItem (unsigned : Unsigned) (signature : Signature) : Item :=
  .list (unsigned.items ++ unsigned.signatureItems signature)

/-- The signed transaction on the wire. -/
def envelope (unsigned : Unsigned) (signature : Signature) : Bytes :=
  unsigned.form.kind.typeBytes ++ (unsigned.signedItem signature).encode

/-- The transaction with its sender. The one gas price of the older forms is the tip and the
fee cap. -/
def transaction (unsigned : Unsigned) (sender : Address) (hash : Hash) : Transaction :=
  let { form, nonce, gasLimit, recipient, value, data } := unsigned
  match form with
  | .legacy chainId gasPrice =>
      { kind := .legacy, chainId, nonce, maxPriorityFee := gasPrice, maxFee := gasPrice, gasLimit
        recipient, value, data, accessList := [], sender, hash }
  | .accessList chainId gasPrice accessList =>
      { kind := .accessList, chainId := some chainId, nonce, maxPriorityFee := gasPrice
        maxFee := gasPrice, gasLimit, recipient, value, data, accessList, sender, hash }
  | .dynamicFee chainId maxPriorityFee maxFee accessList =>
      { kind := .dynamicFee, chainId := some chainId, nonce, maxPriorityFee, maxFee, gasLimit
        recipient, value, data, accessList, sender, hash }

end Unsigned

/-- The signature is in canonical form and recovers the sender from what was to be signed. -/
structure Signs (unsigned : Unsigned) (signature : Signature) (sender : Address) : Prop where
  r_ne_zero : signature.r ≠ 0
  s_ne_zero : signature.s ≠ 0
  s_le : signature.s.toNat ≤ Secp256k1.halfOrder
  recovers : Secp256k1.recoverSigner? (keccak256 unsigned.signingMessage) signature.r signature.s
    signature.yIsOdd.toNat = some sender

/-! ## Signatures -/

theorem splitV_eq_ok_iff {value : UInt64} {yIsOdd : Bool} {chainId : Option UInt64}
    (gasPrice : Word) :
    splitV value = .ok (yIsOdd, chainId) ↔
      value.toNat = (Form.legacy chainId gasPrice).v yIsOdd := by
  unfold splitV
  by_cases even : value = 27
  · rw [if_pos even, even]
    cases yIsOdd <;> cases chainId <;> simp [Form.v] <;> omega
  by_cases odd : value = 28
  · rw [if_neg even, if_pos odd, odd]
    cases yIsOdd <;> cases chainId <;> simp [Form.v] <;> omega
  have notEven : value.toNat ≠ 27 := fun same => even (UInt64.toNat_inj.mp same)
  have notOdd : value.toNat ≠ 28 := fun same => odd (UInt64.toNat_inj.mp same)
  rw [if_neg even, if_neg odd]
  by_cases chained : value ≥ 35
  · have least : 35 ≤ value.toNat := UInt64.le_iff_toNat_le.mp chained
    have rest : (value - 35).toNat = value.toNat - 35 := UInt64.toNat_sub_of_le _ _ chained
    have parity : (value - 35) % 2 = 1 ↔ (value.toNat - 35) % 2 = 1 := by
      rw [← UInt64.toNat_inj, UInt64.toNat_mod, rest, UInt64.toNat_ofNat, UInt64.toNat_ofNat]
    rw [if_pos chained]
    cases chainId with
    | none => cases yIsOdd <;> simp [Form.v, notEven, notOdd]
    | some chainId =>
        have half : (value - 35) / 2 = chainId ↔ (value.toNat - 35) / 2 = chainId.toNat := by
          rw [← UInt64.toNat_inj, UInt64.toNat_div, rest, UInt64.toNat_ofNat]
        simp only [Except.ok.injEq, Prod.mk.injEq, Option.some.injEq, parity, half, Form.v]
        cases yIsOdd <;> simp <;> omega
  · have below : value.toNat < 35 := UInt64.lt_iff_toNat_lt.mp (UInt64.not_le.mp chained)
    rw [if_neg chained]
    cases yIsOdd <;> cases chainId <;> simp [Form.v, notEven, notOdd] <;> omega

theorem parityOf_eq_ok_iff {value : UInt64} {yIsOdd : Bool} :
    parityOf value = .ok yIsOdd ↔ value.toNat = yIsOdd.toNat := by
  unfold parityOf
  by_cases even : value = 0
  · rw [if_pos even, even]
    cases yIsOdd <;> simp
  by_cases odd : value = 1
  · rw [if_neg even, if_pos odd, odd]
    cases yIsOdd <;> simp
  have notEven : value.toNat ≠ 0 := fun same => even (UInt64.toNat_inj.mp same)
  have notOdd : value.toNat ≠ 1 := fun same => odd (UInt64.toNat_inj.mp same)
  rw [if_neg even, if_neg odd]
  cases yIsOdd <;> simp [notEven, notOdd]

theorem lift_ok {Value : Type} (value : Value) :
    (liftM (Except.ok value : Except Rlp.DecodeError Value) : Except DecodeError Value) =
      .ok value :=
  rfl

theorem readSignature_ofWord {signature : Signature} (r_ne_zero : signature.r ≠ 0)
    (s_ne_zero : signature.s ≠ 0) (s_le : signature.s.toNat ≤ Secp256k1.halfOrder) :
    readSignature signature.yIsOdd (Item.ofWord signature.r).encode
      (Item.ofWord signature.s).encode = .ok signature := by
  unfold readSignature
  rw [Rlp.readWord_ofWord, Rlp.readWord_ofWord, lift_ok, lift_ok]
  simp only [bind, Except.bind]
  rw [if_neg (not_or.mpr ⟨r_ne_zero, s_ne_zero⟩), if_neg (Nat.not_lt.mpr s_le)]

/-! ## Fields -/

theorem mapM_map_eq_ok {Error Value : Type} {read : Bytes → Except Error Value}
    {write : Value → Bytes} {values : List Value}
    (reads : ∀ value ∈ values, read (write value) = .ok value) :
    (values.map write).mapM read = .ok values := by
  induction values with
  | nil => rfl
  | cons value rest ih =>
      have later := ih fun other member => reads other (List.mem_cons_of_mem _ member)
      rw [List.map_cons, List.mapM_cons, reads value (List.mem_cons_self ..), later]
      rfl

theorem readRecipient_recipientItem (recipient : Option Address) :
    readRecipient (recipientItem recipient).encode = .ok recipient := by
  cases recipient with
  | none =>
      have read : Rlp.payload (Item.data []).encode = .ok [] :=
        Item.payload_encode (Nat.two_pow_pos 64)
      unfold readRecipient recipientItem
      rw [read]
      rfl
  | some recipient =>
      have length := recipient.length_toBytes
      have fits : recipient.toBytes.length < 2 ^ 64 := length.trans_lt (by decide)
      have read : Rlp.payload (Item.data recipient.toBytes).encode = .ok recipient.toBytes :=
        Item.payload_encode fits
      have filled : recipient.toBytes.isEmpty = false := by
        rw [List.isEmpty_eq_false_iff, ← List.length_pos_iff, length]
        decide
      unfold readRecipient recipientItem Item.ofAddress
      rw [read, lift_ok]
      simp only [bind, Except.bind]
      rw [filled, if_pos length, recipient.ofBytes_toBytes]
      rfl

theorem readAccessListEntry_item {entry : AccessListEntry}
    (fits : entry.item.encode.length < 2 ^ 64) :
    readAccessListEntry entry.item.encode = .ok entry := by
  have within := Item.fits_list fits
  have slotsFit := Item.fits_list (Item.fits_of_mem fits (List.mem_cons_of_mem _
    (List.mem_singleton_self _)))
  have slots : ((entry.slots.map Item.ofHash).map Item.encode).mapM Rlp.readHash =
      .ok entry.slots := by
    rw [List.map_map]
    exact mapM_map_eq_ok fun slot _ => Rlp.readHash_ofHash slot
  unfold readAccessListEntry AccessListEntry.item
  rw [if_pos (Rlp.isList_list within), Rlp.items_list within]
  simp only [List.map_cons, List.map_nil]
  rw [Rlp.items_list slotsFit, slots, Rlp.readAddress_ofAddress]
  rfl

theorem readAccessList_accessListItem {entries : List AccessListEntry}
    (fits : (accessListItem entries).encode.length < 2 ^ 64) :
    readAccessList (accessListItem entries).encode = .ok entries := by
  have within := Item.fits_list fits
  have read : ((entries.map AccessListEntry.item).map Item.encode).mapM readAccessListEntry =
      .ok entries := by
    rw [List.map_map]
    exact mapM_map_eq_ok fun entry member =>
      readAccessListEntry_item (Item.fits_of_mem fits (List.mem_map_of_mem member))
  unfold readAccessList accessListItem
  rw [if_pos (Rlp.isList_list within), Rlp.items_list within, read]
  rfl

theorem fieldsOf_list {items : List Item} (fits : (Rlp.encodeAll items).length < 2 ^ 64) :
    fieldsOf (Item.list items).encode = .ok (items.map Item.encode) := by
  have within : (Item.list items).payload.length < 2 ^ 64 := fits
  have found := Item.extent_encode within []
  rw [List.append_nil] at found
  unfold fieldsOf
  rw [if_pos (Rlp.isList_list fits), found, lift_ok]
  simp only [bind, Except.bind]
  rw [if_pos (Item.list items).size_extent, Rlp.items_list fits]

/-- A transaction from the fields of a form. -/
def ofFields : Kind → Bytes → List Bytes → Except DecodeError Transaction
  | .legacy => ofLegacyFields
  | .accessList => ofAccessListFields
  | .dynamicFee => ofDynamicFeeFields

theorem decode_append (kind : Kind) {body : Bytes} (list : Rlp.isList body = true) :
    decode (kind.typeBytes ++ body) =
      fieldsOf body >>= ofFields kind (kind.typeBytes ++ body) := by
  cases kind with
  | legacy =>
      cases body with
      | nil => cases list
      | cons first rest => exact if_pos (by simpa [Rlp.isList] using list)
  | accessList => rfl
  | dynamicFee => rfl

/-! ## Read back -/

section

variable {unsigned : Unsigned} {signature : Signature} {sender : Address}

theorem Signs.recoverSender (signs : Signs unsigned signature sender) :
    recoverSender unsigned.signingMessage signature = .ok sender := by
  unfold Transaction.recoverSender
  rw [signs.recovers]

theorem Signs.readSignature (signs : Signs unsigned signature sender) :
    readSignature signature.yIsOdd (Item.ofWord signature.r).encode
      (Item.ofWord signature.s).encode = .ok signature :=
  readSignature_ofWord signs.r_ne_zero signs.s_ne_zero signs.s_le

theorem Signs.recovered_legacy {chainId : Option UInt64} {gasPrice : Word}
    (signs : Signs unsigned signature sender) (form : unsigned.form = .legacy chainId gasPrice) :
    Transaction.recoverSender (legacySigningMessage (unsigned.items.map Item.encode) chainId)
      signature = .ok sender := by
  rw [← signs.recoverSender, Unsigned.signingMessage, Item.encode, Rlp.encodeAll_eq_flatten,
    List.map_append, List.flatten_append, form]
  cases chainId with
  | none => rfl
  | some chainId =>
      unfold legacySigningMessage
      simp [Form.kind, Kind.typeBytes, Form.replayItems, Item.encode]

theorem Signs.recovered_typed {kind : Kind} (signs : Signs unsigned signature sender)
    (form : unsigned.form.kind = kind) (typed : kind ≠ .legacy) :
    Transaction.recoverSender (typedSigningMessage kind (unsigned.items.map Item.encode))
      signature = .ok sender := by
  rw [← signs.recoverSender, Unsigned.signingMessage, Item.encode, Rlp.encodeAll_eq_flatten,
    List.map_append, List.flatten_append]
  subst form
  cases form : unsigned.form with
  | legacy =>
      rw [form] at typed
      exact absurd rfl typed
  | accessList => simp [typedSigningMessage, Form.kind, Kind.typeBytes, Form.replayItems]
  | dynamicFee => simp [typedSigningMessage, Form.kind, Kind.typeBytes, Form.replayItems]

theorem data_fits (fits : (unsigned.signedItem signature).payload.length < 2 ^ 64) :
    unsigned.data.length < 2 ^ 64 := by
  have member : .data unsigned.data ∈ unsigned.items ++ unsigned.signatureItems signature := by
    apply List.mem_append_left
    unfold Unsigned.items
    split <;> simp
  exact Item.fits_data ((Rlp.length_le_encodeAll member).trans_lt fits)

theorem ofLegacyFields_signed (raw : Bytes) {chainId : Option UInt64} {gasPrice : Word}
    (form : unsigned.form = .legacy chainId gasPrice) (signs : Signs unsigned signature sender)
    (vFits : unsigned.form.v signature.yIsOdd < 2 ^ 64)
    (fits : (unsigned.signedItem signature).payload.length < 2 ^ 64) :
    ofLegacyFields raw ((unsigned.items ++ unsigned.signatureItems signature).map Item.encode) =
      .ok (unsigned.transaction sender (keccak256 raw)) := by
  have recovered := signs.recovered_legacy form
  have dataFits := data_fits fits
  obtain ⟨_, nonce, gasLimit, recipient, value, data⟩ := unsigned
  cases form
  have parity : splitV (UInt64.ofNat ((Form.legacy chainId gasPrice).v signature.yIsOdd)) =
      .ok (signature.yIsOdd, chainId) :=
    (splitV_eq_ok_iff gasPrice).mpr (UInt64.toNat_ofNat_of_lt' vFits)
  simp only [Unsigned.items, Unsigned.signatureItems, List.map_cons, List.map_nil,
    List.cons_append, List.nil_append] at recovered ⊢
  simp only [ofLegacyFields, Rlp.readWord_ofWord, Rlp.readUInt64_ofNat vFits,
    Rlp.readUInt64_ofUInt64, Rlp.readData_data dataFits, readRecipient_recipientItem, parity,
    signs.readSignature, recovered, lift_ok, ok_bind]
  rfl

/-! The typed forms carry the parity alone. -/

theorem readUInt64_parity (yIsOdd : Bool) :
    ∃ value, Rlp.readUInt64 (Item.ofNat yIsOdd.toNat).encode = .ok value ∧
      parityOf value = .ok yIsOdd := by
  have fits : yIsOdd.toNat < 2 ^ 64 := (Bool.toNat_lt yIsOdd).trans (by decide)
  exact ⟨_, Rlp.readUInt64_ofNat fits, parityOf_eq_ok_iff.mpr (UInt64.toNat_ofNat_of_lt' fits)⟩

theorem ofAccessListFields_signed (raw : Bytes) {chainId : UInt64} {gasPrice : Word}
    {entries : List AccessListEntry} (form : unsigned.form = .accessList chainId gasPrice entries)
    (signs : Signs unsigned signature sender)
    (fits : (unsigned.signedItem signature).payload.length < 2 ^ 64) :
    ofAccessListFields raw
        ((unsigned.items ++ unsigned.signatureItems signature).map Item.encode) =
      .ok (unsigned.transaction sender (keccak256 raw)) := by
  have recovered : recoverSender (typedSigningMessage .accessList _) signature = .ok sender :=
    signs.recovered_typed (by rw [form]; rfl) (by decide)
  have dataFits := data_fits fits
  obtain ⟨_, nonce, gasLimit, recipient, value, data⟩ := unsigned
  cases form
  have entriesFit : (accessListItem entries).encode.length < 2 ^ 64 :=
    (Rlp.length_le_encodeAll (by simp [Unsigned.items])).trans_lt fits
  obtain ⟨_, parityRead, parity⟩ := readUInt64_parity signature.yIsOdd
  simp only [Unsigned.items, Unsigned.signatureItems, Form.v, List.map_cons, List.map_nil,
    List.cons_append, List.nil_append] at recovered ⊢
  simp only [ofAccessListFields, Rlp.readWord_ofWord, Rlp.readUInt64_ofUInt64,
    Rlp.readData_data dataFits, readRecipient_recipientItem,
    readAccessList_accessListItem entriesFit, parityRead, parity, signs.readSignature, recovered,
    lift_ok, ok_bind]
  rfl

theorem ofDynamicFeeFields_signed (raw : Bytes) {chainId : UInt64} {maxPriorityFee maxFee : Word}
    {entries : List AccessListEntry}
    (form : unsigned.form = .dynamicFee chainId maxPriorityFee maxFee entries)
    (signs : Signs unsigned signature sender)
    (fits : (unsigned.signedItem signature).payload.length < 2 ^ 64) :
    ofDynamicFeeFields raw
        ((unsigned.items ++ unsigned.signatureItems signature).map Item.encode) =
      .ok (unsigned.transaction sender (keccak256 raw)) := by
  have recovered : recoverSender (typedSigningMessage .dynamicFee _) signature = .ok sender :=
    signs.recovered_typed (by rw [form]; rfl) (by decide)
  have dataFits := data_fits fits
  obtain ⟨_, nonce, gasLimit, recipient, value, data⟩ := unsigned
  cases form
  have entriesFit : (accessListItem entries).encode.length < 2 ^ 64 :=
    (Rlp.length_le_encodeAll (by simp [Unsigned.items])).trans_lt fits
  obtain ⟨_, parityRead, parity⟩ := readUInt64_parity signature.yIsOdd
  simp only [Unsigned.items, Unsigned.signatureItems, Form.v, List.map_cons, List.map_nil,
    List.cons_append, List.nil_append] at recovered ⊢
  simp only [ofDynamicFeeFields, Rlp.readWord_ofWord, Rlp.readUInt64_ofUInt64,
    Rlp.readData_data dataFits, readRecipient_recipientItem,
    readAccessList_accessListItem entriesFit, parityRead, parity, signs.readSignature, recovered,
    lift_ok, ok_bind]
  rfl

theorem ofFields_signed (raw : Bytes) (signs : Signs unsigned signature sender)
    (vFits : unsigned.form.v signature.yIsOdd < 2 ^ 64)
    (fits : (unsigned.signedItem signature).payload.length < 2 ^ 64) :
    ofFields unsigned.form.kind raw
        ((unsigned.items ++ unsigned.signatureItems signature).map Item.encode) =
      .ok (unsigned.transaction sender (keccak256 raw)) := by
  cases form : unsigned.form with
  | legacy => exact ofLegacyFields_signed raw form signs vFits fits
  | accessList => exact ofAccessListFields_signed raw form signs fits
  | dynamicFee => exact ofDynamicFeeFields_signed raw form signs fits

/-- An envelope is read back whole. RLP has lists of fewer than `2 ^ 64` bytes only. -/
theorem decode_envelope (unsigned : Unsigned) (signature : Signature) (sender : Address)
    (signs : Signs unsigned signature sender)
    (vFits : unsigned.form.v signature.yIsOdd < 2 ^ 64)
    (fits : (unsigned.signedItem signature).payload.length < 2 ^ 64) :
    decode (unsigned.envelope signature) =
      .ok (unsigned.transaction sender (keccak256 (unsigned.envelope signature))) := by
  have list : Rlp.isList (unsigned.signedItem signature).encode = true := Rlp.isList_list fits
  have fields : fieldsOf (unsigned.signedItem signature).encode =
      .ok ((unsigned.items ++ unsigned.signatureItems signature).map Item.encode) :=
    fieldsOf_list fits
  unfold Unsigned.envelope
  rw [decode_append _ list, fields, ok_bind, ofFields_signed _ signs vFits fits]

end

/-! A payment with a tip that announces two slots of the paid account. -/

namespace Announced

def payment : Unsigned where
  form := .dynamicFee 1 2 100 [⟨0xaa, [1, 2]⟩]
  nonce := 7
  gasLimit := 60000
  recipient := some 0xaa
  value := 5
  data := [0xca, 0xfe]

def signature : Signature where
  yIsOdd := true
  r := 0x1772a05f26950eb7363582a93d70262ced8c0f358bcfedbf5cc39484fdef9a75
  s := 0x16543ed6fe8b5d243c0dda6110911c99fd68f451fd34a75c22115fc74512b6e2

def sender : Address :=
  0x7e5f4552091a69125d5dfcb7b8c2659029395bdf

theorem signs : Signs payment signature sender where
  r_ne_zero := by decide
  s_ne_zero := by decide
  s_le := by decide
  recovers := by decide +kernel

theorem payment_decoded :
    Signs payment signature sender ∧
      decode (payment.envelope signature) =
        .ok (payment.transaction sender (keccak256 (payment.envelope signature))) :=
  ⟨signs, decode_envelope payment signature sender signs (by decide) (by decide +kernel)⟩

end Announced

end Transaction

end ExecutionLayer
