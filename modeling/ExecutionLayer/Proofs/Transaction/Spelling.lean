import ExecutionLayer.Proofs.Rlp.Canonical
import ExecutionLayer.Proofs.Transaction.Envelope

/-!
# Other spellings of a signed transaction

Numbers, strings and digests are read from their canonical form alone. But what stands behind
the last item of a list is passed over, a recipient may come as a list, and a string does for a
list of slots. Bytes that are read are an envelope exactly where none of this happens.
-/

set_option autoImplicit false

namespace ExecutionLayer.Transaction

open Rlp (Item Whole Filled)

/-! ## Where the spelling is free -/

def Kind.recipientPlace : Kind → Nat
  | .legacy => 3
  | .accessList => 4
  | .dynamicFee => 5

def Kind.accessListPlace : Kind → Option Nat
  | .legacy => none
  | .accessList => some 7
  | .dynamicFee => some 8

/-- What stands behind the type. -/
def Kind.body (kind : Kind) (raw : Bytes) : Bytes :=
  match kind with
  | .legacy => raw
  | .accessList | .dynamicFee => raw.tail

def TidyEntry (entry : Bytes) : Prop :=
  Filled entry ∧ ∀ slots ∈ (Rlp.items entry)[1]?, Filled slots

def TidyAccessList (list : Bytes) : Prop :=
  Filled list ∧ ∀ entry ∈ Rlp.items list, TidyEntry entry

/-- The recipient is a string, and the lists below the fields are filled. -/
def TidyFields (kind : Kind) (fields : List Bytes) : Prop :=
  (∀ recipient ∈ fields[kind.recipientPlace]?, Rlp.isList recipient = false) ∧
    ∀ place ∈ kind.accessListPlace, ∀ list ∈ fields[place]?, TidyAccessList list

/-- Every list is filled, and the recipient is a string. -/
def Tidy (kind : Kind) (raw : Bytes) : Prop :=
  Filled (kind.body raw) ∧ TidyFields kind (Rlp.items (kind.body raw))

/-! ## Items -/

theorem mapM_spelled {Error Value : Type} {read : Bytes → Except Error Value}
    {spellings : List Bytes} {values : List Value} (write : Value → Bytes) (tidy : Bytes → Prop)
    (finished : spellings.mapM read = .ok values)
    (spelled : ∀ spelling ∈ spellings, ∀ value, read spelling = .ok value →
      (spelling = write value ↔ tidy spelling)) :
    spellings = values.map write ↔ ∀ spelling ∈ spellings, tidy spelling := by
  induction spellings generalizing values with
  | nil =>
      cases finished
      simp
  | cons spelling rest ih =>
      rw [List.mapM_cons] at finished
      obtain ⟨value, first, finished⟩ := bind_eq_ok finished
      obtain ⟨others, later, finished⟩ := bind_eq_ok finished
      cases finished
      have front := spelled spelling (List.mem_cons_self ..) value first
      have back := ih later fun other member => spelled other (List.mem_cons_of_mem _ member)
      rw [List.map_cons, List.cons.injEq, List.forall_mem_cons, front, back]

section

variable {item : Bytes} (whole : Whole item)

include whole

theorem recipient_spelled {recipient : Option Address}
    (read : readRecipient item = .ok recipient) :
    item = (recipientItem recipient).encode ↔ Rlp.isList item = false := by
  constructor
  · rintro rfl
    cases recipient with
    | none => exact Rlp.isList_data (Nat.two_pow_pos 64)
    | some recipient => exact Rlp.isList_data (recipient.length_toBytes.trans_lt (by decide))
  · intro kind
    obtain ⟨bytes, _, payload, spelled⟩ := whole.of_not_isList kind
    unfold readRecipient at read
    rw [payload, lift_ok, ok_bind] at read
    cases bytes with
    | nil =>
        cases read
        rcases spelled with canonical | ⟨byte, _, single, _⟩
        · exact canonical
        · cases single
    | cons first rest =>
        by_cases length : (first :: rest).length = 20
        · rw [List.isEmpty_cons, if_neg Bool.false_ne_true, if_pos length] at read
          cases read
          rcases spelled with canonical | ⟨byte, _, single, _⟩
          · rw [recipientItem, Item.ofAddress, Address.toBytes_ofBytes length]
            exact canonical
          · rw [single] at length
            cases length
        · rw [List.isEmpty_cons, if_neg Bool.false_ne_true, if_neg length] at read
          cases read

theorem slots_spelled {slots : List Word} (read : (Rlp.items item).mapM Rlp.readHash = .ok slots) :
    item = (Item.list (slots.map .ofHash)).encode ↔ Filled item := by
  have each : Rlp.items item = (slots.map Item.ofHash).map Item.encode := by
    rw [List.map_map]
    apply (mapM_spelled _ (fun _ => True) read ?_).mpr fun _ _ => trivial
    intro slot member value read
    exact iff_of_true (Rlp.readHash_eq_ok (Rlp.whole_of_mem_items member) read) trivial
  rw [whole.eq_encode_list_iff, and_iff_left each]

theorem entry_spelled {entry : AccessListEntry} (read : readAccessListEntry item = .ok entry) :
    item = entry.item.encode ↔ TidyEntry item := by
  unfold readAccessListEntry at read
  split at read
  · split at read
    · rename_i address slots parts
      obtain ⟨values, slotsRead, read⟩ := bind_eq_ok read
      obtain ⟨account, addressRead, read⟩ := bind_eq_ok read
      cases read
      have member (part : Bytes) (among : part ∈ [address, slots]) : Whole part :=
        Rlp.whole_of_mem_items (parts ▸ among)
      have front := Rlp.readAddress_eq_ok (member address (by simp)) addressRead
      have back := slots_spelled (member slots (by simp)) slotsRead
      rw [AccessListEntry.item, whole.eq_encode_list_iff, parts, TidyEntry, parts]
      simp [← front, back]
    · cases read
  · cases read

theorem accessList_spelled {entries : List AccessListEntry}
    (read : readAccessList item = .ok entries) :
    item = (accessListItem entries).encode ↔ TidyAccessList item := by
  unfold readAccessList at read
  split at read
  · have each := mapM_spelled (fun entry => entry.item.encode) TidyEntry (mapError_eq_ok read)
      fun entry member value read => entry_spelled (Rlp.whole_of_mem_items member) read
    rw [accessListItem, whole.eq_encode_list_iff, List.map_map, TidyAccessList]
    exact and_congr_right fun _ => each
  · cases read

end

/-! ## Fields -/

theorem lift_eq_ok {Value : Type} {read : Except Rlp.DecodeError Value} {value : Value}
    (finished : (liftM read : Except DecodeError Value) = .ok value) : read = .ok value :=
  mapError_eq_ok finished

theorem readSignature_eq_ok {yIsOdd : Bool} {r s : Bytes} {signature : Signature}
    (wholeR : Whole r) (wholeS : Whole s) (read : readSignature yIsOdd r s = .ok signature) :
    yIsOdd = signature.yIsOdd ∧ r = (Item.ofWord signature.r).encode ∧
      s = (Item.ofWord signature.s).encode := by
  obtain ⟨rValue, rRead, read⟩ := bind_eq_ok read
  obtain ⟨sValue, sRead, read⟩ := bind_eq_ok read
  split at read
  · cases read
  · split at read
    · cases read
    · cases read
      exact ⟨rfl, Rlp.readWord_eq_ok wholeR (lift_eq_ok rRead),
        Rlp.readWord_eq_ok wholeS (lift_eq_ok sRead)⟩

theorem v_eq_ok {item : Bytes} {number : UInt64} {yIsOdd : Bool} {chainId : Option UInt64}
    (gasPrice : Word) (whole : Whole item) (read : Rlp.readUInt64 item = .ok number)
    (parity : splitV number = .ok (yIsOdd, chainId)) :
    item = (Item.ofNat ((Form.legacy chainId gasPrice).v yIsOdd)).encode := by
  rw [Rlp.readUInt64_eq_ok whole read, Item.ofUInt64, (splitV_eq_ok_iff gasPrice).mp parity]

theorem parity_eq_ok {item : Bytes} {number : UInt64} {yIsOdd : Bool} (whole : Whole item)
    (read : Rlp.readUInt64 item = .ok number) (parity : parityOf number = .ok yIsOdd) :
    item = (Item.ofNat yIsOdd.toNat).encode := by
  rw [Rlp.readUInt64_eq_ok whole read, Item.ofUInt64, parityOf_eq_ok_iff.mp parity]

/-- The fields end in the signature, and those in front of it are the canonical ones if they are
tidy. -/
def Spells (kind : Kind) (fields : List Bytes) (unsigned : Unsigned) (signature : Signature) :
    Prop :=
  ∃ front, fields = front ++ (unsigned.signatureItems signature).map Item.encode ∧
    (front = unsigned.items.map Item.encode ↔ TidyFields kind fields)

section

variable {raw : Bytes} {fields : List Bytes} {transaction : Transaction}

/-! The sender plays no part here: it is recovered from the fields as they came. -/

theorem ofLegacyFields_eq_ok (whole : ∀ field ∈ fields, Whole field)
    (read : ofLegacyFields raw fields = .ok transaction) :
    ∃ unsigned signature, unsigned.form.kind = .legacy ∧
      transaction = unsigned.transaction transaction.sender (keccak256 raw) ∧
      Spells .legacy fields unsigned signature := by
  unfold ofLegacyFields at read
  split at read
  · rename_i nonce gasPrice gasLimit recipient value data v r s
    obtain ⟨price, priceRead, read⟩ := bind_eq_ok read
    obtain ⟨number, vRead, read⟩ := bind_eq_ok read
    obtain ⟨⟨yIsOdd, chainId⟩, parity, read⟩ := bind_eq_ok read
    obtain ⟨signature, signatureRead, read⟩ := bind_eq_ok read
    obtain ⟨sender, _, read⟩ := bind_eq_ok read
    obtain ⟨count, nonceRead, read⟩ := bind_eq_ok read
    obtain ⟨limit, gasLimitRead, read⟩ := bind_eq_ok read
    obtain ⟨called, recipientRead, read⟩ := bind_eq_ok read
    obtain ⟨amount, valueRead, read⟩ := bind_eq_ok read
    obtain ⟨bytes, dataRead, read⟩ := bind_eq_ok read
    cases read
    simp only [List.forall_mem_cons] at whole
    obtain ⟨nonceWhole, priceWhole, gasLimitWhole, recipientWhole, valueWhole, dataWhole, vWhole,
      rWhole, sWhole, _⟩ := whole
    obtain ⟨rfl, rfl, rfl⟩ := readSignature_eq_ok rWhole sWhole signatureRead
    obtain rfl := Rlp.readUInt64_eq_ok nonceWhole (lift_eq_ok nonceRead)
    obtain rfl := Rlp.readWord_eq_ok priceWhole (lift_eq_ok priceRead)
    obtain rfl := Rlp.readUInt64_eq_ok gasLimitWhole (lift_eq_ok gasLimitRead)
    obtain rfl := Rlp.readWord_eq_ok valueWhole (lift_eq_ok valueRead)
    obtain ⟨_, rfl⟩ := Rlp.readData_eq_ok dataWhole (lift_eq_ok dataRead)
    obtain rfl := v_eq_ok price vWhole (lift_eq_ok vRead) parity
    have free := recipient_spelled recipientWhole recipientRead
    refine ⟨⟨.legacy chainId price, count, limit, called, amount, bytes⟩, signature, rfl, rfl,
      [_, _, _, recipient, _, _], rfl, ?_⟩
    simp [Unsigned.items, TidyFields, Kind.recipientPlace, Kind.accessListPlace, free]
  · cases read

theorem ofAccessListFields_eq_ok (whole : ∀ field ∈ fields, Whole field)
    (read : ofAccessListFields raw fields = .ok transaction) :
    ∃ unsigned signature, unsigned.form.kind = .accessList ∧
      transaction = unsigned.transaction transaction.sender (keccak256 raw) ∧
      Spells .accessList fields unsigned signature := by
  unfold ofAccessListFields at read
  split at read
  · rename_i chainId nonce gasPrice gasLimit recipient value data accessList yParity r s
    obtain ⟨number, parityRead, read⟩ := bind_eq_ok read
    obtain ⟨yIsOdd, parity, read⟩ := bind_eq_ok read
    obtain ⟨signature, signatureRead, read⟩ := bind_eq_ok read
    obtain ⟨sender, _, read⟩ := bind_eq_ok read
    obtain ⟨price, priceRead, read⟩ := bind_eq_ok read
    obtain ⟨chain, chainRead, read⟩ := bind_eq_ok read
    obtain ⟨count, nonceRead, read⟩ := bind_eq_ok read
    obtain ⟨limit, gasLimitRead, read⟩ := bind_eq_ok read
    obtain ⟨called, recipientRead, read⟩ := bind_eq_ok read
    obtain ⟨amount, valueRead, read⟩ := bind_eq_ok read
    obtain ⟨bytes, dataRead, read⟩ := bind_eq_ok read
    obtain ⟨entries, accessListRead, read⟩ := bind_eq_ok read
    cases read
    simp only [List.forall_mem_cons] at whole
    obtain ⟨chainWhole, nonceWhole, priceWhole, gasLimitWhole, recipientWhole, valueWhole,
      dataWhole, accessListWhole, parityWhole, rWhole, sWhole, _⟩ := whole
    obtain ⟨rfl, rfl, rfl⟩ := readSignature_eq_ok rWhole sWhole signatureRead
    obtain rfl := Rlp.readUInt64_eq_ok chainWhole (lift_eq_ok chainRead)
    obtain rfl := Rlp.readUInt64_eq_ok nonceWhole (lift_eq_ok nonceRead)
    obtain rfl := Rlp.readWord_eq_ok priceWhole (lift_eq_ok priceRead)
    obtain rfl := Rlp.readUInt64_eq_ok gasLimitWhole (lift_eq_ok gasLimitRead)
    obtain rfl := Rlp.readWord_eq_ok valueWhole (lift_eq_ok valueRead)
    obtain ⟨_, rfl⟩ := Rlp.readData_eq_ok dataWhole (lift_eq_ok dataRead)
    obtain rfl := parity_eq_ok parityWhole (lift_eq_ok parityRead) parity
    have freeRecipient := recipient_spelled recipientWhole recipientRead
    have freeList := accessList_spelled accessListWhole accessListRead
    refine ⟨⟨.accessList chain price entries, count, limit, called, amount, bytes⟩, signature, rfl,
      rfl, [_, _, _, _, recipient, _, _, accessList], rfl, ?_⟩
    simp [Unsigned.items, TidyFields, Kind.recipientPlace, Kind.accessListPlace, freeRecipient,
      freeList]
  · cases read

theorem ofDynamicFeeFields_eq_ok (whole : ∀ field ∈ fields, Whole field)
    (read : ofDynamicFeeFields raw fields = .ok transaction) :
    ∃ unsigned signature, unsigned.form.kind = .dynamicFee ∧
      transaction = unsigned.transaction transaction.sender (keccak256 raw) ∧
      Spells .dynamicFee fields unsigned signature := by
  unfold ofDynamicFeeFields at read
  split at read
  · rename_i chainId nonce maxPriorityFee maxFee gasLimit recipient value data accessList yParity
      r s
    obtain ⟨number, parityRead, read⟩ := bind_eq_ok read
    obtain ⟨yIsOdd, parity, read⟩ := bind_eq_ok read
    obtain ⟨signature, signatureRead, read⟩ := bind_eq_ok read
    obtain ⟨sender, _, read⟩ := bind_eq_ok read
    obtain ⟨tip, tipRead, read⟩ := bind_eq_ok read
    obtain ⟨cap, capRead, read⟩ := bind_eq_ok read
    obtain ⟨chain, chainRead, read⟩ := bind_eq_ok read
    obtain ⟨count, nonceRead, read⟩ := bind_eq_ok read
    obtain ⟨limit, gasLimitRead, read⟩ := bind_eq_ok read
    obtain ⟨called, recipientRead, read⟩ := bind_eq_ok read
    obtain ⟨amount, valueRead, read⟩ := bind_eq_ok read
    obtain ⟨bytes, dataRead, read⟩ := bind_eq_ok read
    obtain ⟨entries, accessListRead, read⟩ := bind_eq_ok read
    cases read
    simp only [List.forall_mem_cons] at whole
    obtain ⟨chainWhole, nonceWhole, tipWhole, capWhole, gasLimitWhole, recipientWhole, valueWhole,
      dataWhole, accessListWhole, parityWhole, rWhole, sWhole, _⟩ := whole
    obtain ⟨rfl, rfl, rfl⟩ := readSignature_eq_ok rWhole sWhole signatureRead
    obtain rfl := Rlp.readUInt64_eq_ok chainWhole (lift_eq_ok chainRead)
    obtain rfl := Rlp.readUInt64_eq_ok nonceWhole (lift_eq_ok nonceRead)
    obtain rfl := Rlp.readWord_eq_ok tipWhole (lift_eq_ok tipRead)
    obtain rfl := Rlp.readWord_eq_ok capWhole (lift_eq_ok capRead)
    obtain rfl := Rlp.readUInt64_eq_ok gasLimitWhole (lift_eq_ok gasLimitRead)
    obtain rfl := Rlp.readWord_eq_ok valueWhole (lift_eq_ok valueRead)
    obtain ⟨_, rfl⟩ := Rlp.readData_eq_ok dataWhole (lift_eq_ok dataRead)
    obtain rfl := parity_eq_ok parityWhole (lift_eq_ok parityRead) parity
    have freeRecipient := recipient_spelled recipientWhole recipientRead
    have freeList := accessList_spelled accessListWhole accessListRead
    refine ⟨⟨.dynamicFee chain tip cap entries, count, limit, called, amount, bytes⟩, signature,
      rfl, rfl, [_, _, _, _, _, recipient, _, _, accessList], rfl, ?_⟩
    simp [Unsigned.items, TidyFields, Kind.recipientPlace, Kind.accessListPlace, freeRecipient,
      freeList]
  · cases read

theorem fieldsOf_eq_ok {body : Bytes} (read : fieldsOf body = .ok fields) :
    Whole body ∧ fields = Rlp.items body := by
  unfold fieldsOf at read
  split at read
  · obtain ⟨extent, found, read⟩ := bind_eq_ok read
    split at read
    · rename_i size
      cases read
      exact ⟨⟨extent, lift_eq_ok found, size⟩, rfl⟩
    · cases read
  · cases read

/-- Bytes that are read are a type and one list of fields. -/
theorem decode_eq_ok (decoded : decode raw = .ok transaction) :
    ∃ kind : Kind, raw = kind.typeBytes ++ kind.body raw ∧ Whole (kind.body raw) ∧
      ofFields kind raw (Rlp.items (kind.body raw)) = .ok transaction := by
  cases raw with
  | nil => cases decoded
  | cons first body =>
      unfold decode at decoded
      dsimp only at decoded
      split at decoded
      · obtain ⟨fields, found, read⟩ := bind_eq_ok decoded
        obtain ⟨whole, rfl⟩ := fieldsOf_eq_ok found
        exact ⟨.legacy, rfl, whole, read⟩
      split at decoded
      · rename_i typed
        obtain ⟨fields, found, read⟩ := bind_eq_ok decoded
        obtain ⟨whole, rfl⟩ := fieldsOf_eq_ok found
        exact ⟨.accessList, by rw [typed]; rfl, whole, read⟩
      split at decoded
      · rename_i typed
        obtain ⟨fields, found, read⟩ := bind_eq_ok decoded
        obtain ⟨whole, rfl⟩ := fieldsOf_eq_ok found
        exact ⟨.dynamicFee, by rw [typed]; rfl, whole, read⟩
      · cases decoded

theorem Unsigned.kind_transaction (unsigned : Unsigned) (sender : Address) (hash : Hash) :
    (unsigned.transaction sender hash).kind = unsigned.form.kind := by
  obtain ⟨form, _, _, _, _, _⟩ := unsigned
  cases form <;> rfl

theorem ofFields_eq_ok {kind : Kind} (whole : ∀ field ∈ fields, Whole field)
    (read : ofFields kind raw fields = .ok transaction) :
    ∃ unsigned signature, unsigned.form.kind = kind ∧
      transaction = unsigned.transaction transaction.sender (keccak256 raw) ∧
      Spells kind fields unsigned signature := by
  cases kind with
  | legacy => exact ofLegacyFields_eq_ok whole read
  | accessList => exact ofAccessListFields_eq_ok whole read
  | dynamicFee => exact ofDynamicFeeFields_eq_ok whole read

/-- Bytes that are read as a transaction hold its signature, and they are the envelope of what was
read exactly if they are tidy. -/
theorem eq_envelope_iff (raw : Bytes) (transaction : Transaction)
    (decoded : decode raw = .ok transaction) :
    ∃ (unsigned : Unsigned) (signature : Signature) (front : List Bytes),
      transaction = unsigned.transaction transaction.sender (keccak256 raw) ∧
      Rlp.items (transaction.kind.body raw) =
        front ++ (unsigned.signatureItems signature).map Item.encode ∧
      (raw = unsigned.envelope signature ↔ Tidy transaction.kind raw) := by
  obtain ⟨kind, split, whole, read⟩ := decode_eq_ok decoded
  obtain ⟨unsigned, signature, kind_eq, shown, front, fields, canonical⟩ :=
    ofFields_eq_ok (fun _ member => Rlp.whole_of_mem_items member) read
  have kind_transaction : transaction.kind = kind := by
    rw [shown, unsigned.kind_transaction, kind_eq]
  rw [kind_transaction]
  refine ⟨unsigned, signature, front, shown, fields, ?_⟩
  have body_eq : raw = unsigned.envelope signature ↔
      kind.body raw = (unsigned.signedItem signature).encode := by
    unfold Unsigned.envelope
    rw [kind_eq]
    constructor
    · intro same
      exact List.append_cancel_left (split.symm.trans same)
    · intro same
      rw [← same]
      exact split
  have fields_eq : Rlp.items (kind.body raw) =
      (unsigned.items ++ unsigned.signatureItems signature).map Item.encode ↔
        TidyFields kind (Rlp.items (kind.body raw)) := by
    rw [← canonical, fields, List.map_append, List.append_left_inj]
  rw [body_eq, Unsigned.signedItem, whole.eq_encode_list_iff, fields_eq, Tidy]

end

/-! A legacy payment with a byte behind its last field that starts no item. -/

namespace Padded

def payment : Unsigned where
  form := .legacy (some 1) 0
  nonce := 0
  gasLimit := 21000
  recipient := some 0xaa
  value := 1
  data := []

def signature : Signature where
  yIsOdd := true
  r := 0x689769a1ecb3b60718535ce047db342b90828e2f504facf470aedee99a044fb8
  s := 0x746081c88729fd14270714bbf0dbb9843e4981d4371031ea02ce28771636a00c

def sender : Address :=
  0x7e5f4552091a69125d5dfcb7b8c2659029395bdf

def raw : Bytes :=
  Rlp.encodeList (Rlp.encodeAll (payment.items ++ payment.signatureItems signature) ++ [0x81])

theorem not_filled : ¬Filled raw := by
  decide +kernel

theorem raw_ne_envelope :
    decode (payment.envelope signature) =
        .ok (payment.transaction sender (keccak256 (payment.envelope signature))) ∧
      decode raw = .ok (payment.transaction sender (keccak256 raw)) ∧
      ∃ (unsigned : Unsigned) (carried : Signature) (front : List Bytes),
        payment.transaction sender (keccak256 raw) = unsigned.transaction sender (keccak256 raw) ∧
        Rlp.items raw = front ++ (unsigned.signatureItems carried).map Item.encode ∧
        raw ≠ unsigned.envelope carried := by
  have canonical_decoded : decode (payment.envelope signature) =
      .ok (payment.transaction sender (keccak256 (payment.envelope signature))) := by
    decide +kernel
  have decoded : decode raw = .ok (payment.transaction sender (keccak256 raw)) := by
    decide +kernel
  obtain ⟨unsigned, carried, front, shown, fields, canonical⟩ :=
    eq_envelope_iff raw (payment.transaction sender (keccak256 raw)) decoded
  exact ⟨canonical_decoded, decoded, unsigned, carried, front, shown, fields,
    fun same => not_filled (canonical.mp same).1⟩

end Padded

end ExecutionLayer.Transaction
