import ExecutionLayer.Proofs.Results
import ExecutionLayer.Proofs.Rlp.Values

/-!
# What was read is what was encoded

Bytes that are one item and nothing else are a header and a payload, and a header has one form.
So a value that is read from a data item is encoded as that item, and the items of a list make
up the list where nothing stands behind the last of them.
-/

set_option autoImplicit false

namespace ExecutionLayer.Rlp

/-- The bytes are one item and nothing else. -/
def Whole (item : Bytes) : Prop :=
  ∃ found, extent item = .ok found ∧ found.size = item.length

/-! ## Headers -/

section

variable {first : UInt8} {bytes rest item : Bytes} {found : Extent} {width : Nat}

/-- A length in bytes of its own is in its shortest form. -/
theorem longExtent_eq_ok (least : 1 ≤ width) (read : longExtent width rest = .ok found) :
    55 < found.payload ∧ found.header = 1 + width ∧
      (Bytes.ofNat found.payload).length = width ∧
      ∃ more, rest = Bytes.ofNat found.payload ++ more := by
  cases rest with
  | nil => cases read
  | cons lead others =>
      unfold longExtent at read
      dsimp only at read
      by_cases zero : lead = 0
      · rw [if_pos zero] at read
        cases read
      by_cases missing : (lead :: others).length < width
      · rw [if_neg zero, if_pos missing] at read
        cases read
      by_cases brief : Bytes.toNat ((lead :: others).take width) ≤ 55
      · rw [if_neg zero, if_neg missing, if_pos brief] at read
        cases read
      rw [if_neg zero, if_neg missing, if_neg brief] at read
      cases read
      have leading : ((lead :: others).take width).head? ≠ some 0 := by
        obtain ⟨fewer, rfl⟩ := Nat.exists_eq_add_of_le' least
        rw [List.take_succ_cons, List.head?_cons]
        exact fun same => zero (Option.some.inj same)
      have shortest := Bytes.ofNat_toNat leading
      refine ⟨Nat.lt_of_not_le brief, rfl, ?_, (lead :: others).drop width, ?_⟩
      · rw [shortest, List.length_take]
        omega
      · rw [shortest, List.take_append_drop]

/-- The bytes start with the header that an extent's payload has among items of a kind. -/
structure Headed (short : Nat) (bytes : Bytes) (found : Extent) : Prop where
  kind : short = 0x80 ∨ short = 0xC0
  payload_lt : found.payload < 2 ^ 64
  header_eq : found.header = (header short found.payload).length
  starts : header short found.payload <+: bytes

theorem headed_of_short {short length : Nat} (kind : short = 0x80 ∨ short = 0xC0)
    (value : first.toNat = short + length) (brief : length ≤ 55) :
    Headed short (first :: rest) ⟨1, length⟩ := by
  have shown : header short length = [first] := by
    rw [header, if_pos brief, ← value, UInt8.ofNat_toNat]
  refine ⟨kind, by dsimp only; omega, ?_, ?_⟩
  · rw [shown, List.length_singleton]
  · rw [shown]
    exact List.prefix_append [first] rest

theorem headed_of_long {short : Nat} (kind : short = 0x80 ∨ short = 0xC0)
    (value : first.toNat = short + 55 + width) (least : 1 ≤ width) (small : width ≤ 8)
    (announced : longExtent width rest = .ok found) : Headed short (first :: rest) found := by
  obtain ⟨above, headed, length, more, rfl⟩ := longExtent_eq_ok least announced
  have shown : header short found.payload = first :: Bytes.ofNat found.payload := by
    rw [header, if_neg (Nat.not_le.mpr above)]
    dsimp only
    rw [length, ← value, UInt8.ofNat_toNat]
  have bound := Bytes.lt_pow_length_ofNat found.payload
  rw [length] at bound
  refine ⟨kind, bound.trans_le (Nat.pow_le_pow_right (by decide) small), ?_, ?_⟩
  · rw [headed, shown, List.length_cons, length, Nat.add_comm]
  · rw [shown, ← List.cons_append]
    exact List.prefix_append _ more

/-- A header byte and the bytes behind it announce one byte, or the payload of a header in its
only form. -/
theorem announcedExtent_eq_ok (read : announcedExtent first rest = .ok found) :
    (first < 0x80 ∧ found = ⟨0, 1⟩) ∨ ∃ short, Headed short (first :: rest) found := by
  have most := first.toNat_lt
  simp only [announcedExtent, UInt8.le_iff_toNat_le, UInt8.reduceToNat] at read
  by_cases self : first.toNat ≤ 127
  · rw [if_pos self] at read
    exact .inl ⟨UInt8.lt_iff_toNat_lt.mpr (Nat.lt_succ_of_le self), (Except.ok.inj read).symm⟩
  by_cases shortData : first.toNat ≤ 183
  · rw [if_neg self, if_pos shortData] at read
    cases read
    exact .inr ⟨0x80, headed_of_short (.inl rfl) (by omega) (by omega)⟩
  by_cases longData : first.toNat ≤ 191
  · rw [if_neg self, if_neg shortData, if_pos longData] at read
    exact .inr ⟨0x80, headed_of_long (.inl rfl) (by omega) (by omega) (by omega) read⟩
  by_cases shortList : first.toNat ≤ 247
  · rw [if_neg self, if_neg shortData, if_neg longData, if_pos shortList] at read
    cases read
    exact .inr ⟨0xC0, headed_of_short (.inr rfl) (by omega) (by omega)⟩
  · rw [if_neg self, if_neg shortData, if_neg longData, if_neg shortList] at read
    exact .inr ⟨0xC0, headed_of_long (.inr rfl) (by omega) (by omega) (by omega) read⟩

theorem extent_eq_ok (read : extent bytes = .ok found) :
    (∃ byte rest, byte < 0x80 ∧ bytes = byte :: rest ∧ found = ⟨0, 1⟩) ∨
      ∃ short, Headed short bytes found := by
  cases bytes with
  | nil => cases read
  | cons first rest =>
      unfold extent at read
      dsimp only at read
      cases announced : announcedExtent first rest with
      | error error =>
          rw [announced] at read
          cases read
      | ok extent =>
          rw [announced] at read
          dsimp only at read
          split at read
          · cases read
            rcases announcedExtent_eq_ok announced with ⟨small, rfl⟩ | heads
            · exact .inl ⟨first, rest, small, rfl, rfl⟩
            · exact .inr heads
          · cases read

/-- An item is a byte that stands for itself, or a header and a payload. -/
theorem Whole.cases (whole : Whole item) :
    (∃ byte, byte < 0x80 ∧ item = [byte]) ∨
      ∃ short payload, (short = 0x80 ∨ short = 0xC0) ∧ payload.length < 2 ^ 64 ∧
        item = header short payload.length ++ payload := by
  obtain ⟨found, read, size⟩ := whole
  rcases extent_eq_ok read with
    ⟨byte, rest, small, rfl, rfl⟩ | ⟨short, kind, fits, headed, more, rfl⟩
  · have none : rest = [] := List.eq_nil_of_length_eq_zero (Nat.succ.inj size.symm)
    rw [none]
    exact .inl ⟨byte, small, rfl⟩
  · have length : found.payload = more.length := by
      rw [Extent.size, headed, List.length_append] at size
      omega
    rw [length] at fits ⊢
    exact .inr ⟨short, more, kind, fits, rfl⟩

/-! ## Items one after another -/

theorem extent_take (read : extent bytes = .ok found) :
    extent (bytes.take found.size) = .ok found := by
  have within := extent_size_le read
  rcases extent_eq_ok read with
    ⟨byte, others, small, rfl, rfl⟩ | ⟨short, kind, fits, headed, more, rfl⟩
  · exact extent_of_announced _ (announced_self _ small) (Nat.le_add_left _ _)
  · obtain ⟨head, payload⟩ := found
    dsimp only at headed fits within ⊢
    subst headed
    simp only [Extent.size, List.length_append] at within ⊢
    rw [List.take_length_add_append]
    apply extent_header _ kind fits
    rw [List.length_take]
    omega

/-- What is split off the front of bytes is one item each. -/
theorem whole_of_mem_itemsOf (member : item ∈ itemsOf bytes) : Whole item := by
  induction bytes using itemsOf.induct with
  | case1 bytes error failed =>
      rw [itemsOf] at member
      split at member
      · cases member
      · rename_i read
        rw [failed] at read
        cases read
  | case2 bytes found read ih =>
      rw [itemsOf_of_extent read] at member
      rcases List.mem_cons.mp member with rfl | later
      · refine ⟨found, extent_take read, ?_⟩
        rw [List.length_take, Nat.min_eq_left (extent_size_le read)]
      · exact ih later

theorem whole_of_mem_items {list : Bytes} (member : item ∈ items list) : Whole item := by
  unfold items at member
  split at member
  · split at member
    · cases member
    · exact whole_of_mem_itemsOf member
  · cases member

end

/-! ## Kinds -/

section

variable {item bytes payload : Bytes} {short : Nat}

theorem payload_header (kind : short = 0x80 ∨ short = 0xC0) (fits : payload.length < 2 ^ 64) :
    Rlp.payload (header short payload.length ++ payload) = .ok payload := by
  unfold Rlp.payload
  rw [extent_header payload kind fits (Nat.le_refl _)]
  simp [pure, Except.pure, bind, Except.bind]

theorem isList_header (kind : short = 0x80 ∨ short = 0xC0) (fits : payload.length < 2 ^ 64) :
    isList (header short payload.length ++ payload) = decide (short = 0xC0) := by
  obtain ⟨first, rest, shown, least, most⟩ := header_first kind fits
  rw [shown, List.cons_append, isList_cons]
  apply decide_eq_decide.mpr
  rcases kind with rfl | rfl <;> omega

theorem Whole.of_isList (whole : Whole item) (list : isList item = true) :
    ∃ payload, payload.length < 2 ^ 64 ∧ item = encodeList payload ∧
      Rlp.payload item = .ok payload := by
  rcases whole.cases with ⟨byte, small, rfl⟩ | ⟨short, payload, kind, fits, rfl⟩
  · have under := UInt8.lt_iff_toNat_lt.mp small
    rw [isList_cons] at list
    have least := of_decide_eq_true list
    simp only [UInt8.reduceToNat] at under
    omega
  · rw [isList_header kind fits] at list
    cases of_decide_eq_true list
    exact ⟨payload, fits, rfl, payload_header kind fits⟩

/-- A data item is the one of its string, but for a small byte behind a header of its own. -/
theorem Whole.of_not_isList (whole : Whole item) (data : isList item = false) :
    ∃ bytes, bytes.length < 2 ^ 64 ∧ Rlp.payload item = .ok bytes ∧
      (item = encodeData bytes ∨ ∃ byte, byte < 0x80 ∧ bytes = [byte] ∧ item = [0x81, byte]) := by
  rcases whole.cases with ⟨byte, small, rfl⟩ | ⟨short, bytes, kind, fits, rfl⟩
  · have read : encodeData [byte] = [byte] := if_pos small
    refine ⟨[byte], Nat.one_lt_two_pow (by decide), ?_, .inl read.symm⟩
    have payload : Rlp.payload (Item.data [byte]).encode = .ok [byte] :=
      Item.payload_encode (Nat.one_lt_two_pow (by decide))
    rw [Item.encode, read] at payload
    exact payload
  · rw [isList_header kind fits] at data
    have dataKind : short = 0x80 := kind.resolve_right (of_decide_eq_false data)
    subst dataKind
    refine ⟨bytes, fits, payload_header kind fits, ?_⟩
    rcases dataHead_cases bytes with ⟨byte, small, rfl, _⟩ | headed
    · exact .inr ⟨byte, small, rfl, rfl⟩
    · rw [encodeData_eq, headed]
      exact .inl rfl

end

/-! ## Values -/

section

variable {item bytes : Bytes}

theorem readData_eq_ok (whole : Whole item) (read : readData item = .ok bytes) :
    bytes.length < 2 ^ 64 ∧ item = (Item.data bytes).encode := by
  unfold readData at read
  cases kind : isList item with
  | true =>
      rw [kind] at read
      cases read
  | false =>
      obtain ⟨found, fits, payload, encoded⟩ := whole.of_not_isList kind
      rw [kind, payload] at read
      simp only [Bool.false_eq_true, if_false, bind, Except.bind] at read
      rcases encoded with rfl | ⟨byte, small, rfl, rfl⟩
      · have same : found = bytes := by
          split at read
          · split at read
            · cases read
            · exact Except.ok.inj read
          · exact Except.ok.inj read
        subst same
        exact ⟨fits, rfl⟩
      · simp only [List.head?_cons, if_pos small] at read
        cases read

theorem readUInt64_eq_ok (whole : Whole item) {value : UInt64}
    (read : readUInt64 item = .ok value) : item = (Item.ofUInt64 value).encode := by
  obtain ⟨bytes, data, read⟩ := bind_eq_ok read
  by_cases long : bytes.length > 8
  · rw [if_pos long] at read
    cases read
  by_cases leading : bytes.head? = some 0
  · rw [if_neg long, if_pos leading] at read
    cases read
  rw [if_neg long, if_neg leading] at read
  cases read
  have bound : Bytes.toNat bytes < 2 ^ 64 := (Bytes.toNat_lt_pow bytes).trans_le
    (Nat.pow_le_pow_right (by decide) (Nat.le_of_not_lt long))
  rw [(readData_eq_ok whole data).2, Item.ofUInt64, Item.ofNat, UInt64.toNat_ofNat_of_lt' bound,
    Bytes.ofNat_toNat leading]

theorem readWord_eq_ok (whole : Whole item) {word : Word} (read : readWord item = .ok word) :
    item = (Item.ofWord word).encode := by
  obtain ⟨bytes, data, read⟩ := bind_eq_ok read
  by_cases leading : bytes.head? = some 0
  · rw [if_pos leading] at read
    cases read
  by_cases long : bytes.length > 32
  · rw [if_neg leading, if_pos long] at read
    cases read
  rw [if_neg leading, if_neg long] at read
  cases read
  have bound : Bytes.toNat bytes < 2 ^ 256 := (Bytes.toNat_lt_pow bytes).trans_le
    (Nat.pow_le_pow_right (by decide) (Nat.le_of_not_lt long))
  rw [(readData_eq_ok whole data).2, Item.ofWord, Item.ofNat, BitVec.toNat_ofNat,
    Nat.mod_eq_of_lt bound, Bytes.ofNat_toNat leading]

theorem readFixed_eq_ok (whole : Whole item) {length : Nat}
    (read : readFixed length item = .ok bytes) :
    bytes.length = length ∧ item = (Item.data bytes).encode := by
  obtain ⟨found, data, read⟩ := bind_eq_ok read
  by_cases short : found.length < length
  · rw [if_pos short] at read
    cases read
  by_cases long : found.length > length
  · rw [if_neg short, if_pos long] at read
    cases read
  rw [if_neg short, if_neg long] at read
  cases read
  exact ⟨by omega, (readData_eq_ok whole data).2⟩

theorem readAddress_eq_ok (whole : Whole item) {address : Address}
    (read : readAddress item = .ok address) : item = (Item.ofAddress address).encode := by
  unfold readAddress at read
  cases fixed : readFixed 20 item with
  | error error =>
      rw [fixed] at read
      cases read
  | ok bytes =>
      rw [fixed] at read
      cases read
      obtain ⟨length, encoded⟩ := readFixed_eq_ok whole fixed
      rw [Item.ofAddress, Address.toBytes_ofBytes length, encoded]

theorem readHash_eq_ok (whole : Whole item) {hash : Hash} (read : readHash item = .ok hash) :
    item = (Item.ofHash hash).encode := by
  unfold readHash at read
  cases fixed : readFixed 32 item with
  | error error =>
      rw [fixed] at read
      cases read
  | ok bytes =>
      rw [fixed] at read
      cases read
      obtain ⟨length, encoded⟩ := readFixed_eq_ok whole fixed
      rw [Item.ofHash, Hash.toBytes_ofBytes length, encoded]

end

/-! ## Lists -/

/-- A list whose items fill it: nothing stands behind the last of them. -/
def Filled (list : Bytes) : Prop :=
  isList list = true ∧ (payload list).toOption = some (items list).flatten

instance (list : Bytes) : Decidable (Filled list) :=
  inferInstanceAs (Decidable (_ ∧ _))

theorem filled_list {items : List Item} (fits : (encodeAll items).length < 2 ^ 64) :
    Filled (Item.list items).encode := by
  have read : payload (Item.list items).encode = .ok (encodeAll items) := Item.payload_encode fits
  refine ⟨isList_list fits, ?_⟩
  rw [read, items_list fits, encodeAll_eq_flatten]
  rfl

theorem Whole.fits_encodeList {payload : Bytes} (whole : Whole (encodeList payload)) :
    payload.length < 2 ^ 64 := by
  rcases whole.cases with ⟨byte, _, single⟩ | ⟨short, other, _, fits, same⟩
  · have lengths := congrArg List.length single
    rw [encodeList, List.length_append, List.length_singleton] at lengths
    omega
  · apply Nat.lt_of_not_le
    intro large
    -- The header of so long a payload would not be shorter than the one the item has.
    have lengths := congrArg List.length same
    have headers := length_header_mono 0xC0 (fits.le.trans large)
    have kinds : (header 0xC0 other.length).length = (header short other.length).length := by
      unfold header
      split <;> rfl
    rw [encodeList, List.length_append, List.length_append] at lengths
    omega

/-- A list is the encoded one of some items if it has them and they fill it. -/
theorem Whole.eq_encode_list_iff {list : Bytes} (whole : Whole list) {written : List Item} :
    list = (Item.list written).encode ↔
      Filled list ∧ items list = written.map Item.encode := by
  constructor
  · rintro rfl
    have fits : (encodeAll written).length < 2 ^ 64 := whole.fits_encodeList
    exact ⟨filled_list fits, items_list fits⟩
  · rintro ⟨⟨kind, contents⟩, found⟩
    obtain ⟨payload, _, spelled, read⟩ := whole.of_isList kind
    rw [read, found, ← encodeAll_eq_flatten] at contents
    rw [spelled, Item.encode, Option.some.inj contents]

end ExecutionLayer.Rlp
