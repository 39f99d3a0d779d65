import ExecutionLayer.Rlp.Item

/-!
# Reading encoded items

An encoded item is read where it stands: its header tells where its payload
begins and ends, a list is split into the encoded items in its payload, and a
data item is read as the kind of value that its place calls for.
-/

set_option autoImplicit false

namespace ExecutionLayer.Rlp

/-- Why bytes are no item, or an item is no value of the kind that was asked for. -/
inductive DecodeError where
  /-- The bytes end before the item does, or the value has too few bytes. -/
  | tooShort
  | tooLong
  /-- A length in bytes of its own starts with a zero byte. -/
  | zeroLengthPrefix
  | notMinimal
  | expectedList
  | expectedData
  | wrongItemCount
deriving DecidableEq, Repr, Inhabited

def DecodeError.message : DecodeError → String
  | .tooShort => "RlpIsTooShort"
  | .tooLong => "RlpIsTooBig"
  | .zeroLengthPrefix => "RlpDataLenWithZeroPrefix"
  | .notMinimal => "RlpInvalidIndirection"
  | .expectedList => "RlpExpectedToBeList"
  | .expectedData => "RlpExpectedToBeData"
  | .wrongItemCount => "RlpIncorrectListLen"

/-! ## Extents -/

/-- How many bytes at the front belong to an item: first its header, then its payload. -/
structure Extent where
  header : Nat
  payload : Nat
deriving DecidableEq

def Extent.size (extent : Extent) : Nat :=
  extent.header + extent.payload

/-- The extent of an item whose payload length stands in `width` bytes behind the first. -/
def longExtent (width : Nat) (rest : Bytes) : Except DecodeError Extent :=
  match rest with
  | [] => .error .tooShort
  | first :: _ =>
      if first = 0 then .error .zeroLengthPrefix
      else if rest.length < width then .error .tooShort
      else
        let length := Bytes.toNat (rest.take width)
        if length ≤ 55 then .error .notMinimal else .ok ⟨1 + width, length⟩

/-- The extent that a header byte and the bytes behind it announce. -/
def announcedExtent (first : UInt8) (rest : Bytes) : Except DecodeError Extent :=
  if first ≤ 0x7F then .ok ⟨0, 1⟩
  else if first ≤ 0xB7 then .ok ⟨1, first.toNat - 0x80⟩
  else if first ≤ 0xBF then longExtent (first.toNat - 0xB7) rest
  else if first ≤ 0xF7 then .ok ⟨1, first.toNat - 0xC0⟩
  else longExtent (first.toNat - 0xF7) rest

/-- The extent of the item at the front of `bytes`, all of which must be there. -/
def extent (bytes : Bytes) : Except DecodeError Extent :=
  match bytes with
  | [] => .error .tooShort
  | first :: rest =>
      match announcedExtent first rest with
      | .error error => .error error
      | .ok extent => if extent.size ≤ bytes.length then .ok extent else .error .tooShort

private theorem longExtent_size_pos {width : Nat} {rest : Bytes} {extent : Extent}
    (read : longExtent width rest = .ok extent) : 0 < extent.size := by
  unfold longExtent at read
  split at read
  · cases read
  · split at read
    · cases read
    · split at read
      · cases read
      · simp only at read
        split at read
        · cases read
        · injection read with read
          subst read
          simp only [Extent.size]
          omega

theorem extent_size_pos {bytes : Bytes} {found : Extent} (read : extent bytes = .ok found) :
    0 < found.size := by
  unfold extent at read
  split at read
  · cases read
  · rename_i first rest
    split at read
    · cases read
    · rename_i announced announcement
      split at read
      · injection read with read
        subst read
        unfold announcedExtent at announcement
        split at announcement
        · injection announcement with announcement
          subst announcement
          simp [Extent.size]
        · split at announcement
          · injection announcement with announcement
            subst announcement
            simp only [Extent.size]
            omega
          · split at announcement
            · exact longExtent_size_pos announcement
            · split at announcement
              · injection announcement with announcement
                subst announcement
                simp only [Extent.size]
                omega
              · exact longExtent_size_pos announcement
      · cases read

theorem extent_size_le {bytes : Bytes} {found : Extent} (read : extent bytes = .ok found) :
    found.size ≤ bytes.length := by
  unfold extent at read
  split at read
  · cases read
  · split at read
    · cases read
    · split at read
      · rename_i fits
        injection read with read
        exact read ▸ fits
      · cases read

/-! ## Lists -/

def isList (item : Bytes) : Bool :=
  item.head?.any (0xC0 ≤ ·)

def payload (item : Bytes) : Except DecodeError Bytes := do
  let found ← extent item
  return (item.drop found.header).take found.payload

/-- The items one after another at the front of `bytes`, up to the first place where
there is none. Whatever stands from there on does not count. -/
def itemsOf (bytes : Bytes) : List Bytes :=
  match _read : extent bytes with
  | .error _ => []
  | .ok found => bytes.take found.size :: itemsOf (bytes.drop found.size)
termination_by bytes.length
decreasing_by
  have := extent_size_pos _read
  have := extent_size_le _read
  simp only [List.length_drop]
  omega

/-- The items of a list. An item that is no list has none. -/
def items (item : Bytes) : List Bytes :=
  if isList item then
    match payload item with
    | .error _ => []
    | .ok payload => itemsOf payload
  else []

/-! ## Values -/

/-- The string in a data item. A byte that stands for itself must do so. -/
def readData (item : Bytes) : Except DecodeError Bytes :=
  if isList item then .error .expectedData
  else do
    let bytes ← payload item
    match item.head?, bytes with
    | some 0x81, [byte] => if byte < 0x80 then .error .notMinimal else .ok bytes
    | _, _ => .ok bytes

/-- An unsigned 64-bit number without leading zero bytes. -/
def readUInt64 (item : Bytes) : Except DecodeError UInt64 := do
  let bytes ← readData item
  if bytes.length > 8 then .error .tooLong
  else if bytes.head? = some 0 then .error .notMinimal
  else .ok (UInt64.ofNat (Bytes.toNat bytes))

def readWord (item : Bytes) : Except DecodeError Word := do
  let bytes ← readData item
  if bytes.head? = some 0 then .error .notMinimal
  else if bytes.length > 32 then .error .tooLong
  else .ok (BitVec.ofNat 256 (Bytes.toNat bytes))

def readFixed (length : Nat) (item : Bytes) : Except DecodeError Bytes := do
  let bytes ← readData item
  if bytes.length < length then .error .tooShort
  else if bytes.length > length then .error .tooLong
  else .ok bytes

def readAddress (item : Bytes) : Except DecodeError Address :=
  (readFixed 20 item).map Address.ofBytes

def readHash (item : Bytes) : Except DecodeError Hash :=
  (readFixed 32 item).map Hash.ofBytes

end ExecutionLayer.Rlp
