import ExecutionLayer.Proofs.Rlp.Reading

/-!
# Items of values

Numbers, addresses and digests as data items: different values have different items, none of
which is long, and each value is read back from its item.
-/

set_option autoImplicit false

namespace ExecutionLayer

theorem Address.length_toBytes (address : Address) : address.toBytes.length = 20 :=
  Bytes.length_ofNatWidth 20 address.toNat

theorem Address.ofBytes_toBytes (address : Address) : ofBytes address.toBytes = address := by
  rw [ofBytes, toBytes, Bytes.toNat_ofNatWidth address.isLt, BitVec.ofNat_toNat,
    BitVec.setWidth_eq]

theorem Address.toBytes_ofBytes {bytes : Bytes} (length : bytes.length = 20) :
    (ofBytes bytes).toBytes = bytes := by
  have bound : Bytes.toNat bytes < 2 ^ 160 :=
    (Bytes.toNat_lt_pow bytes).trans_le (by rw [length]; decide)
  rw [toBytes, ofBytes, BitVec.toNat_ofNat, Nat.mod_eq_of_lt bound, ← length,
    Bytes.ofNatWidth_toNat]

theorem Hash.toBytes_ofBytes {bytes : Bytes} (length : bytes.length = 32) :
    (ofBytes bytes).toBytes = bytes := by
  have bound : Bytes.toNat bytes < 2 ^ 256 :=
    (Bytes.toNat_lt_pow bytes).trans_le (by rw [length]; decide)
  rw [toBytes, ofBytes, BitVec.toNat_ofNat, Nat.mod_eq_of_lt bound, ← length,
    Bytes.ofNatWidth_toNat]

theorem Hash.ofBytes_toBytes (hash : Hash) : ofBytes hash.toBytes = hash := by
  rw [ofBytes, toBytes, Bytes.toNat_ofNatWidth hash.isLt, BitVec.ofNat_toNat, BitVec.setWidth_eq]

namespace Rlp

namespace Item

/-! ## Different values -/

theorem ofNat_injective {value other : Nat} (same : ofNat value = ofNat other) : value = other :=
  Bytes.ofNat_injective (Item.data.inj same)

theorem ofUInt64_injective {value other : UInt64} (same : ofUInt64 value = ofUInt64 other) :
    value = other :=
  UInt64.toNat_inj.mp (ofNat_injective same)

theorem ofWord_injective {word other : Word} (same : ofWord word = ofWord other) : word = other :=
  BitVec.eq_of_toNat_eq (ofNat_injective same)

theorem ofAddress_injective {address other : Address} (same : ofAddress address = ofAddress other) :
    address = other := by
  rw [← address.ofBytes_toBytes, Item.data.inj same, other.ofBytes_toBytes]

theorem ofHash_injective {hash other : Hash} (same : ofHash hash = ofHash other) : hash = other :=
  Hash.toBytes_injective (Item.data.inj same)

/-! ## Lengths -/

theorem fits_data_of_le {bytes : Bytes} (short : bytes.length ≤ 2 ^ 63) :
    (data bytes).encode.length < 2 ^ 64 :=
  (length_encodeData_le (by omega)).trans_lt (by omega)

theorem fits_ofUInt64 (value : UInt64) : (ofUInt64 value).encode.length < 2 ^ 64 :=
  fits_data_of_le ((Bytes.length_ofNat_uint64 value).trans (by decide))

theorem fits_ofWord (word : Word) : (ofWord word).encode.length < 2 ^ 64 :=
  fits_data_of_le ((Bytes.length_ofNat_word word).trans (by decide))

theorem fits_ofAddress (address : Address) : (ofAddress address).encode.length < 2 ^ 64 :=
  fits_data_of_le (address.length_toBytes.le.trans (by decide))

theorem fits_ofHash (hash : Hash) : (ofHash hash).encode.length < 2 ^ 64 :=
  fits_data_of_le (hash.length_toBytes.le.trans (by decide))

end Item

/-! ## Reading back -/

theorem readUInt64_ofNat {value : Nat} (fits : value < 2 ^ 64) :
    readUInt64 (Item.ofNat value).encode = .ok (UInt64.ofNat value) := by
  have length : (Bytes.ofNat value).length ≤ 8 := Bytes.length_ofNat_le (by omega)
  have read : readData (Item.ofNat value).encode = .ok (Bytes.ofNat value) :=
    readData_data (length.trans_lt (by decide))
  unfold readUInt64
  rw [read]
  simp only [bind, Except.bind]
  rw [if_neg (Nat.not_lt.mpr length), if_neg (Bytes.head?_ofNat_ne _), Bytes.toNat_ofNat]

theorem readUInt64_ofUInt64 (value : UInt64) :
    readUInt64 (Item.ofUInt64 value).encode = .ok value := by
  rw [Item.ofUInt64, readUInt64_ofNat value.toNat_lt, UInt64.ofNat_toNat]

theorem readWord_ofWord (word : Word) : readWord (Item.ofWord word).encode = .ok word := by
  have length := Bytes.length_ofNat_word word
  have read : readData (Item.ofWord word).encode = .ok (Bytes.ofNat word.toNat) :=
    readData_data (length.trans_lt (by decide))
  unfold readWord
  rw [read]
  simp only [bind, Except.bind]
  rw [if_neg (Bytes.head?_ofNat_ne _), if_neg (Nat.not_lt.mpr length), Bytes.toNat_ofNat,
    BitVec.ofNat_toNat, BitVec.setWidth_eq]

theorem readFixed_data {bytes : Bytes} (fits : bytes.length < 2 ^ 64) :
    readFixed bytes.length (Item.data bytes).encode = .ok bytes := by
  unfold readFixed
  rw [readData_data fits]
  simp [bind, Except.bind]

theorem readAddress_ofAddress (address : Address) :
    readAddress (Item.ofAddress address).encode = .ok address := by
  have length := address.length_toBytes
  have read := readFixed_data (length.trans_lt (by decide))
  rw [length] at read
  unfold readAddress Item.ofAddress
  rw [read, Except.map, address.ofBytes_toBytes]

theorem readHash_ofHash (hash : Hash) : readHash (Item.ofHash hash).encode = .ok hash := by
  have length := hash.length_toBytes
  have read := readFixed_data (length.trans_lt (by decide))
  rw [length] at read
  unfold readHash Item.ofHash
  rw [read, Except.map, hash.ofBytes_toBytes]

end Rlp

end ExecutionLayer
