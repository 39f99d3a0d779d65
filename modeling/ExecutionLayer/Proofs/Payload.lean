import ExecutionLayer.Payload
import ExecutionLayer.Proofs.Trie.Lists

/-!
# What a block hash commits to

A header is read off its bytes, so its hash commits to every field. One of them is the root of
the transactions, which commits to each of them and to their order. So the hash of a payload's
header commits to all of the payload but the hash that the proposer claims.
-/

set_option autoImplicit false

namespace ExecutionLayer

/-! ## Headers -/

theorem Bloom.toBytes_injective {bloom other : Bloom} (same : bloom.toBytes = other.toBytes) :
    bloom = other := by
  have fits (bloom : Bloom) : bloom.toNat < 256 ^ 256 := Bytes.toNat_bits_lt 256 rfl bloom
  exact BitVec.eq_of_toNat_eq (Bytes.ofNatWidth_injective (fits bloom) (fits other) same)

namespace Header

variable {first second : Header}

theorem nonce_injective {nonce other : UInt64}
    (same : Bytes.ofNatWidth 8 nonce.toNat = Bytes.ofNatWidth 8 other.toNat) : nonce = other :=
  UInt64.toNat_inj.mp (Bytes.ofNatWidth_injective nonce.toNat_lt other.toNat_lt same)

theorem baseFee_injective {fee other : Option Word}
    (same : (fee.map Rlp.Item.ofWord).toList = (other.map Rlp.Item.ofWord).toList) :
    fee = other := by
  cases fee with
  | none =>
      cases other with
      | none => rfl
      | some fee => cases same
  | some fee =>
      cases other with
      | none => cases same
      | some other =>
          simp only [Option.map_some, Option.toList_some, List.cons.injEq, and_true] at same
          rw [Rlp.Item.ofWord_injective same]

/-- The fields stand in a fixed order, and only the last one may be missing. -/
theorem eq_of_item (same : first.item = second.item) : first = second := by
  simp only [item, Rlp.Item.list.injEq, List.cons_append, List.nil_append, List.cons.injEq,
    Rlp.Item.data.injEq] at same
  obtain ⟨parentHash, ommersHash, coinbase, stateRoot, transactionsRoot, receiptsRoot, logsBloom,
    difficulty, number, gasLimit, gasUsed, timestamp, extraData, mixHash, nonce, baseFee⟩ := same
  cases first
  cases second
  simp only [mk.injEq]
  exact ⟨Rlp.Item.ofHash_injective parentHash, Rlp.Item.ofHash_injective ommersHash,
    Rlp.Item.ofAddress_injective coinbase, Rlp.Item.ofHash_injective stateRoot,
    Rlp.Item.ofHash_injective transactionsRoot, Rlp.Item.ofHash_injective receiptsRoot,
    Bloom.toBytes_injective logsBloom, Rlp.Item.ofWord_injective difficulty,
    Rlp.Item.ofUInt64_injective number, Rlp.Item.ofUInt64_injective gasLimit,
    Rlp.Item.ofUInt64_injective gasUsed, Rlp.Item.ofUInt64_injective timestamp, extraData,
    Rlp.Item.ofHash_injective mixHash, nonce_injective nonce, baseFee_injective baseFee⟩

theorem item_eq_list (header : Header) (brief : header.extraData.length ≤ 2 ^ 63) :
    ∃ items, header.item = .list items ∧ ∀ item ∈ items, item.encode.length < 2 ^ 64 := by
  refine ⟨_, rfl, ?_⟩
  have bloom : header.logsBloom.toBytes.length ≤ 2 ^ 63 :=
    (Bytes.length_ofNatWidth 256 header.logsBloom.toNat).le.trans (by decide)
  have nonce : (Bytes.ofNatWidth 8 header.nonce.toNat).length ≤ 2 ^ 63 :=
    (Bytes.length_ofNatWidth 8 header.nonce.toNat).le.trans (by decide)
  have fee : ∀ item ∈ (header.baseFee.map Rlp.Item.ofWord).toList,
      item.encode.length < 2 ^ 64 := by
    intro item member
    obtain ⟨fee, _, rfl⟩ := Option.map_eq_some_iff.mp (Option.mem_toList.mp member)
    exact Rlp.Item.fits_ofWord fee
  simp only [List.forall_mem_append, List.forall_mem_cons, Rlp.Item.fits_ofHash,
    Rlp.Item.fits_ofAddress, Rlp.Item.fits_ofWord, Rlp.Item.fits_ofUInt64,
    Rlp.Item.fits_data_of_le bloom, Rlp.Item.fits_data_of_le brief,
    Rlp.Item.fits_data_of_le nonce, true_and]
  exact ⟨List.forall_mem_nil _, fee⟩

theorem eq_of_encode (brief : first.extraData.length ≤ 2 ^ 63)
    (otherBrief : second.extraData.length ≤ 2 ^ 63) (same : first.encode = second.encode) :
    first = second := by
  obtain ⟨items, list, fits⟩ := first.item_eq_list brief
  obtain ⟨others, otherList, othersFit⟩ := second.item_eq_list otherBrief
  apply eq_of_item
  unfold encode at same
  rw [list, otherList] at same ⊢
  rw [Rlp.Item.eq_of_encode_list fits othersFit same]

end Header

/-! ## Payloads -/

namespace Payload

variable {first second : Payload}

theorem eq_of_header (headers : first.header = second.header)
    (transactions : first.transactions = second.transactions) :
    first = { second with blockHash := first.blockHash } := by
  simp only [header, Header.mk.injEq] at headers
  obtain ⟨parentHash, _, feeRecipient, stateRoot, _, receiptsRoot, logsBloom, _, number, gasLimit,
    gasUsed, timestamp, _, _, _, baseFee⟩ := headers
  cases first
  cases second
  simp only [mk.injEq]
  exact ⟨parentHash, feeRecipient, stateRoot, receiptsRoot, logsBloom, number, gasLimit, gasUsed,
    timestamp, baseFee, trivial, transactions⟩

/-- Where the digest tells the two headers apart and the nodes of the two lists of transactions,
payloads whose headers have the same hash differ at most in the hash that they claim. -/
theorem eq_of_header_hash (firstStorable : Trie.StorableList first.transactions)
    (secondStorable : Trie.StorableList second.transactions)
    (headers : Set.InjOn keccak256 {first.header.encode, second.header.encode})
    (nodes : Set.InjOn keccak256
      (Trie.listEncodings first.transactions ∪ Trie.listEncodings second.transactions))
    (same : first.header.hash = second.header.hash) :
    first = { second with blockHash := first.blockHash } := by
  have encodings : first.header.encode = second.header.encode :=
    headers (.inl rfl) (.inr rfl) same
  have sameHeader : first.header = second.header :=
    Header.eq_of_encode (Nat.zero_le _) (Nat.zero_le _) encodings
  have roots : first.transactionsRoot = second.transactionsRoot :=
    congrArg Header.transactionsRoot sameHeader
  exact eq_of_header sameHeader (Trie.eq_of_listRoot firstStorable secondStorable nodes roots)

namespace Copied

open Trie

/-- Two transactions, each long enough for a leaf that is held by its digest. -/
def transfers : List Bytes :=
  [List.replicate 40 1, List.replicate 40 2]

def original : Payload := { number := 7, baseFee := some 1000, transactions := transfers }

/-- The same payload under another claimed hash. -/
def renamed : Payload := { original with blockHash := 1 }

/-- What is listed under the indices, in the order of their encodings. -/
def entries : List Entry :=
  [(pathOf [0x01], List.replicate 40 2), (pathOf [0x80], List.replicate 40 1)]

def top : Node :=
  .branch (fun nibble => Node.ofEntries? (entriesBelow nibble entries)) []

def leaves : List Node :=
  [.leaf (pathOf [0x01]).tail (List.replicate 40 2),
    .leaf (pathOf [0x80]).tail (List.replicate 40 1)]

theorem storable : StorableList transfers :=
  ⟨by decide, by decide, by decide⟩

theorem top?_transfers : top? (indexed transfers) = some top := by
  have listed : (byPath (indexed transfers)).toList = entries := by decide +kernel
  rw [top?_eq_ofEntries?, listed, entries, Node.ofEntries?]
  rfl

theorem mem_leaves {nibble : Nibble} {child : Node}
    (held : Node.ofEntries? (entriesBelow nibble entries) = some child) : child ∈ leaves := by
  have below : ∀ nibble, entriesBelow nibble entries = [] ∨
      entriesBelow nibble entries = [([1], List.replicate 40 2)] ∨
      entriesBelow nibble entries = [([0], List.replicate 40 1)] := by
    decide
  rcases below nibble with none | second | first
  · rw [none, Node.ofEntries?] at held
    cases held
  · rw [second, Node.ofEntries?] at held
    cases held
    exact List.mem_cons_self ..
  · rw [first, Node.ofEntries?] at held
    cases held
    exact List.mem_cons_of_mem _ (List.mem_cons_self ..)

theorem mem_of_within {node : Node} (within : node.Within top) : node ∈ top :: leaves := by
  cases within with
  | root => exact List.mem_cons_self ..
  | branched held deeper =>
      have leaf := mem_leaves held
      refine List.mem_cons_of_mem _ ?_
      simp only [leaves, List.mem_cons, List.not_mem_nil, or_false] at leaf ⊢
      rcases leaf with rfl | rfl
      · cases deeper
        exact .inl rfl
      · cases deeper
        exact .inr rfl

theorem listEncodings_injOn :
    Set.InjOn keccak256 (listEncodings transfers ∪ listEncodings transfers) := by
  have listed : ∀ encoded ∈ listEncodings transfers,
      encoded ∈ (top :: leaves).map Node.encode := by
    rintro _ ⟨other, node, built, within, rfl⟩
    rw [top?_transfers] at built
    cases built
    exact List.mem_map_of_mem (mem_of_within within)
  have distinct : (((top :: leaves).map Node.encode).map keccak256).Nodup := by decide +kernel
  rw [Set.union_self]
  exact fun left member right other =>
    List.inj_on_of_nodup_map distinct (listed left member) (listed right other)

end Copied

open Copied in
theorem copied_eq :
    Trie.StorableList original.transactions ∧ Trie.StorableList renamed.transactions ∧
      Set.InjOn keccak256 {original.header.encode, renamed.header.encode} ∧
      Set.InjOn keccak256 (Trie.listEncodings original.transactions ∪
        Trie.listEncodings renamed.transactions) ∧
      original.header.hash = renamed.header.hash ∧ original ≠ renamed ∧
      original = { renamed with blockHash := original.blockHash } := by
  have headers : Set.InjOn keccak256 {original.header.encode, renamed.header.encode} := by
    have sameHeader : renamed.header = original.header := rfl
    rw [sameHeader, Set.pair_eq_singleton]
    exact Set.injOn_singleton _ _
  have differ : original ≠ renamed := fun same =>
    absurd (congrArg Payload.blockHash same) (by decide)
  exact ⟨storable, storable, headers, listEncodings_injOn, rfl, differ,
    eq_of_header_hash storable storable headers listEncodings_injOn rfl⟩

end Payload

end ExecutionLayer
