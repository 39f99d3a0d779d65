import ExecutionLayer.Proofs.Rlp.Values
import ExecutionLayer.Proofs.Trie.Commitment

/-!
# What the root of a list commits to

A list is kept in a trie under the encodings of its indices, which are all different. So the
root tells the values, their order and their number.
-/

set_option autoImplicit false

namespace ExecutionLayer.Trie

/-- The values of a list, each under the encoding of its index. -/
def indexed (values : List Bytes) : List (Bytes × Bytes) :=
  values.zipIdx.map fun (value, index) => ((Rlp.Item.ofNat index).encode, value)

/-- The strings whose digests make the root of a list: the encodings of its nodes, or that of
the empty string where there is no node. -/
def listEncodings : List Bytes → Set Bytes
  | [] => {Rlp.encodeData []}
  | values => nodeEncodings (indexed values)

/-- No value is empty, and neither the list nor one of its values is longer than a 64-bit
memory can have it. -/
structure StorableList (values : List Bytes) : Prop where
  length_lt : values.length < 2 ^ 63
  present : ∀ value ∈ values, value ≠ []
  fits : ∀ value ∈ values, value.length < 2 ^ 63

section

variable {values first second : List Bytes} {index other : Nat}

/-! ## Indices -/

theorem fits_index (small : index < 2 ^ 63) :
    (Rlp.Item.ofNat index).encode.length < 2 ^ 63 := by
  have length : (Bytes.ofNat index).length ≤ 8 := Bytes.length_ofNat_le (by omega)
  have encoded := Rlp.length_encodeData_le (length.trans_lt (by decide))
  exact (encoded.trans (Nat.add_le_add_right length 9)).trans_lt (by decide)

theorem index_injective (small : index < 2 ^ 63)
    (same : (Rlp.Item.ofNat index).encode = (Rlp.Item.ofNat other).encode) : index = other :=
  Rlp.Item.ofNat_injective (Rlp.Item.eq_of_encode ((fits_index small).trans (by decide)) same)

theorem mem_indexed {key value : Bytes} : (key, value) ∈ indexed values ↔
    ∃ index, values[index]? = some value ∧ (Rlp.Item.ofNat index).encode = key := by
  simp only [indexed, List.mem_map, Prod.exists, Prod.mk.injEq, List.mem_zipIdx_iff_getElem?]
  constructor
  · rintro ⟨value, index, held, rfl, rfl⟩
    exact ⟨index, held, rfl⟩
  · rintro ⟨index, held, rfl⟩
    exact ⟨value, index, held, rfl, rfl⟩

theorem distinct_indexed (length_lt : values.length < 2 ^ 63) :
    (indexed values).Pairwise fun earlier later => ¬compare earlier.1 later.1 = .eq := by
  rw [List.pairwise_iff_getElem]
  intro earlier later _ inside before same
  have keys := Std.LawfulEqCmp.eq_of_compare same
  simp only [indexed, List.getElem_map, List.getElem_zipIdx, Nat.zero_add] at keys
  simp only [indexed, List.length_map, List.length_zipIdx] at inside
  exact Nat.ne_of_lt before (index_injective (by omega) keys)

/-! ## Maps of lists -/

/-- The map of a list has at each index what the list has. -/
theorem getElem?_contents_indexed (length_lt : values.length < 2 ^ 63) (small : index < 2 ^ 63) :
    (contents (indexed values))[(Rlp.Item.ofNat index).encode]? = values[index]? := by
  cases held : values[index]? with
  | some value =>
      exact Std.ExtTreeMap.getElem?_ofList_of_mem Std.ReflOrd.compare_self
        (distinct_indexed length_lt) (mem_indexed.mpr ⟨index, held, rfl⟩)
  | none =>
      apply Std.ExtTreeMap.getElem?_ofList_of_contains_eq_false
      rw [← Bool.not_eq_true, List.contains_iff_mem]
      intro listed
      obtain ⟨⟨key, value⟩, member, rfl⟩ := List.mem_map.mp listed
      obtain ⟨other, present, same⟩ := mem_indexed.mp member
      cases index_injective small same.symm
      rw [held] at present
      cases present

theorem StorableList.storable (storable : StorableList values) :
    Storable (contents (indexed values)) := by
  intro key value held
  have listed : key ∈ (indexed values).map Prod.fst := by
    have inside : key ∈ contents (indexed values) := by
      rw [Std.ExtTreeMap.mem_iff_isSome_getElem?, held]
      rfl
    rwa [contents, Std.ExtTreeMap.mem_ofList, List.contains_iff_mem] at inside
  obtain ⟨⟨_, found⟩, member, rfl⟩ := List.mem_map.mp listed
  obtain ⟨index, present, rfl⟩ := mem_indexed.mp member
  obtain ⟨inside, _⟩ := List.getElem?_eq_some_iff.mp present
  have small : index < 2 ^ 63 := inside.trans storable.length_lt
  rw [getElem?_contents_indexed storable.length_lt small] at held
  have value_mem := List.mem_of_getElem? held
  exact ⟨storable.present value value_mem, fits_index small, storable.fits value value_mem⟩

theorem eq_of_contents_indexed (firstLength : first.length < 2 ^ 63)
    (secondLength : second.length < 2 ^ 63)
    (same : contents (indexed first) = contents (indexed second)) : first = second := by
  apply List.ext_getElem?
  intro index
  by_cases small : index < 2 ^ 63
  · rw [← getElem?_contents_indexed firstLength small, same,
      getElem?_contents_indexed secondLength small]
  · rw [List.getElem?_eq_none (by omega), List.getElem?_eq_none (by omega)]

/-! ## Roots -/

variable {known : Set Bytes}

theorem StorableList.top_known (storable : StorableList values)
    (every : listEncodings values ⊆ known) {top : Node}
    (built : top? (indexed values) = some top) : top.Known known := by
  cases values with
  | nil =>
      have empty : (byPath (indexed [])).toList = [] := rfl
      rw [top?, empty, Node.ofSorted?] at built
      cases built
  | cons value rest => exact storable.storable.top_known every built

theorem StorableList.exists_top (storable : StorableList values) (several : values ≠ []) :
    ∃ top, top? (indexed values) = some top := by
  obtain ⟨value, rest, rfl⟩ := List.exists_cons_of_ne_nil several
  have held : (contents (indexed (value :: rest)))[(Rlp.Item.ofNat 0).encode]? = some value :=
    getElem?_contents_indexed storable.length_lt (by decide)
  obtain ⟨top, built, _⟩ := (holds_iff_contents storable.storable.present).mpr held
  exact ⟨top, built⟩

/-- Where the strings behind two lists have different digests, lists with the same root are
the same. The string of the empty list is among them only if one of the lists is empty. -/
theorem eq_of_listRoot (firstStorable : StorableList first) (secondStorable : StorableList second)
    (injective : Set.InjOn keccak256 (listEncodings first ∪ listEncodings second))
    (same : listRoot first = listRoot second) : first = second := by
  apply eq_of_contents_indexed firstStorable.length_lt secondStorable.length_lt
  apply contents_eq_of_top? firstStorable.storable.present secondStorable.storable.present
  have firstKnown (top : Node) (built : top? (indexed first) = some top) :
      top.Known (listEncodings first ∪ listEncodings second) :=
    firstStorable.top_known Set.subset_union_left built
  have secondKnown (top : Node) (built : top? (indexed second) = some top) :
      top.Known (listEncodings first ∪ listEncodings second) :=
    secondStorable.top_known Set.subset_union_right built
  by_cases empty : first = [] ∨ second = []
  · refine eq_of_rootOfNode? injective ?_ firstKnown secondKnown same
    rcases empty with rfl | rfl
    · exact .inl rfl
    · exact .inr rfl
  · obtain ⟨several, otherSeveral⟩ := not_or.mp empty
    obtain ⟨top, built⟩ := firstStorable.exists_top several
    obtain ⟨other, otherBuilt⟩ := secondStorable.exists_top otherSeveral
    have whole := firstKnown top built
    have otherWhole := secondKnown other otherBuilt
    have digests : keccak256 top.encode = keccak256 other.encode := by
      simp only [listRoot, root] at same
      rw [← indexed, ← indexed, built, otherBuilt] at same
      exact same
    have encodings := injective (whole top .root).1 (otherWhole other .root).1 digests
    rw [built, otherBuilt, Node.eq_of_item injective whole otherWhole
      (Node.item_eq_of_encode whole.fits otherWhole.fits encodings)]

end

end ExecutionLayer.Trie
