import ExecutionLayer.Proofs.Trie.Contents
import ExecutionLayer.Proofs.Rlp.Reading
import Mathlib.Data.List.Nodup
import Mathlib.Data.Set.Function

/-!
# What the root of a trie commits to

Where the digest tells the encodings of all nodes apart, the root tells the maps apart: equal
roots come from equal root nodes, and below equal nodes stand equal children.
-/

set_option autoImplicit false

namespace ExecutionLayer.Trie

/-- A node is a trie's root or lies below it. -/
inductive Node.Within (node : Node) : Node → Prop where
  | root : Within node node
  | extended {shared : Path} {child : Node} (deeper : Within node child) :
      Within node (.extension shared child)
  | branched {children : Nibble → Option Node} {value : Bytes} {nibble : Nibble} {child : Node}
      (held : children nibble = some child) (deeper : Within node child) :
      Within node (.branch children value)

/-- The encodings of all nodes of the trie of some entries. -/
def nodeEncodings (entries : List (Bytes × Bytes)) : Set Bytes :=
  {encoded | ∃ top node : Node,
    top? entries = some top ∧ node.Within top ∧ node.encode = encoded}

/-- The strings of a node itself are no longer than a 64-bit memory can have them. -/
def Node.Fits : Node → Prop
  | .leaf path value => path.length < 2 ^ 64 ∧ value.length < 2 ^ 63
  | .extension path _ => path.length < 2 ^ 64
  | .branch _ value => value.length < 2 ^ 63

theorem Node.Fits.tail {nibble : Nibble} {path : Path} {value : Bytes}
    (fits : (Node.leaf (nibble :: path) value).Fits) : (Node.leaf path value).Fits :=
  ⟨(Nat.le_succ _).trans_lt fits.1, fits.2⟩

/-- Some set has the encodings of all nodes of a trie, whose strings fit. -/
def Node.Known (known : Set Bytes) (top : Node) : Prop :=
  ∀ node : Node, node.Within top → node.encode ∈ known ∧ node.Fits

/-! ## Lengths of packed paths -/

theorem length_packPairs : ∀ path : Path, (packPairs path).length = path.length / 2
  | [] => rfl
  | [_] => by simp [packPairs]
  | _ :: _ :: rest => by
      simp only [packPairs, List.length_cons, length_packPairs rest]
      omega

theorem length_hexPrefixed (path : Path) (isLeaf : Bool) :
    (hexPrefixed path isLeaf).length = path.length / 2 + 1 := by
  unfold hexPrefixed
  dsimp only
  split
  · cases path with
    | nil => simp at *
    | cons first rest =>
        simp only [List.length_cons, length_packPairs] at *
        omega
  · simp only [List.length_cons, length_packPairs]

/-! ## Items of nodes -/

/-- A string of a node has a header that tells its length. -/
theorem fits_data {bytes : Bytes} (fits : bytes.length ≤ 2 ^ 63) :
    (Rlp.Item.data bytes).encode.length < 2 ^ 64 :=
  (Rlp.length_encodeData_le (by omega)).trans_lt (by omega)

theorem fits_hexPrefixed {path : Path} (fits : path.length < 2 ^ 64) (isLeaf : Bool) :
    (Rlp.Item.data (hexPrefixed path isLeaf)).encode.length < 2 ^ 64 := by
  apply fits_data
  rw [length_hexPrefixed]
  omega

theorem fits_reference (item : Rlp.Item) : (reference item).encode.length < 2 ^ 64 := by
  unfold reference
  dsimp only
  split
  · omega
  · apply fits_data
    rw [Hash.length_toBytes]
    decide

theorem fits_childItem (child : Option Node) : (childItem child).encode.length < 2 ^ 64 := by
  cases child with
  | none =>
      rw [childItem]
      exact fits_data (by decide)
  | some child =>
      rw [childItem]
      exact fits_reference child.item

theorem Node.item_eq_list {node : Node} (fits : node.Fits) :
    ∃ items, node.item = .list items ∧ ∀ item ∈ items, item.encode.length < 2 ^ 64 := by
  cases node with
  | leaf path value =>
      rw [item]
      refine ⟨_, rfl, ?_⟩
      simp only [List.forall_mem_cons]
      exact ⟨fits_hexPrefixed fits.1 true, fits_data fits.2.le, List.forall_mem_nil _⟩
  | extension path child =>
      rw [item]
      refine ⟨_, rfl, ?_⟩
      simp only [List.forall_mem_cons]
      exact ⟨fits_hexPrefixed fits false, fits_reference child.item, List.forall_mem_nil _⟩
  | branch children value =>
      rw [item]
      refine ⟨_, rfl, fun item member => ?_⟩
      rcases List.mem_append.mp member with below | ending
      · obtain ⟨nibble, _, rfl⟩ := List.mem_map.mp below
        exact fits_childItem (children nibble)
      · cases List.mem_singleton.mp ending
        exact fits_data (Nat.le_of_lt fits)

theorem Node.item_eq_of_encode {first second : Node} (fits : first.Fits) (otherFits : second.Fits)
    (same : first.encode = second.encode) : first.item = second.item := by
  obtain ⟨items, list, within⟩ := item_eq_list fits
  obtain ⟨others, otherList, otherWithin⟩ := item_eq_list otherFits
  unfold encode at same
  rw [list, otherList] at same ⊢
  rw [Rlp.Item.eq_of_encode_list within otherWithin same]

theorem Node.encode_ne {node : Node} (fits : node.Fits) : node.encode ≠ [0x80] := by
  obtain ⟨items, list, _⟩ := item_eq_list fits
  rw [encode, list, Rlp.Item.encode]
  exact Rlp.encodeList_ne _

theorem Node.item_branch_ne {children : Nibble → Option Node} {ending : Bytes}
    {first second : Rlp.Item} : (Node.branch children ending).item ≠ .list [first, second] := by
  intro same
  simp only [item, Rlp.Item.list.injEq] at same
  have lengths := congrArg List.length same
  simp at lengths

theorem reference_ne_empty {node : Node} (fits : node.Fits) : reference node.item ≠ .data [] := by
  intro empty
  obtain ⟨items, list, _⟩ := Node.item_eq_list fits
  unfold reference at empty
  dsimp only at empty
  split at empty
  · rw [list] at empty
    cases empty
  · injection empty with empty
    have length := (keccak256 node.item.encode).length_toBytes
    rw [empty] at length
    cases length

/-! ## What an item tells of its node -/

section

variable {known : Set Bytes}

theorem Node.Known.fits {node : Node} (whole : node.Known known) : node.Fits :=
  (whole node .root).2

theorem Node.Known.extended {shared : Path} {child : Node}
    (whole : (Node.extension shared child).Known known) : child.Known known :=
  fun node within => whole node (.extended within)

theorem Node.Known.branched {children : Nibble → Option Node} {value : Bytes} {nibble : Nibble}
    {child : Node} (whole : (Node.branch children value).Known known)
    (held : children nibble = some child) : child.Known known :=
  fun node within => whole node (.branched held within)

theorem item_eq_of_reference (injective : Set.InjOn keccak256 known) {first second : Node}
    (firstKnown : first.Known known) (secondKnown : second.Known known)
    (same : reference first.item = reference second.item) : first.item = second.item := by
  obtain ⟨firstItems, firstList, _⟩ := Node.item_eq_list firstKnown.fits
  obtain ⟨secondItems, secondList, _⟩ := Node.item_eq_list secondKnown.fits
  unfold reference at same
  dsimp only at same
  split at same <;> split at same
  · exact same
  · rw [firstList] at same
    cases same
  · rw [secondList] at same
    cases same
  · obtain ⟨firstMember, fits⟩ := firstKnown first .root
    obtain ⟨secondMember, otherFits⟩ := secondKnown second .root
    injection same with same
    exact Node.item_eq_of_encode fits otherFits
      (injective firstMember secondMember (Hash.toBytes_injective same))

mutual

theorem Node.eq_of_item (injective : Set.InjOn keccak256 known) : ∀ {first second : Node},
    first.Known known → second.Known known → first.item = second.item → first = second
  | .leaf path value, .leaf path' value', _, _, same => by
      simp only [Node.item, Rlp.Item.list.injEq, List.cons.injEq, Rlp.Item.data.injEq] at same
      obtain ⟨prefixed, rfl, _⟩ := same
      rw [(hexPrefixed_injective prefixed).1]
  | .extension path child, .extension path' child', firstKnown, secondKnown, same => by
      simp only [Node.item, Rlp.Item.list.injEq, List.cons.injEq, Rlp.Item.data.injEq] at same
      obtain ⟨prefixed, referenced, _⟩ := same
      have items := item_eq_of_reference injective firstKnown.extended secondKnown.extended
        referenced
      rw [(hexPrefixed_injective prefixed).1,
        Node.eq_of_item injective firstKnown.extended secondKnown.extended items]
  | .branch children ending, .branch children' ending', firstKnown, secondKnown, same => by
      simp only [Node.item, Rlp.Item.list.injEq] at same
      obtain ⟨below, ends⟩ := List.append_inj' same rfl
      have sameChildren : children = children' := by
        funext nibble
        exact eq_of_childItem injective (fun _ held => firstKnown.branched held)
          (fun _ held => secondKnown.branched held)
          (List.map_inj_left.mp below nibble (List.mem_finRange nibble))
      simp only [List.cons.injEq, Rlp.Item.data.injEq, and_true] at ends
      rw [sameChildren, ends]
  | .leaf _ _, .extension _ _, _, _, same => by
      simp only [Node.item, Rlp.Item.list.injEq, List.cons.injEq, Rlp.Item.data.injEq] at same
      exact absurd (hexPrefixed_injective same.1).2 (by decide)
  | .extension _ _, .leaf _ _, _, _, same => by
      simp only [Node.item, Rlp.Item.list.injEq, List.cons.injEq, Rlp.Item.data.injEq] at same
      exact absurd (hexPrefixed_injective same.1).2 (by decide)
  | .leaf _ _, .branch _ _, _, _, same => absurd same.symm Node.item_branch_ne
  | .branch _ _, .leaf _ _, _, _, same => absurd same Node.item_branch_ne
  | .extension _ _, .branch _ _, _, _, same => absurd same.symm Node.item_branch_ne
  | .branch _ _, .extension _ _, _, _, same => absurd same Node.item_branch_ne
termination_by structural first => first

theorem eq_of_childItem (injective : Set.InjOn keccak256 known) : ∀ {first second : Option Node},
    (∀ child, first = some child → child.Known known) →
    (∀ child, second = some child → child.Known known) →
    childItem first = childItem second → first = second
  | none, none, _, _, _ => rfl
  | none, some child, _, secondKnown, same => by
      simp only [childItem] at same
      exact absurd same.symm (reference_ne_empty (secondKnown child rfl).fits)
  | some child, none, firstKnown, _, same => by
      simp only [childItem] at same
      exact absurd same (reference_ne_empty (firstKnown child rfl).fits)
  | some child, some child', firstKnown, secondKnown, same => by
      simp only [childItem] at same
      have items := item_eq_of_reference injective (firstKnown child rfl) (secondKnown child' rfl)
        same
      rw [Node.eq_of_item injective (firstKnown child rfl) (secondKnown child' rfl) items]
termination_by structural first => first

end

end

/-! ## Strings of nodes -/

/-- Every node has its strings from entries, of which it holds at most the whole. -/
theorem fits_of_within {entries : List Entry} {top node : Node}
    (fits : ∀ path value, (path, value) ∈ entries → (Node.leaf path value).Fits)
    (built : Node.ofEntries? entries = some top) (within : node.Within top) : node.Fits := by
  induction entries using Node.ofEntries?.induct generalizing top with
  | case1 => simp [Node.ofEntries?] at built
  | case2 only held =>
      simp only [Node.ofEntries?, Option.some.injEq] at built
      subst built
      cases within with
      | root => exact fits only held (List.mem_cons_self ..)
  | case3 least held second several whole shared nonempty =>
      rename_i ih
      rw [Node.ofEntries?, if_pos nonempty] at built
      obtain ⟨child, builtChild, rfl⟩ := Option.map_eq_some_iff.mp built
      cases within with
      | root =>
          have part := length_commonPath_le least
            ((second :: several).getLast (List.cons_ne_nil _ _)).1
          exact part.trans_lt (fits least held (List.mem_cons_self ..)).1
      | extended deeper =>
          refine ih (fun path value member => ?_) builtChild deeper
          obtain ⟨entry, original, dropped⟩ := List.mem_map.mp member
          obtain ⟨rfl, rfl⟩ := Prod.mk.inj dropped
          obtain ⟨pathFits, valueFits⟩ := fits entry.1 entry.2 original
          exact ⟨(List.drop_sublist _ _).length_le.trans_lt pathFits, valueFits⟩
  | case4 held second several shared empty =>
      rename_i ih
      rw [Node.ofEntries?, if_neg empty, if_pos rfl, Option.some.injEq] at built
      subst built
      cases within with
      | root => exact (fits _ held (List.mem_cons_self ..)).2
      | @branched _ _ nibble _ built deeper =>
          refine ih nibble (fun path value member => ?_) built deeper
          exact (fits _ value (List.mem_cons_of_mem _ (mem_entriesBelow.mp member))).tail
  | case5 least held second several whole shared empty =>
      rename_i long ih
      rw [Node.ofEntries?, if_neg empty, if_neg long, Option.some.injEq] at built
      subst built
      cases within with
      | root => exact Nat.two_pow_pos 63
      | @branched _ _ nibble _ built deeper =>
          refine ih nibble (fun path value member => ?_) built deeper
          exact (fits _ value (mem_entriesBelow.mp member)).tail

/-! ## Maps -/

/-- No value is empty, which a trie cannot tell from a missing one, and no string is longer
than a 64-bit memory can have it. -/
def Storable (contents : Std.ExtTreeMap Bytes Bytes) : Prop :=
  ∀ key value : Bytes, contents[key]? = some value →
    value ≠ [] ∧ key.length < 2 ^ 63 ∧ value.length < 2 ^ 63

section

variable {first second entries : List (Bytes × Bytes)} {known : Set Bytes} {top : Node}

theorem Storable.present (storable : Storable (contents entries)) (key : Bytes) :
    (contents entries)[key]? ≠ some [] :=
  fun empty => (storable key [] empty).1 rfl

theorem Storable.top_known (storable : Storable (contents entries))
    (every : nodeEncodings entries ⊆ known) (built : top? entries = some top) :
    top.Known known := by
  intro node within
  refine ⟨every ⟨top, node, built, within, rfl⟩, ?_⟩
  rw [top?_eq_ofEntries?] at built
  refine fits_of_within (fun path value member => ?_) built within
  obtain ⟨key, rfl, held⟩ := exists_key member
  obtain ⟨_, keyFits, valueFits⟩ := storable key value held
  refine ⟨?_, valueFits⟩
  rw [length_pathOf]
  omega

theorem eq_of_rootOfNode? (injective : Set.InjOn keccak256 known) (empty : [0x80] ∈ known)
    {first second : Option Node} (firstKnown : ∀ top, first = some top → top.Known known)
    (secondKnown : ∀ top, second = some top → top.Known known)
    (same : rootOfNode? first = rootOfNode? second) : first = second := by
  cases first with
  | none =>
      cases second with
      | none => rfl
      | some top =>
          have whole := secondKnown top rfl
          rw [rootOfNode?_none] at same
          exact absurd (injective (whole top .root).1 empty same.symm) (Node.encode_ne whole.fits)
  | some top =>
      have whole := firstKnown top rfl
      obtain ⟨member, fits⟩ := whole top .root
      cases second with
      | none =>
          rw [rootOfNode?_none] at same
          exact absurd (injective member empty same) (Node.encode_ne fits)
      | some other =>
          have otherWhole := secondKnown other rfl
          have encodings := injective member (otherWhole other .root).1 same
          rw [Node.eq_of_item injective whole otherWhole
            (Node.item_eq_of_encode fits otherWhole.fits encodings)]

/-- Where no two node encodings of two maps, nor that of the empty trie, have the same digest,
maps with the same root are the same. -/
theorem contents_eq_of_root_eq (firstStorable : Storable (contents first))
    (secondStorable : Storable (contents second))
    (injective : Set.InjOn keccak256 ({[0x80]} ∪ (nodeEncodings first ∪ nodeEncodings second)))
    (same : root first = root second) : contents first = contents second := by
  apply contents_eq_of_top? firstStorable.present secondStorable.present
  refine eq_of_rootOfNode? injective (.inl rfl) (fun top built => ?_) (fun top built => ?_) same
  · exact firstStorable.top_known (Set.subset_union_left.trans Set.subset_union_right) built
  · exact secondStorable.top_known (Set.subset_union_right.trans Set.subset_union_right) built

end

namespace Prefixed

/-- Long enough for a leaf that is held by its digest. -/
def long : Bytes :=
  List.replicate 32 2

/-- One key begins the other. -/
def entries : List (Bytes × Bytes) :=
  [([0x10], [1]), ([0x10, 0x20], long)]

/-- The same map, with one value overwritten on the way. -/
def rewritten : List (Bytes × Bytes) :=
  [([0x10, 0x20], long), ([0x10], [7]), ([0x10], [1])]

def leaf : Node :=
  .leaf ((pathOf [0x20]).drop 1) long

def branch : Node :=
  .branch (fun nibble => Node.ofEntries? (entriesBelow nibble [(pathOf [0x20], long)])) [1]

def top : Node :=
  .extension (pathOf [0x10]) branch

theorem ofEntries?_listed :
    Node.ofEntries? [(pathOf [0x10], [1]), (pathOf [0x10, 0x20], long)] = some top := by
  have shared : commonPath (pathOf [0x10]) (pathOf [0x10, 0x20]) = pathOf [0x10] := by decide
  have dropped : dropNibbles (pathOf [0x10]).length
      [(pathOf [0x10], [1]), (pathOf [0x10, 0x20], long)] =
        [([], [1]), (pathOf [0x20], long)] := by
    decide
  rw [Node.ofEntries?]
  simp only [List.getLast_singleton, shared]
  rw [if_pos (by decide), dropped, Node.ofEntries?]
  rfl

theorem eq_leaf_of_below {nibble : Nibble} {child : Node}
    (held : Node.ofEntries? (entriesBelow nibble [(pathOf [0x20], long)]) = some child) :
    child = leaf := by
  have below : ∀ nibble, entriesBelow nibble [(pathOf [0x20], long)] = [] ∨
      entriesBelow nibble [(pathOf [0x20], long)] = [((pathOf [0x20]).drop 1, long)] := by
    decide
  rcases below nibble with below | below
  · rw [below, Node.ofEntries?] at held
    cases held
  · rw [below, Node.ofEntries?] at held
    exact (Option.some.inj held).symm

theorem encode_of_within {node : Node} (within : node.Within top) :
    node.encode ∈ [top.encode, branch.encode, leaf.encode] := by
  cases within with
  | root => simp
  | extended deeper =>
      cases deeper with
      | root => simp
      | branched held deeper =>
          cases eq_leaf_of_below held
          cases deeper
          simp

theorem encoded_of_listed {given : List (Bytes × Bytes)}
    (listed : (byPath given).toList = [(pathOf [0x10], [1]), (pathOf [0x10, 0x20], long)]) :
    ∀ encoded ∈ nodeEncodings given, encoded ∈ [top.encode, branch.encode, leaf.encode] := by
  rintro _ ⟨other, node, built, within, rfl⟩
  rw [top?_eq_ofEntries?, listed, ofEntries?_listed] at built
  cases built
  exact encode_of_within within

theorem storable_of_listed {given : List (Bytes × Bytes)}
    (listed : (contents given).toList = [([0x10], [1]), ([0x10, 0x20], long)]) :
    Storable (contents given) := by
  intro key value held
  have member := Std.ExtTreeMap.mem_toList_iff_getElem?_eq_some.mpr held
  rw [listed] at member
  simp only [List.mem_cons, Prod.mk.injEq, List.not_mem_nil, or_false] at member
  rcases member with ⟨rfl, rfl⟩ | ⟨rfl, rfl⟩
  · simp
  · simp [long]

end Prefixed

open Prefixed in
theorem prefixed_contents_eq :
    Storable (contents entries) ∧ Storable (contents rewritten) ∧
      Set.InjOn keccak256 ({[0x80]} ∪ (nodeEncodings entries ∪ nodeEncodings rewritten)) ∧
      root entries = root rewritten ∧ contents entries = contents rewritten := by
  have first : Storable (contents entries) := storable_of_listed (by decide +kernel)
  have second : Storable (contents rewritten) := storable_of_listed (by decide +kernel)
  have listed : ∀ encoded ∈
      ({[0x80]} ∪ (nodeEncodings entries ∪ nodeEncodings rewritten) : Set Bytes),
      encoded ∈ [[0x80], top.encode, branch.encode, leaf.encode] := by
    rintro encoded (empty | node | node)
    · rw [empty]
      exact List.mem_cons_self ..
    · exact List.mem_cons_of_mem _ (encoded_of_listed (by decide +kernel) encoded node)
    · exact List.mem_cons_of_mem _ (encoded_of_listed (by decide +kernel) encoded node)
  have distinct : ([[0x80], top.encode, branch.encode, leaf.encode].map keccak256).Nodup := by
    decide +kernel
  have injective : Set.InjOn keccak256
      ({[0x80]} ∪ (nodeEncodings entries ∪ nodeEncodings rewritten)) :=
    fun left member right other =>
      List.inj_on_of_nodup_map distinct (listed left member) (listed right other)
  have same : root entries = root rewritten := by decide +kernel
  exact ⟨first, second, injective, same, contents_eq_of_root_eq first second injective same⟩

end ExecutionLayer.Trie
