import ExecutionLayer.Proofs.Trie.Grouping

/-!
# What a trie holds

The trie that is built of entries with distinct paths in ascending order holds each entry's
value under its path, and nothing else.
-/

set_option autoImplicit false

namespace ExecutionLayer.Trie

/-- A trie holds a value under a path. In a branch the empty value stands for none. -/
inductive Node.Holds : Node → Path → Bytes → Prop where
  | leaf (path : Path) (value : Bytes) : Holds (.leaf path value) path value
  | extension {shared path : Path} {child : Node} {value : Bytes} (below : child.Holds path value) :
      Holds (.extension shared child) (shared ++ path) value
  | ends {children : Nibble → Option Node} {value : Bytes} (present : value ≠ []) :
      Holds (.branch children value) [] value
  | branches {children : Nibble → Option Node} {ending value : Bytes} {nibble : Nibble} {path : Path}
      {child : Node} (held : children nibble = some child) (below : child.Holds path value) :
      Holds (.branch children ending) (nibble :: path) value

namespace Node

variable {sought path : Path} {found value ending : Bytes} {child : Node}
  {children : Nibble → Option Node} {nibble : Nibble}

theorem holds_leaf_iff : (leaf path value).Holds sought found ↔ sought = path ∧ found = value := by
  constructor
  · rintro ⟨⟩
    exact ⟨rfl, rfl⟩
  · rintro ⟨rfl, rfl⟩
    exact .leaf _ _

theorem holds_extension_iff : (extension path child).Holds sought found ↔
    ∃ rest, sought = path ++ rest ∧ child.Holds rest found := by
  constructor
  · rintro ⟨⟩
    exact ⟨_, rfl, ‹_›⟩
  · rintro ⟨_, rfl, below⟩
    exact .extension below

theorem holds_branch_nil_iff :
    (branch children ending).Holds [] found ↔ found = ending ∧ found ≠ [] := by
  constructor
  · rintro ⟨⟩
    exact ⟨rfl, ‹_›⟩
  · rintro ⟨rfl, present⟩
    exact .ends present

theorem holds_branch_cons_iff : (branch children ending).Holds (nibble :: sought) found ↔
    ∃ child, children nibble = some child ∧ child.Holds sought found := by
  constructor
  · rintro ⟨⟩
    exact ⟨_, ‹_›, ‹_›⟩
  · rintro ⟨_, held, below⟩
    exact .branches held below

end Node

variable {entries : List Entry} {path : Path} {value : Bytes}

/-! ## Reading back -/

/-- Entries under every nibble make a branch that holds the entries that go on. -/
theorem holds_branch_cons {children : Nibble → Option Node} {ending : Bytes} {nibble : Nibble}
    (built : children nibble = Node.ofEntries? (entriesBelow nibble entries))
    (holds : (∃ node, Node.ofEntries? (entriesBelow nibble entries) = some node ∧
      node.Holds path value) ↔ (path, value) ∈ entriesBelow nibble entries) :
    (Node.branch children ending).Holds (nibble :: path) value ↔
      (nibble :: path, value) ∈ entries := by
  rw [Node.holds_branch_cons_iff, built, holds, mem_entriesBelow]

theorem holds_iff_mem (ascending : Ascending entries)
    (present : ∀ path value, (path, value) ∈ entries → value ≠ []) :
    (∃ node, Node.ofEntries? entries = some node ∧ node.Holds path value) ↔
      (path, value) ∈ entries := by
  induction entries using Node.ofEntries?.induct generalizing path with
  | case1 => simp [Node.ofEntries?]
  | case2 only held => simp [Node.ofEntries?, Node.holds_leaf_iff]
  | case3 least held second several whole shared nonempty =>
      rename_i ih
      have shares := ascending.shares (List.cons_ne_nil second several)
      have inner {rest : Path} := @ih rest (ascending.drop shares) fun _ _ member =>
        present _ _ ((mem_dropNibbles shares).mp member)
      rw [Node.ofEntries?, if_pos nonempty]
      constructor
      · rintro ⟨node, built, holds⟩
        obtain ⟨child, builtChild, rfl⟩ := Option.map_eq_some_iff.mp built
        obtain ⟨rest, rfl, below⟩ := Node.holds_extension_iff.mp holds
        exact (mem_dropNibbles shares).mp (inner.mp ⟨child, builtChild, below⟩)
      · intro member
        obtain ⟨rest, rfl⟩ := shares _ member
        obtain ⟨child, builtChild, below⟩ := inner.mpr ((mem_dropNibbles shares).mpr member)
        exact ⟨_, Option.map_eq_some_iff.mpr ⟨child, builtChild, rfl⟩, .extension below⟩
  | case4 held second several shared empty =>
      rename_i ih
      have ordered := (List.pairwise_cons.mp ascending).2
      rw [Node.ofEntries?, if_neg empty, if_pos rfl]
      simp only [Option.some.injEq, exists_eq_left']
      cases path with
      | nil =>
          -- The path that ends here comes first, and no other path ends here.
          have others : ([], value) ∉ second :: several := fun member =>
            ascending.ne_nil _ member rfl
          rw [Node.holds_branch_nil_iff, List.mem_cons, or_iff_left others, Prod.mk.injEq]
          have holds : held ≠ [] := present _ _ (List.mem_cons_self ..)
          constructor
          · exact fun ended => ⟨rfl, ended.1⟩
          · rintro ⟨_, rfl⟩
            exact ⟨rfl, holds⟩
      | cons nibble path =>
          have inner := @ih nibble path (Ascending.below ordered nibble) fun _ _ member =>
            present _ _ (List.mem_cons_of_mem _ (mem_entriesBelow.mp member))
          have goesOn : (nibble :: path, value) ≠ ([], held) := by simp
          exact (holds_branch_cons rfl inner).trans
            (List.mem_cons.trans (or_iff_right goesOn)).symm
  | case5 least held second several whole shared empty =>
      rename_i long ih
      rw [Node.ofEntries?, if_neg empty, if_neg long]
      simp only [Option.some.injEq, exists_eq_left']
      cases path with
      | nil =>
          have absent : ([], value) ∉ (least, held) :: second :: several := by
            intro member
            rcases List.mem_cons.mp member with same | later
            · exact long (Prod.mk.inj same).1.symm
            · exact ascending.ne_nil _ later rfl
          rw [Node.holds_branch_nil_iff]
          exact iff_of_false (fun ended => ended.2 ended.1) absent
      | cons nibble path =>
          have inner := @ih nibble path (ascending.below nibble) fun _ _ member =>
            present _ _ (mem_entriesBelow.mp member)
          exact holds_branch_cons rfl inner

/-! ## Keys -/

theorem pathOf_cons (byte : UInt8) (key : Bytes) :
    pathOf (byte :: key) =
      Fin.ofNat 16 (byte.toNat / 16) :: Fin.ofNat 16 byte.toNat :: pathOf key :=
  rfl

theorem length_pathOf (key : Bytes) : (pathOf key).length = 2 * key.length := by
  induction key with
  | nil => rfl
  | cons byte key ih =>
      rw [pathOf_cons]
      simp only [List.length_cons, ih]
      omega

theorem pathOf_injective : ∀ {key other : Bytes}, pathOf key = pathOf other → key = other
  | [], [], _ => rfl
  | [], _ :: _, same => by cases same
  | _ :: _, [], same => by cases same
  | byte :: key, byte' :: other, same => by
      rw [pathOf_cons, pathOf_cons, List.cons.injEq, List.cons.injEq] at same
      obtain ⟨high, low, rest⟩ := same
      have sameHigh := congrArg Fin.val high
      have sameLow := congrArg Fin.val low
      have small := byte.toNat_lt
      have small' := byte'.toNat_lt
      simp only [Fin.ofNat] at sameHigh sameLow
      have sameByte : byte = byte' := UInt8.toNat_inj.mp (by omega)
      rw [sameByte, pathOf_injective rest]

/-- The finite map that entries stand for: the last value of each key. -/
def contents (entries : List (Bytes × Bytes)) : Std.ExtTreeMap Bytes Bytes :=
  .ofList entries

theorem getElem?_insertMany_pathOf (entries : List (Bytes × Bytes))
    {paths : Std.ExtTreeMap Path Bytes} {keys : Std.ExtTreeMap Bytes Bytes}
    (alike : ∀ key, paths[pathOf key]? = keys[key]?) (key : Bytes) :
    (paths.insertMany (entries.map fun (key, value) => (pathOf key, value)))[pathOf key]? =
      (keys.insertMany entries)[key]? := by
  induction entries generalizing paths keys with
  | nil => exact alike key
  | cons entry entries ih =>
      rw [List.map_cons, Std.ExtTreeMap.insertMany_cons, Std.ExtTreeMap.insertMany_cons]
      apply ih
      intro sought
      rw [Std.ExtTreeMap.getElem?_insert, Std.ExtTreeMap.getElem?_insert, alike]
      simp only [Std.LawfulEqCmp.compare_eq_iff_eq]
      by_cases same : entry.1 = sought
      · rw [if_pos (congrArg pathOf same), if_pos same]
      · rw [if_neg (fun paths => same (pathOf_injective paths)), if_neg same]

theorem getElem?_byPath (entries : List (Bytes × Bytes)) (key : Bytes) :
    (byPath entries)[pathOf key]? = (contents entries)[key]? := by
  unfold byPath contents
  rw [Std.ExtTreeMap.ofList_eq_insertMany_empty, Std.ExtTreeMap.ofList_eq_insertMany_empty]
  exact getElem?_insertMany_pathOf entries (fun _ => by simp) key

theorem exists_key {entries : List (Bytes × Bytes)}
    (member : (path, value) ∈ (byPath entries).toList) :
    ∃ key, path = pathOf key ∧ (contents entries)[key]? = some value := by
  have held := Std.ExtTreeMap.mem_toList_iff_getElem?_eq_some.mp member
  have inside : path ∈ byPath entries := by
    rw [Std.ExtTreeMap.mem_iff_isSome_getElem?, held]
    rfl
  rw [byPath, Std.ExtTreeMap.mem_ofList, List.map_map, List.contains_iff_mem] at inside
  obtain ⟨entry, _, rfl⟩ := List.mem_map.mp inside
  exact ⟨entry.1, rfl, (getElem?_byPath entries entry.1).symm.trans held⟩

/-- The trie of entries holds what they say of each key. -/
theorem holds_iff_contents {entries : List (Bytes × Bytes)} {key : Bytes}
    (present : ∀ key : Bytes, (contents entries)[key]? ≠ some []) :
    (∃ node, top? entries = some node ∧ node.Holds (pathOf key) value) ↔ (contents entries)[key]? = some value := by
  have held (path : Path) (value : Bytes) (member : (path, value) ∈ (byPath entries).toList) :
      value ≠ [] := by
    rintro rfl
    obtain ⟨key, _, empty⟩ := exists_key member
    exact present key empty
  rw [top?_eq_ofEntries?, holds_iff_mem (ascending_byPath entries) held,
    Std.ExtTreeMap.mem_toList_iff_getElem?_eq_some, getElem?_byPath]

theorem contents_eq_of_top? {first second : List (Bytes × Bytes)}
    (present : ∀ key : Bytes, (contents first)[key]? ≠ some [])
    (presentOther : ∀ key : Bytes, (contents second)[key]? ≠ some [])
    (same : top? first = top? second) : contents first = contents second := by
  apply Std.ExtTreeMap.ext_getElem?
  intro key
  apply Option.ext
  intro value
  rw [← holds_iff_contents present, ← holds_iff_contents presentOther, same]

end ExecutionLayer.Trie
