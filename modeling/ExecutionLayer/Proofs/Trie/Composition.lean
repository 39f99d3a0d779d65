import ExecutionLayer.Proofs.Trie.Contents
import Mathlib.Data.List.FinRange
import Mathlib.Logic.Function.Basic

/-!
# The composition of a trie

The structure of a Merkle-Patricia trie (Yellow Paper, Appendix D) is a function of a finite map
from paths, whatever the order in which the map is listed: one entry is a leaf, the longest path
that all entries share is an extension, and otherwise the entries are grouped by their next nibble.
The trie that is built of a sorted list, by looking at its ends only, is the one composed of the
map.
-/

set_option autoImplicit false

namespace ExecutionLayer.Trie

abbrev PathMap := Path → Option Bytes

namespace PathMap

def empty : PathMap := fun _ => none

def single (path : Path) (value : Bytes) : PathMap :=
  fun sought => if sought = path then some value else none

/-- What a map holds behind a path, by the rest of each path. -/
def below (map : PathMap) (shared : Path) : PathMap :=
  fun path => map (shared ++ path)

/-- All paths of a map begin with a path. -/
def Shares (map : PathMap) (shared : Path) : Prop :=
  ∀ path value, map path = some value → shared <+: path

/-- A path is the longest one that all paths of a map begin with. -/
def SharesLongest (map : PathMap) (shared : Path) : Prop :=
  map.Shares shared ∧ ∀ other, map.Shares other → other <+: shared

def Several (map : PathMap) : Prop :=
  ∃ first second, first ≠ second ∧ map first ≠ none ∧ map second ≠ none

end PathMap

/-! ## The reference -/

/-- Two nibbles a byte, the higher one first. -/
def pairUp (nibbles : List Nat) : Bytes :=
  (List.range (nibbles.length / 2)).map fun index =>
    UInt8.ofNat (16 * nibbles.getD (2 * index) 0 + nibbles.getD (2 * index + 1) 0)

/-- A path with a nibble in front that tells its kind and the parity of its length, and with a
zero between them if the length is even. -/
def hexPrefix (path : Path) (isLeaf : Bool) : Bytes :=
  let kind := if isLeaf then 2 else 0
  pairUp (if path.length % 2 = 1 then (kind + 1) :: path.map (·.val)
    else kind :: 0 :: path.map (·.val))

mutual

/-- The item of the root node of a map that is not empty. -/
inductive Composes : PathMap → Rlp.Item → Prop where
  | leaf (path : Path) (value : Bytes) :
      Composes (.single path value) (.list [.data (hexPrefix path true), .data value])
  | extension {map : PathMap} {shared : Path} {child : Rlp.Item} (several : map.Several)
      (longest : map.SharesLongest shared) (goesOn : shared ≠ [])
      (held : Refers (map.below shared) child) :
      Composes map (.list [.data (hexPrefix shared false), child])
  | branch {map : PathMap} {children : Nibble → Rlp.Item} (several : map.Several)
      (longest : map.SharesLongest [])
      (held : ∀ nibble, Refers (map.below [nibble]) (children nibble)) :
      Composes map (.list (List.ofFn children ++ [.data ((map []).getD [])]))

/-- What stands for a map in the node above it: nothing for the empty map, the item of its root
node where that is short, and a digest otherwise. -/
inductive Refers : PathMap → Rlp.Item → Prop where
  | empty : Refers .empty (.data [])
  | inline {map : PathMap} {item : Rlp.Item} (composed : Composes map item)
      (short : item.encode.length < 32) : Refers map item
  | digest {map : PathMap} {item : Rlp.Item} (composed : Composes map item)
      (long : 32 ≤ item.encode.length) : Refers map (.ofHash (keccak256 item.encode))

end

def IsRoot (map : PathMap) (root : Hash) : Prop :=
  (map = .empty ∧ root = keccak256 (Rlp.Item.data []).encode) ∨
    ∃ item, Composes map item ∧ root = keccak256 item.encode

/-- The map of entries, each of which replaces what its key had before. -/
def lastValues (entries : List (Bytes × Bytes)) : PathMap :=
  entries.foldl (fun map entry => Function.update map (pathOf entry.1) (some entry.2)) .empty

/-! ## The reference is a function -/

section

variable {map : PathMap} {item other : Rlp.Item} {path : Path} {value : Bytes}

theorem PathMap.not_several_single : ¬(PathMap.single path value).Several := by
  rintro ⟨first, second, distinct, present, presentOther⟩
  have only (sought : Path) (held : PathMap.single path value sought ≠ none) : sought = path :=
    Decidable.byContradiction fun differs => held (if_neg differs)
  exact distinct ((only first present).trans (only second presentOther).symm)

theorem PathMap.single_injective {path' : Path} {value' : Bytes}
    (same : single path value = single path' value') : path = path' ∧ value = value' := by
  have held := congrFun same path
  rw [single, if_pos rfl, single] at held
  split at held
  · rename_i samePath
    exact ⟨samePath, Option.some.inj held⟩
  · cases held

theorem PathMap.SharesLongest.unique {first second : Path} (longest : map.SharesLongest first)
    (otherLongest : map.SharesLongest second) : first = second :=
  List.IsPrefix.eq_of_length_le (otherLongest.2 first longest.1)
    (longest.2 second otherLongest.1).length_le

theorem Composes.ne_empty (composed : Composes map item) : map ≠ .empty := by
  rintro rfl
  generalize shown : PathMap.empty = map at composed
  cases composed with
  | leaf path value =>
      have held := congrFun shown path
      rw [PathMap.empty, PathMap.single, if_pos rfl] at held
      cases held
  | extension several | branch several =>
      obtain ⟨path, _, _, present, _⟩ := several
      exact present (congrFun shown path).symm

theorem Composes.of_single (composed : Composes (.single path value) item) :
    item = .list [.data (hexPrefix path true), .data value] := by
  generalize shown : PathMap.single path value = map at composed
  cases composed with
  | leaf path' value' =>
      obtain ⟨rfl, rfl⟩ := PathMap.single_injective shown
      rfl
  | extension several | branch several =>
      rw [← shown] at several
      exact absurd several PathMap.not_several_single

theorem Composes.of_shared {shared : Path} (composed : Composes map item) (several : map.Several)
    (longest : map.SharesLongest shared) (goesOn : shared ≠ []) :
    ∃ child, item = .list [.data (hexPrefix shared false), child] ∧
      Refers (map.below shared) child := by
  cases composed with
  | leaf path value => exact absurd several PathMap.not_several_single
  | extension _ longestOther _ held =>
      rw [longestOther.unique longest] at held ⊢
      exact ⟨_, rfl, held⟩
  | branch _ nothing => exact absurd (longest.unique nothing) goesOn

theorem Composes.of_forked (composed : Composes map item) (several : map.Several)
    (longest : map.SharesLongest []) :
    ∃ children : Nibble → Rlp.Item,
      item = .list (List.ofFn children ++ [.data ((map []).getD [])]) ∧
        ∀ nibble, Refers (map.below [nibble]) (children nibble) := by
  cases composed with
  | leaf path value => exact absurd several PathMap.not_several_single
  | extension _ longestOther goesOn => exact absurd (longestOther.unique longest) goesOn
  | branch _ _ held => exact ⟨_, rfl, held⟩

theorem Composes.unique (composed : Composes map item) (composedOther : Composes map other) :
    item = other := by
  -- What a node refers to has to be unique along with it, so both relations get a motive.
  refine @Composes.rec (fun map item _ => ∀ other, Composes map other → item = other)
    (fun map item _ => ∀ other, Refers map other → item = other)
    ?leaf ?extension ?branch ?empty ?inline ?digest map item composed other composedOther
  case leaf => exact fun path value other composed => composed.of_single.symm
  case extension =>
    intro map shared child several longest goesOn _ ih other composed
    obtain ⟨childOther, rfl, held⟩ := composed.of_shared several longest goesOn
    rw [ih childOther held]
  case branch =>
    intro map children several longest _ ih other composed
    obtain ⟨childrenOther, rfl, held⟩ := composed.of_forked several longest
    rw [funext fun nibble => ih nibble _ (held nibble)]
  case empty =>
    intro other refers
    generalize shown : PathMap.empty = map at refers
    cases refers with
    | empty => rfl
    | inline composed | digest composed => exact absurd shown.symm composed.ne_empty
  case inline =>
    intro map item composed short ih other refers
    cases refers with
    | empty => exact absurd rfl composed.ne_empty
    | inline composedOther => exact ih _ composedOther
    | digest composedOther long =>
        rw [← ih _ composedOther] at long
        omega
  case digest =>
    intro map item composed long ih other refers
    cases refers with
    | empty => exact absurd rfl composed.ne_empty
    | inline composedOther short =>
        rw [← ih _ composedOther] at short
        omega
    | digest composedOther => rw [ih _ composedOther]

end

/-! ## Packed paths -/

theorem pairUp_cons_cons (high low : Nat) (rest : List Nat) :
    pairUp (high :: low :: rest) = UInt8.ofNat (high * 16 + low) :: pairUp rest := by
  have count : (high :: low :: rest).length / 2 = rest.length / 2 + 1 := by
    simp only [List.length_cons]
    omega
  unfold pairUp
  rw [count, List.range_succ_eq_map, List.map_cons, List.map_map]
  congr 1
  rw [Nat.mul_comm high]
  rfl

theorem packPairs_eq_pairUp : ∀ {path : Path}, path.length % 2 = 0 →
    packPairs path = pairUp (path.map (·.val))
  | [], _ => rfl
  | [_], odd => by simp at odd
  | high :: low :: rest, even => by
      simp only [List.length_cons] at even
      have packed : packPairs rest = pairUp (rest.map (·.val)) := packPairs_eq_pairUp (by omega)
      rw [packPairs, packed, List.map_cons, List.map_cons, pairUp_cons_cons]
      rfl

theorem hexPrefixed_eq_hexPrefix (path : Path) (isLeaf : Bool) :
    hexPrefixed path isLeaf = hexPrefix path isLeaf := by
  unfold hexPrefixed hexPrefix
  dsimp only
  split
  · rename_i odd
    cases path with
    | nil => simp at odd
    | cons first rest =>
        simp only [List.length_cons] at odd
        rw [List.map_cons, pairUp_cons_cons, ← packPairs_eq_pairUp (by omega)]
        rfl
  · rw [pairUp_cons_cons, ← packPairs_eq_pairUp (by omega)]
    rfl

/-! ## The trie of a sorted list -/

/-- A list has the entries of a map. -/
def Lists (entries : List Entry) (map : PathMap) : Prop :=
  ∀ path value, (path, value) ∈ entries ↔ map path = some value

section

variable {entries rest : List Entry} {map : PathMap} {shared path : Path} {value : Bytes}
  {nibble : Nibble} {node : Node}

theorem Lists.below (lists : Lists entries map) (nibble : Nibble) :
    Lists (entriesBelow nibble entries) (map.below [nibble]) :=
  fun path value => mem_entriesBelow.trans (lists (nibble :: path) value)

theorem Lists.drop (lists : Lists entries map) (shares : ∀ entry ∈ entries, shared <+: entry.1) :
    Lists (dropNibbles shared.length entries) (map.below shared) :=
  fun path value => (mem_dropNibbles shares).trans (lists (shared ++ path) value)

theorem Lists.eq_empty (lists : Lists [] map) : map = .empty := by
  funext path
  cases held : map path with
  | none => rfl
  | some value => cases (lists path value).mpr held

theorem Lists.eq_single (lists : Lists [(path, value)] map) : map = .single path value := by
  funext sought
  have here : map path = some value := (lists path value).mp (List.mem_singleton_self _)
  unfold PathMap.single
  split
  · rename_i same
    rw [same, here]
  · rename_i differs
    cases held : map sought with
    | none => rfl
    | some found =>
        have listed := List.mem_singleton.mp ((lists sought found).mpr held)
        exact absurd (congrArg Prod.fst listed) differs

theorem Lists.several {first second : Entry} (lists : Lists (first :: second :: rest) map)
    (ascending : Ascending (first :: second :: rest)) : map.Several := by
  have distinct : compare first.1 second.1 = .lt :=
    (List.pairwise_cons.mp ascending).1 second (List.mem_cons_self ..)
  have present (entry : Entry) (member : entry ∈ first :: second :: rest) :
      map entry.1 ≠ none := by
    rw [(lists entry.1 entry.2).mp member]
    exact Option.some_ne_none _
  refine ⟨first.1, second.1, fun same => ?_, present first (by simp), present second (by simp)⟩
  rw [same, Std.ReflOrd.compare_self] at distinct
  cases distinct

theorem isPrefix_commonPath {left right : Path} (before : shared <+: left)
    (beforeOther : shared <+: right) : shared <+: commonPath left right := by
  induction shared generalizing left right with
  | nil => exact List.nil_prefix
  | cons nibble shared ih =>
      obtain ⟨left, rfl⟩ := before
      obtain ⟨right, rfl⟩ := beforeOther
      rw [List.cons_append, List.cons_append, commonPath, if_pos rfl, List.cons_prefix_cons]
      exact ⟨rfl, ih (List.prefix_append ..) (List.prefix_append ..)⟩

/-- What the first and the last of some sorted paths share is the longest that all share. -/
theorem Lists.sharesLongest {first : Entry} (lists : Lists (first :: rest) map)
    (ascending : Ascending (first :: rest)) (several : rest ≠ []) :
    map.SharesLongest (commonPath first.1 (rest.getLast several).1) := by
  refine ⟨fun path value held => ?_, fun other shares => ?_⟩
  · exact ascending.shares several _ ((lists path value).mpr held)
  · have before (entry : Entry) (member : entry ∈ first :: rest) : other <+: entry.1 :=
      shares entry.1 entry.2 ((lists _ _).mp member)
    exact isPrefix_commonPath (before first (List.mem_cons_self ..))
      (before _ (List.mem_cons_of_mem _ (List.getLast_mem several)))

theorem ofEntries?_eq_none (none : Node.ofEntries? entries = none) : entries = [] := by
  induction entries using Node.ofEntries?.induct with
  | case1 => rfl
  | case2 path value => simp [Node.ofEntries?] at none
  | case3 _ _ _ _ _ shared nonempty ih =>
      rw [Node.ofEntries?, if_pos nonempty, Option.map_eq_none_iff] at none
      cases ih none
  | case4 _ _ _ shared empty =>
      rw [Node.ofEntries?, if_neg empty, if_pos rfl] at none
      cases none
  | case5 _ _ _ _ _ shared empty long =>
      rw [Node.ofEntries?, if_neg empty, if_neg long] at none
      cases none

/-- What stands in a branch for the entries below a nibble. -/
theorem refers_childItem (lists : Lists entries map)
    (composes : ∀ node, Node.ofEntries? entries = some node → Composes map node.item) :
    Refers map (childItem (Node.ofEntries? entries)) := by
  cases built : Node.ofEntries? entries with
  | none =>
      rw [ofEntries?_eq_none built] at lists
      rw [lists.eq_empty, childItem]
      exact .empty
  | some node =>
      have composed := composes node built
      rw [childItem, reference]
      split
      · exact .inline composed ‹_›
      · exact .digest composed (Nat.not_lt.mp ‹_›)

/-- The trie of a sorted list is composed of the map that the list has the entries of. -/
theorem Lists.composes (lists : Lists entries map) (ascending : Ascending entries)
    (built : Node.ofEntries? entries = some node) : Composes map node.item := by
  induction entries using Node.ofEntries?.induct generalizing map node with
  | case1 =>
      rw [Node.ofEntries?] at built
      cases built
  | case2 path value =>
      rw [Node.ofEntries?] at built
      cases built
      rw [lists.eq_single, Node.item, hexPrefixed_eq_hexPrefix]
      exact .leaf path value
  | case3 path value second rest whole shared =>
      rename_i goesOn ih
      have shares := ascending.shares (List.cons_ne_nil second rest)
      rw [Node.ofEntries?, if_pos goesOn] at built
      obtain ⟨child, builtChild, rfl⟩ := Option.map_eq_some_iff.mp built
      have below : Lists (dropNibbles shared.length whole) (map.below shared) := lists.drop shares
      have held := refers_childItem below fun _ => ih below (ascending.drop shares)
      rw [builtChild, childItem] at held
      rw [Node.item, hexPrefixed_eq_hexPrefix]
      exact .extension (lists.several ascending)
        (lists.sharesLongest ascending (List.cons_ne_nil second rest)) goesOn held
  | case4 value second rest shared nothing =>
      rename_i ih
      have ordered := (List.pairwise_cons.mp ascending).2
      have ending : map [] = some value := (lists [] value).mp (List.mem_cons_self ..)
      have longest := lists.sharesLongest ascending (List.cons_ne_nil second rest)
      rw [Node.ofEntries?, if_neg nothing, if_pos rfl] at built
      cases built
      -- The path that ends here goes on under no nibble, so the others list what is below.
      have below (nibble : Nibble) : Lists (entriesBelow nibble (second :: rest))
          (map.below [nibble]) := by
        have whole := lists.below nibble
        rwa [entriesBelow] at whole
      rw [Node.item, ← List.ofFn_eq_map, ← Option.getD_some (a := value) (b := []), ← ending]
      exact .branch (lists.several ascending) (not_not.mp nothing ▸ longest) fun nibble =>
        refers_childItem (below nibble) fun _ =>
          ih nibble (below nibble) (Ascending.below ordered nibble)
  | case5 path value second rest whole shared nothing =>
      rename_i long ih
      have absent : map [] = none := by
        cases held : map [] with
        | none => rfl
        | some ending =>
            rcases List.mem_cons.mp ((lists [] ending).mpr held) with first | later
            · exact absurd (congrArg Prod.fst first).symm long
            · exact absurd rfl (ascending.ne_nil _ later)
      have longest := lists.sharesLongest ascending (List.cons_ne_nil second rest)
      rw [Node.ofEntries?, if_neg nothing, if_neg long] at built
      cases built
      rw [Node.item, ← List.ofFn_eq_map, ← Option.getD_none (a := ([] : Bytes)), ← absent]
      exact .branch (lists.several ascending) (not_not.mp nothing ▸ longest) fun nibble =>
        refers_childItem (lists.below nibble) fun _ =>
          ih nibble (lists.below nibble) (ascending.below nibble)

end

/-! ## Roots -/

theorem getElem?_insertMany_eq_foldl (entries : List (Bytes × Bytes))
    {paths : Std.ExtTreeMap Path Bytes} {map : PathMap} (alike : ∀ path, paths[path]? = map path)
    (path : Path) :
    (paths.insertMany (entries.map fun (key, value) => (pathOf key, value)))[path]? =
      entries.foldl (fun map entry => Function.update map (pathOf entry.1) (some entry.2)) map
        path := by
  induction entries generalizing paths map with
  | nil => exact alike path
  | cons entry entries ih =>
      rw [List.map_cons, Std.ExtTreeMap.insertMany_cons, List.foldl_cons]
      apply ih
      intro sought
      rw [Std.ExtTreeMap.getElem?_insert, alike, Function.update_apply]
      simp only [Std.LawfulEqCmp.compare_eq_iff_eq, @eq_comm _ sought]

theorem lists_byPath (entries : List (Bytes × Bytes)) :
    Lists (byPath entries).toList (lastValues entries) := by
  intro path value
  rw [Std.ExtTreeMap.mem_toList_iff_getElem?_eq_some, byPath,
    Std.ExtTreeMap.ofList_eq_insertMany_empty]
  have same := @getElem?_insertMany_eq_foldl entries ∅ .empty
    (fun _ => Std.ExtTreeMap.getElem?_empty) path
  rw [same, lastValues]

theorem isRoot_root (entries : List (Bytes × Bytes)) :
    IsRoot (lastValues entries) (root entries) := by
  have lists := lists_byPath entries
  rw [root, top?_eq_ofEntries?]
  cases built : Node.ofEntries? (byPath entries).toList with
  | none =>
      rw [ofEntries?_eq_none built] at lists
      exact .inl ⟨lists.eq_empty, rootOfNode?_none⟩
  | some node => exact .inr ⟨_, lists.composes (ascending_byPath entries) built, rfl⟩

theorem IsRoot.unique {map : PathMap} {first second : Hash} (isRoot : IsRoot map first)
    (isRootOther : IsRoot map second) : first = second := by
  rcases isRoot with ⟨empty, rfl⟩ | ⟨item, composed, rfl⟩
  · rcases isRootOther with ⟨-, rfl⟩ | ⟨other, composedOther, -⟩
    · rfl
    · exact absurd empty composedOther.ne_empty
  · rcases isRootOther with ⟨empty, -⟩ | ⟨other, composedOther, rfl⟩
    · exact absurd empty composed.ne_empty
    · rw [composed.unique composedOther]

theorem lastValues_perm {entries reordered : List (Bytes × Bytes)} (perm : entries.Perm reordered)
    (distinct : (entries.map Prod.fst).Nodup) : lastValues entries = lastValues reordered := by
  unfold lastValues
  refine perm.foldl_eq' (fun first member second memberOther map => ?_) _
  by_cases same : first = second
  · rw [same]
  · have keys : first.1 ≠ second.1 := fun alike =>
      same (List.inj_on_of_nodup_map distinct member memberOther alike)
    exact Function.update_comm (fun paths => keys (pathOf_injective paths)) ..

/-- The root of entries is the one root that the map of their last values composes to. So the
order of entries with distinct keys does not matter. -/
theorem root_composed (entries : List (Bytes × Bytes)) :
    (∀ digest : Hash, IsRoot (lastValues entries) digest ↔ digest = root entries) ∧
      ∀ reordered : List (Bytes × Bytes), entries.Perm reordered →
        (entries.map Prod.fst).Nodup → root reordered = root entries := by
  refine ⟨fun digest => ?_, fun reordered perm distinct => ?_⟩
  · constructor
    · exact fun isRoot => isRoot.unique (isRoot_root entries)
    · rintro rfl
      exact isRoot_root entries
  · have same := isRoot_root reordered
    rw [← lastValues_perm perm distinct] at same
    exact same.unique (isRoot_root entries)

/-- Three keys, of which one goes on where another one ends, the other way round. -/
theorem root_composed_reversed :
    let entries : List (Bytes × Bytes) := [([1, 2], [9]), ([1, 2, 3], [8]), ([1, 3], [7])]
    entries.Perm entries.reverse ∧ (entries.map Prod.fst).Nodup ∧
      root entries.reverse = root entries := by
  intro entries
  have perm : entries.Perm entries.reverse := entries.reverse_perm.symm
  have distinct : (entries.map Prod.fst).Nodup := by decide
  exact ⟨perm, distinct, (root_composed entries).2 entries.reverse perm distinct⟩

end ExecutionLayer.Trie
