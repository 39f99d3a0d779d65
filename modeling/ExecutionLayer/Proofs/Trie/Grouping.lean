import ExecutionLayer.Trie.Root
import Mathlib.Data.List.Pairwise

/-!
# Grouping sorted entries

A trie is built by one walk over entries in ascending order, which takes the entries of a branch's
children from the front of what is left, at a depth that all paths share. The same trie comes of
grouping the entries by their next nibble, whatever their order, and taking the nibbles off that
were spent.
-/

set_option autoImplicit false

namespace ExecutionLayer.Trie

/-- Distinct paths in the order of a dictionary. -/
def Ascending (entries : List Entry) : Prop :=
  entries.Pairwise fun earlier later => compare earlier.1 later.1 = .lt

variable {entries rest : List Entry} {first : Entry} {path : Path} {value : Bytes}

/-! ## Paths in order -/

theorem compare_cons_self (nibble : Nibble) (left right : Path) :
    compare (nibble :: left) (nibble :: right) = compare left right := by
  rw [List.compare_cons_cons, Std.ReflOrd.compare_self]
  rfl

theorem compare_append (shared left right : Path) :
    compare (shared ++ left) (shared ++ right) = compare left right := by
  induction shared with
  | nil => rfl
  | cons nibble shared ih => rw [List.cons_append, List.cons_append, compare_cons_self, ih]

/-- What the outer two of three paths in order share, the middle one shares as well. -/
theorem commonPath_prefix {low middle high : Path} (lower : (compare low middle).isLE)
    (upper : (compare middle high).isLE) : commonPath low high <+: middle := by
  induction low generalizing middle high with
  | nil => exact List.nil_prefix
  | cons nibble low ih =>
      cases high with
      | nil => exact List.nil_prefix
      | cons other high =>
          unfold commonPath
          split
          · rename_i same
            subst same
            cases middle with
            | nil => cases lower
            | cons between middle =>
                rw [List.compare_cons_cons] at lower upper
                have equal : compare nibble between = .eq := Std.OrientedCmp.isLE_antisymm
                  (Ordering.isLE_left_of_isLE_then lower) (Ordering.isLE_left_of_isLE_then upper)
                cases Std.LawfulEqCmp.eq_of_compare equal
                rw [Std.ReflOrd.compare_self] at lower upper
                exact List.cons_prefix_cons.mpr ⟨rfl, ih lower upper⟩
          · exact List.nil_prefix

theorem Ascending.ne_nil (ascending : Ascending (first :: rest)) :
    ∀ entry ∈ rest, entry.1 ≠ [] := by
  intro entry member empty
  have before := (List.pairwise_cons.mp ascending).1 entry member
  rw [empty] at before
  cases shown : first.1 <;> rw [shown] at before <;> cases before

theorem Ascending.shares (ascending : Ascending (first :: rest)) (several : rest ≠ []) :
    ∀ entry ∈ first :: rest, commonPath first.1 (rest.getLast several).1 <+: entry.1 := by
  intro entry member
  have ordered : (first :: rest).Pairwise fun earlier later =>
      (compare earlier.1 later.1).isLE = true :=
    ascending.imp fun before => by rw [before]; rfl
  have upper := ordered.rel_getLast_of_rel_getLast_getLast member Std.ReflOrd.isLE_rfl
  rw [List.getLast_cons several] at upper
  refine commonPath_prefix ?_ upper
  rcases List.mem_cons.mp member with rfl | later
  · exact Std.ReflOrd.isLE_rfl
  · exact (List.pairwise_cons.mp ordered).1 entry later

/-! ## Entries by their next nibble -/

/-- The entries whose path goes on with `nibble`, without that nibble. -/
def entriesBelow (nibble : Nibble) : List Entry → List Entry
  | [] => []
  | (first :: path, value) :: rest =>
      if first = nibble then (path, value) :: entriesBelow nibble rest
      else entriesBelow nibble rest
  | ([], _) :: rest => entriesBelow nibble rest

/-- The entries without the first `count` nibbles of their paths. -/
def dropNibbles (count : Nat) (entries : List Entry) : List Entry :=
  entries.map fun (path, value) => (path.drop count, value)

def totalLength : List Entry → Nat
  | [] => 0
  | (path, _) :: rest => path.length + totalLength rest

theorem totalLength_entriesBelow (nibble : Nibble) (entries : List Entry) :
    totalLength (entriesBelow nibble entries) + (entriesBelow nibble entries).length
      ≤ totalLength entries := by
  induction entries with
  | nil => simp [entriesBelow, totalLength]
  | cons entry rest ih =>
      obtain ⟨path, value⟩ := entry
      cases path with
      | nil =>
          simp only [entriesBelow, totalLength, List.length_nil]
          omega
      | cons first path =>
          simp only [entriesBelow]
          split <;> simp only [totalLength, List.length_cons] <;> omega

theorem totalLength_dropNibbles_le (count : Nat) (entries : List Entry) :
    totalLength (dropNibbles count entries) ≤ totalLength entries := by
  induction entries with
  | nil => simp [dropNibbles]
  | cons entry rest ih =>
      simp only [dropNibbles, List.map_cons, totalLength, List.length_drop] at ih ⊢
      omega

theorem totalLength_dropNibbles_lt {count : Nat} (positive : 0 < count)
    (bounded : count ≤ path.length) :
    totalLength (dropNibbles count ((path, value) :: rest))
      < totalLength ((path, value) :: rest) := by
  have tail := totalLength_dropNibbles_le count rest
  simp only [dropNibbles, List.map_cons, totalLength, List.length_drop] at tail ⊢
  omega

theorem length_dropNibbles (count : Nat) (entries : List Entry) :
    (dropNibbles count entries).length = entries.length := by
  simp [dropNibbles]

theorem dropNibbles_zero (entries : List Entry) : dropNibbles 0 entries = entries := by
  simp [dropNibbles]

theorem dropNibbles_add (count more : Nat) (entries : List Entry) :
    dropNibbles (count + more) entries = dropNibbles more (dropNibbles count entries) := by
  simp [dropNibbles, List.drop_drop]

theorem mem_entriesBelow {nibble : Nibble} :
    (path, value) ∈ entriesBelow nibble entries ↔ (nibble :: path, value) ∈ entries := by
  induction entries with
  | nil => simp [entriesBelow]
  | cons entry entries ih =>
      obtain ⟨whole, held⟩ := entry
      cases whole with
      | nil => simp [entriesBelow, ih]
      | cons other whole =>
          unfold entriesBelow
          split
          · rename_i same
            simp [same, ih]
          · rename_i different
            simp [ih, Ne.symm different]

theorem Ascending.below (ascending : Ascending entries) (nibble : Nibble) :
    Ascending (entriesBelow nibble entries) := by
  induction entries with
  | nil => exact List.Pairwise.nil
  | cons entry entries ih =>
      obtain ⟨least, ordered⟩ := List.pairwise_cons.mp ascending
      obtain ⟨whole, held⟩ := entry
      cases whole with
      | nil => exact ih ordered
      | cons other whole =>
          unfold entriesBelow
          split
          · rename_i same
            refine List.pairwise_cons.mpr ⟨fun later member => ?_, ih ordered⟩
            rw [← compare_cons_self nibble, ← same]
            exact least (other :: later.1, later.2) (mem_entriesBelow.mp (same ▸ member))
          · exact ih ordered

variable {shared : Path}

theorem mem_dropNibbles (shares : ∀ entry ∈ entries, shared <+: entry.1) :
    (path, value) ∈ dropNibbles shared.length entries ↔ (shared ++ path, value) ∈ entries := by
  constructor
  · intro member
    obtain ⟨entry, held, dropped⟩ := List.mem_map.mp member
    obtain ⟨rest, whole⟩ := shares entry held
    obtain ⟨rfl, rfl⟩ := Prod.mk.inj dropped
    rw [← whole, List.drop_left, whole]
    exact held
  · intro member
    refine List.mem_map.mpr ⟨_, member, ?_⟩
    dsimp only
    rw [List.drop_left]

theorem Ascending.drop (ascending : Ascending entries)
    (shares : ∀ entry ∈ entries, shared <+: entry.1) :
    Ascending (dropNibbles shared.length entries) := by
  refine List.pairwise_map.mpr (List.Pairwise.imp_of_mem ?_ ascending)
  intro earlier later member memberLater ordered
  obtain ⟨left, whole⟩ := shares earlier member
  obtain ⟨right, wholeLater⟩ := shares later memberLater
  rw [← whole, ← wholeLater, compare_append] at ordered
  simp only [← whole, ← wholeLater, List.drop_left]
  exact ordered

/-! ## The grouping -/

/-- The trie of entries with distinct paths in ascending order. A branch has under each
nibble the trie of the entries that go on with it, wherever they stand. -/
def Node.ofEntries? : List Entry → Option Node
  | [] => none
  | [(path, value)] => some (.leaf path value)
  | (path, value) :: second :: rest =>
      let entries := (path, value) :: second :: rest
      let shared := commonPath path ((second :: rest).getLast (by simp)).1
      if shared ≠ [] then
        (ofEntries? (dropNibbles shared.length entries)).map (.extension shared)
      else if path = [] then
        some (.branch (fun nibble => ofEntries? (entriesBelow nibble (second :: rest))) value)
      else
        some (.branch (fun nibble => ofEntries? (entriesBelow nibble entries)) [])
termination_by entries => totalLength entries + entries.length
decreasing_by
  · rename_i nonempty
    rw [length_dropNibbles]
    exact Nat.add_lt_add_right
      (totalLength_dropNibbles_lt (List.length_pos_iff.mpr nonempty) (length_commonPath_le _ _)) _
  · have below := totalLength_entriesBelow nibble (second :: rest)
    simp only [totalLength, List.length_cons] at below ⊢
    omega
  · have below := totalLength_entriesBelow nibble ((path, value) :: second :: rest)
    simp only [totalLength, List.length_cons] at below ⊢
    omega

/-! ## The walk makes the groups -/

/-- Entries that are chosen stand in front if none stands behind one that is not. -/
private theorem takeWhile_dropWhile_eq_filter {chosen : Entry → Bool}
    (closed : entries.Pairwise fun earlier later => chosen later = true → chosen earlier = true) :
    entries.takeWhile chosen = entries.filter chosen ∧
      entries.dropWhile chosen = entries.filter fun entry => !chosen entry := by
  induction entries with
  | nil => exact ⟨rfl, rfl⟩
  | cons entry entries ih =>
      obtain ⟨before, closed⟩ := List.pairwise_cons.mp closed
      obtain ⟨front, back⟩ := ih closed
      cases here : chosen entry with
      | true => simp [here, front, back]
      | false =>
          have later : ∀ other ∈ entries, chosen other = false := fun other member =>
            Bool.eq_false_iff.mpr fun held => by
              rw [before other member held] at here
              cases here
          have none : entries.filter chosen = [] :=
            List.filter_eq_nil_iff.mpr fun other member => by simp [later other member]
          have all : (entries.filter fun entry => !chosen entry) = entries :=
            List.filter_eq_self.mpr fun other member => by simp [later other member]
          simp [here, none, all]

section

variable {depth : Nat} {low high nibble : Nibble} {entry : Entry} {shared : Path}

theorem goesOnWith_unique (goesOn : goesOnWith depth low entry = true)
    (alsoOn : goesOnWith depth high entry = true) : low = high :=
  Option.some.inj ((of_decide_eq_true goesOn).symm.trans (of_decide_eq_true alsoOn))

/-- The nibbles at a depth do not descend. -/
def OrderedAt (depth : Nat) (entries : List Entry) : Prop :=
  entries.Pairwise fun earlier later => ∀ low high, goesOnWith depth low earlier = true →
    goesOnWith depth high later = true → low ≤ high

/-- Where the nibbles do not descend, the walk has under each nibble all entries that go on
with it. -/
theorem groups_eq_filter {nibbles : List Nibble} (sorted : nibbles.Pairwise (· < ·))
    (ordered : OrderedAt depth entries)
    (covered : ∀ entry ∈ entries, ∃ nibble ∈ nibbles, goesOnWith depth nibble entry = true) :
    groups depth nibbles entries =
      nibbles.map fun nibble => entries.filter (goesOnWith depth nibble) := by
  -- Every entry that is left goes on with one of the nibbles that are left.
  induction nibbles generalizing entries with
  | nil => rfl
  | cons least nibbles ih =>
      obtain ⟨below, sorted⟩ := List.pairwise_cons.mp sorted
      have closed : entries.Pairwise fun earlier later =>
          goesOnWith depth least later = true → goesOnWith depth least earlier = true := by
        refine List.Pairwise.imp_of_mem (fun {earlier later} member _ before goesOn => ?_) ordered
        obtain ⟨nibble, listed, here⟩ := covered earlier member
        rcases List.mem_cons.mp listed with rfl | further
        · exact here
        · exact absurd (before nibble least here goesOn) (Fin.not_le.mpr (below nibble further))
      obtain ⟨front, back⟩ := takeWhile_dropWhile_eq_filter closed
      rw [groups, front, back, List.map_cons, ih sorted (List.Pairwise.filter _ ordered)]
      · congr 1
        refine List.map_congr_left fun nibble further => ?_
        rw [List.filter_filter]
        refine List.filter_congr fun entry _ => ?_
        cases goesOn : goesOnWith depth nibble entry with
        | false => rfl
        | true =>
            cases other : goesOnWith depth least entry with
            | false => rfl
            | true =>
                have same := goesOnWith_unique other goesOn
                exact absurd (same ▸ below nibble further) (Fin.lt_irrefl _)
      · intro entry member
        obtain ⟨member, others⟩ := List.mem_filter.mp member
        obtain ⟨nibble, listed, here⟩ := covered entry member
        rcases List.mem_cons.mp listed with rfl | further
        · rw [here] at others
          cases others
        · exact ⟨nibble, further, here⟩

theorem goesOnWith_append (deeper : Path) (value : Bytes) :
    goesOnWith shared.length nibble (shared ++ deeper, value) = true ↔
      ∃ rest, deeper = nibble :: rest := by
  unfold goesOnWith
  rw [decide_eq_true_eq, List.getElem?_append_right (Nat.le_refl _), Nat.sub_self]
  cases deeper with
  | nil => simp
  | cons first deeper => simp [eq_comm]

theorem Ascending.orderedAt (ascending : Ascending entries)
    (shares : ∀ entry ∈ entries, shared <+: entry.1) : OrderedAt shared.length entries := by
  refine List.Pairwise.imp_of_mem ?_ ascending
  rintro ⟨path, value⟩ ⟨pathLater, valueLater⟩ member memberLater before low high goesOn goesOnLater
  obtain ⟨left, rfl⟩ : shared <+: path := shares _ member
  obtain ⟨right, rfl⟩ : shared <+: pathLater := shares _ memberLater
  obtain ⟨_, rfl⟩ := (goesOnWith_append left value).mp goesOn
  obtain ⟨_, rfl⟩ := (goesOnWith_append right valueLater).mp goesOnLater
  rw [compare_append, List.compare_cons_cons] at before
  have notAfter : (compare low.val high.val).isLE :=
    Ordering.isLE_left_of_isLE_then (Ordering.isLE_of_eq_lt before)
  exact Nat.isLE_compare.mp notAfter

/-- The group of a nibble, where all paths share `depth` nibbles and go on. -/
theorem getD_groups (ascending : Ascending entries)
    (shares : ∀ entry ∈ entries, shared <+: entry.1)
    (longer : ∀ entry ∈ entries, shared.length < entry.1.length) (nibble : Nibble) :
    (groups shared.length (List.finRange 16) entries).getD nibble [] =
      entries.filter (goesOnWith shared.length nibble) := by
  have covered : ∀ entry ∈ entries, ∃ nibble ∈ List.finRange 16,
      goesOnWith shared.length nibble entry = true := fun entry member =>
    ⟨_, List.mem_finRange _, decide_eq_true (List.getElem?_eq_getElem (longer entry member))⟩
  rw [groups_eq_filter (by decide) (ascending.orderedAt shares) covered]
  simp

/-! ## Both make the same trie -/

theorem entriesBelow_dropNibbles (depth : Nat) (nibble : Nibble) (entries : List Entry) :
    entriesBelow nibble (dropNibbles depth entries) =
      dropNibbles (depth + 1) (entries.filter (goesOnWith depth nibble)) := by
  induction entries with
  | nil => rfl
  | cons entry entries ih =>
      obtain ⟨path, value⟩ := entry
      have next : path[depth]? = (path.drop depth).head? := List.head?_drop.symm
      have tail : path.drop (depth + 1) = (path.drop depth).tail := List.tail_drop.symm
      have whole : dropNibbles depth ((path, value) :: entries) =
          (path.drop depth, value) :: dropNibbles depth entries := rfl
      rw [whole, List.filter_cons, goesOnWith, next]
      cases rest : path.drop depth with
      | nil => simpa [entriesBelow] using ih
      | cons first rest' =>
          rw [rest] at tail
          by_cases same : first = nibble
          · simp only [entriesBelow, same, if_true, ih, List.head?_cons, decide_true]
            simp [dropNibbles, tail]
          · simp [entriesBelow, same, ih]

/-- Grouping what paths have left from a depth on, in terms of the whole paths. -/
theorem ofEntries?_dropNibbles (depth : Nat) (first second : Entry) (rest : List Entry) :
    Node.ofEntries? (dropNibbles depth (first :: second :: rest)) =
      let last := (second :: rest).getLast (List.cons_ne_nil second rest)
      let shared := commonPath (first.1.drop depth) (last.1.drop depth)
      let below (entries : List Entry) (nibble : Nibble) :=
        Node.ofEntries? (dropNibbles (depth + 1) (entries.filter (goesOnWith depth nibble)))
      if shared ≠ [] then
        (Node.ofEntries? (dropNibbles (depth + shared.length) (first :: second :: rest))).map
          (.extension shared)
      else if first.1.drop depth = [] then some (.branch (below (second :: rest)) first.2)
      else some (.branch (below (first :: second :: rest)) []) := by
  have cons (entry : Entry) (entries : List Entry) : dropNibbles depth (entry :: entries) =
      (entry.1.drop depth, entry.2) :: dropNibbles depth entries := rfl
  have last (several : dropNibbles depth (second :: rest) ≠ []) :
      ((dropNibbles depth (second :: rest)).getLast several).1 =
        ((second :: rest).getLast (List.cons_ne_nil second rest)).1.drop depth := by
    simp only [dropNibbles, List.getLast_map]
  simp only [dropNibbles_add, ← entriesBelow_dropNibbles]
  rw [cons first, cons second, Node.ofEntries?]
  simp only [← cons, last]

theorem commonPath_append (shared left right : Path) :
    commonPath (shared ++ left) (shared ++ right) = shared ++ commonPath left right := by
  induction shared with
  | nil => rfl
  | cons nibble shared ih => simp [commonPath, ih]

theorem Ascending.shares_append (ascending : Ascending (first :: rest)) (several : rest ≠ [])
    (shares : ∀ entry ∈ first :: rest, shared <+: entry.1) :
    ∀ entry ∈ first :: rest, shared ++ commonPath (first.1.drop shared.length)
      ((rest.getLast several).1.drop shared.length) <+: entry.1 := by
  have lastMember := List.mem_cons_of_mem first (List.getLast_mem several)
  obtain ⟨left, whole⟩ := shares first (List.mem_cons_self ..)
  obtain ⟨right, wholeLast⟩ := shares _ lastMember
  have all := ascending.shares several
  rw [← whole, ← wholeLast, commonPath_append] at all
  rw [← whole, ← wholeLast, List.drop_left, List.drop_left]
  exact all

theorem shares_filter (shares : ∀ entry ∈ entries, shared <+: entry.1) :
    ∀ entry ∈ entries.filter (goesOnWith shared.length nibble), shared ++ [nibble] <+: entry.1 := by
  rintro ⟨path, value⟩ member
  obtain ⟨member, goesOn⟩ := List.mem_filter.mp member
  obtain ⟨deeper, rfl⟩ : shared <+: path := shares _ member
  obtain ⟨deeper, rfl⟩ := (goesOnWith_append deeper value).mp goesOn
  exact ⟨deeper, List.append_assoc ..⟩

/-- Only the first of some sorted paths can end where what they share does. -/
theorem Ascending.longer (ascending : Ascending (first :: rest))
    (shares : ∀ entry ∈ first :: rest, shared <+: entry.1) :
    ∀ entry ∈ rest, shared.length < entry.1.length := by
  intro entry member
  have left := Ascending.ne_nil (ascending.drop shares) _ (List.mem_map_of_mem member)
  exact Nat.not_le.mp fun ends => left (List.drop_eq_nil_of_le ends)

/-- What goes on with a nibble is sorted as well, and its paths share the nibble too. -/
theorem Ascending.group (ascending : Ascending entries)
    (shares : ∀ entry ∈ entries, shared <+: entry.1)
    (longer : ∀ entry ∈ entries, shared.length < entry.1.length) (nibble : Nibble) :
    let group := (groups shared.length (List.finRange 16) entries).getD nibble []
    group = entries.filter (goesOnWith shared.length nibble) ∧ Ascending group ∧
      ∀ entry ∈ group, shared ++ [nibble] <+: entry.1 := by
  have whole := getD_groups ascending shares longer nibble
  refine ⟨whole, ?_, ?_⟩
  · rw [whole]
    exact List.Pairwise.filter _ ascending
  · rw [whole]
    exact shares_filter shares

/-- From a depth on that all paths share, the walk makes the trie that grouping makes of what
the paths have left. -/
theorem ofSorted?_eq_ofEntries? (ascending : Ascending entries)
    (shares : ∀ entry ∈ entries, shared <+: entry.1) :
    Node.ofSorted? shared.length entries =
      Node.ofEntries? (dropNibbles shared.length entries) := by
  generalize depth_eq : shared.length = depth
  induction depth, entries using Node.ofSorted?.induct generalizing shared with
  | case1 => simp [Node.ofSorted?, dropNibbles, Node.ofEntries?]
  | case2 depth path value => simp [Node.ofSorted?, dropNibbles, Node.ofEntries?]
  | case3 depth first second rest whole last common goesOn =>
      rename_i ih
      subst depth_eq
      rw [Node.ofSorted?, ofEntries?_dropNibbles, if_pos goesOn, if_pos goesOn]
      congr 1
      exact ih ascending (ascending.shares_append (List.cons_ne_nil second rest) shares)
        List.length_append
  | case4 first second rest last common nothing =>
      rename_i ih
      have ordered : Ascending (second :: rest) := (List.pairwise_cons.mp ascending).2
      obtain rfl : shared = first.1 :=
        (shares first (List.mem_cons_self ..)).eq_of_length depth_eq
      have sharesRest : ∀ entry ∈ second :: rest, first.1 <+: entry.1 :=
        fun entry member => shares entry (List.mem_cons_of_mem _ member)
      rw [Node.ofSorted?, ofEntries?_dropNibbles, if_neg nothing, if_neg nothing, if_pos rfl,
        if_pos List.drop_length]
      dsimp only
      congr 2
      funext nibble
      obtain ⟨whole, sorted, deeper⟩ := ordered.group sharesRest (ascending.longer shares) nibble
      rw [ih nibble sorted deeper List.length_append, whole]
  | case5 depth first second rest whole last common nothing long =>
      rename_i ih
      subst depth_eq
      have before := (shares first (List.mem_cons_self ..)).length_le
      have goesOn : shared.length < first.1.length := by omega
      have longer : ∀ entry ∈ whole, shared.length < entry.1.length :=
        List.forall_mem_cons.mpr ⟨goesOn, ascending.longer shares⟩
      rw [Node.ofSorted?, ofEntries?_dropNibbles, if_neg nothing, if_neg nothing, if_neg long,
        if_neg (mt List.drop_eq_nil_iff.mp (Nat.not_le.mpr goesOn))]
      dsimp only
      congr 2
      funext nibble
      obtain ⟨part, sorted, deeper⟩ := ascending.group shares longer nibble
      rw [ih nibble sorted deeper List.length_append, part]

end

theorem ascending_byPath (entries : List (Bytes × Bytes)) : Ascending (byPath entries).toList :=
  Std.ExtTreeMap.ordered_keys_toList

/-- The trie of a map, which one walk makes, is the one that grouping makes. -/
theorem top?_eq_ofEntries? (entries : List (Bytes × Bytes)) :
    top? entries = Node.ofEntries? (byPath entries).toList := by
  have built := @ofSorted?_eq_ofEntries? _ [] (ascending_byPath entries)
    fun _ _ => List.nil_prefix
  rwa [List.length_nil, dropNibbles_zero] at built

end ExecutionLayer.Trie
