import ExecutionLayer.Rlp.Item
import ExecutionLayer.Digest.Keccak

/-!
# Trie nodes

The shape of a Merkle-Patricia trie over nibble paths, the encoding of its
nodes, and its construction from entries in path order.
-/

set_option autoImplicit false

namespace ExecutionLayer.Trie

abbrev Nibble := Fin 16

/-- A path from the root, most significant nibble first. -/
abbrev Path := List Nibble

instance : Std.TransOrd Path := List.instTransOrd

abbrev Entry := Path × Bytes

def pathOf (key : Bytes) : Path :=
  key.flatMap fun byte => [Fin.ofNat 16 (byte.toNat / 16), Fin.ofNat 16 byte.toNat]

/-- A trie node. An extension shortens a path that all keys below it share; a
branch splits by the next nibble and may hold the value of a path that ends there. -/
inductive Node where
  | leaf (path : Path) (value : Bytes)
  | extension (path : Path) (child : Node)
  | branch (children : Nibble → Option Node) (value : Bytes)

private def pairByte (high low : Nat) : UInt8 :=
  UInt8.ofNat (high * 16 + low)

/-- Nibbles packed two by two; a last nibble without partner is dropped. -/
def packPairs : Path → Bytes
  | high :: low :: rest => pairByte high low :: packPairs rest
  | _ => []

/-- A path behind a flag nibble that tells leaves from extensions and odd lengths
from even ones, packed two nibbles a byte. -/
def hexPrefixed (path : Path) (isLeaf : Bool) : Bytes :=
  let flag := if isLeaf then 2 else 0
  if path.length % 2 = 1 then
    match path with
    | first :: rest => pairByte (flag + 1) first :: packPairs rest
    | [] => []
  else pairByte flag 0 :: packPairs path

private theorem toNat_pairByte {high low : Nat} (highFits : high < 16) (lowFits : low < 16) :
    (pairByte high low).toNat = high * 16 + low := by
  rw [pairByte, UInt8.toNat_ofNat', Nat.mod_eq_of_lt (by omega)]

private theorem pairByte_injective {high low high' low' : Nat} (highFits : high < 16)
    (lowFits : low < 16) (highFits' : high' < 16) (lowFits' : low' < 16)
    (same : pairByte high low = pairByte high' low') : high = high' ∧ low = low' := by
  have value := congrArg UInt8.toNat same
  rw [toNat_pairByte highFits lowFits, toNat_pairByte highFits' lowFits'] at value
  omega

theorem packPairs_injective : ∀ {left right : Path}, left.length % 2 = 0 → right.length % 2 = 0 →
    packPairs left = packPairs right → left = right
  | [], [], _, _, _ => rfl
  | [_], _, odd, _, _ => by simp at odd
  | _, [_], _, odd, _ => by simp at odd
  | [], _ :: _ :: _, _, _, same => by cases same
  | _ :: _ :: _, [], _, _, same => by cases same
  | high :: low :: left, high' :: low' :: right, even, even', same => by
      simp only [packPairs, List.cons.injEq] at same
      obtain ⟨pair, rest⟩ := same
      obtain ⟨sameHigh, sameLow⟩ :=
        pairByte_injective high.isLt low.isLt high'.isLt low'.isLt pair
      simp only [List.length_cons] at even even'
      have sameRest : left = right := packPairs_injective (by omega) (by omega) rest
      rw [Fin.ext sameHigh, Fin.ext sameLow, sameRest]

/-- The flag nibble and what stands behind it. -/
private theorem hexPrefixed_eq_cons (path : Path) (isLeaf : Bool) :
    ∃ (first : Nibble) (rest : Path), rest.length % 2 = 0 ∧
      hexPrefixed path isLeaf =
        pairByte ((if isLeaf then 2 else 0) + path.length % 2) first :: packPairs rest ∧
      (path.length % 2 = 1 → path = first :: rest) ∧ (path.length % 2 = 0 → path = rest) := by
  unfold hexPrefixed
  dsimp only
  by_cases odd : path.length % 2 = 1
  · cases path with
    | nil => simp at odd
    | cons first rest =>
        refine ⟨first, rest, ?_, ?_, fun _ => rfl, fun even => by omega⟩
        · rw [List.length_cons] at odd
          omega
        · rw [if_pos odd, odd]
  · have even : path.length % 2 = 0 := by omega
    refine ⟨0, path, even, ?_, fun odd => by omega, fun _ => rfl⟩
    rw [if_neg odd, even]
    rfl

theorem hexPrefixed_injective {left right : Path} {isLeaf wasLeaf : Bool}
    (same : hexPrefixed left isLeaf = hexPrefixed right wasLeaf) :
    left = right ∧ isLeaf = wasLeaf := by
  obtain ⟨first, rest, even, shown, ofOdd, ofEven⟩ := hexPrefixed_eq_cons left isLeaf
  obtain ⟨first', rest', even', shown', ofOdd', ofEven'⟩ := hexPrefixed_eq_cons right wasLeaf
  rw [shown, shown', List.cons.injEq] at same
  obtain ⟨flag, packed⟩ := same
  have parity := Nat.mod_two_eq_zero_or_one left.length
  have parity' := Nat.mod_two_eq_zero_or_one right.length
  have small (kind : Bool) : (if kind then 2 else 0) ≤ 2 := by cases kind <;> decide
  have bound := small isLeaf
  have bound' := small wasLeaf
  obtain ⟨flags, nibbles⟩ :=
    pairByte_injective (by omega) first.isLt (by omega) first'.isLt flag
  have sameRest := packPairs_injective even even' packed
  have kinds : isLeaf = wasLeaf ∧ left.length % 2 = right.length % 2 := by
    cases isLeaf <;> cases wasLeaf <;> simp at flags ⊢ <;> omega
  refine ⟨?_, kinds.1⟩
  rcases parity with isEven | isOdd
  · rw [ofEven isEven, ofEven' (kinds.2.symm.trans isEven), sameRest]
  · rw [ofOdd isOdd, ofOdd' (kinds.2.symm.trans isOdd), sameRest, Fin.ext nibbles]

/-- How a parent holds a node: by its encoding if that is shorter than a digest,
else by the digest of its encoding. -/
def reference (item : Rlp.Item) : Rlp.Item :=
  let encoded := item.encode
  if encoded.length < 32 then item else .ofHash (keccak256 encoded)

mutual

def Node.item : Node → Rlp.Item
  | .leaf path value => .list [.data (hexPrefixed path true), .data value]
  | .extension path child => .list [.data (hexPrefixed path false), reference child.item]
  | .branch children value =>
      .list ((List.finRange 16).map (fun nibble => childItem (children nibble)) ++ [.data value])
termination_by structural node => node

def childItem : Option Node → Rlp.Item
  | none => .data []
  | some child => reference child.item
termination_by structural child => child

end

def Node.encode (node : Node) : Bytes :=
  node.item.encode

def commonPath : Path → Path → Path
  | a :: left, b :: right => if a = b then a :: commonPath left right else []
  | _, _ => []

theorem length_commonPath_le (left right : Path) :
    (commonPath left right).length ≤ left.length := by
  induction left generalizing right with
  | nil => simp [commonPath]
  | cons first left ih =>
      cases right with
      | nil => simp [commonPath]
      | cons second right =>
          simp only [commonPath]
          split
          · simp only [List.length_cons]
            have := ih right
            omega
          · simp

/-! ## Groups -/

def goesOnWith (depth : Nat) (nibble : Nibble) (entry : Entry) : Bool :=
  entry.1[depth]? = some nibble

/-- One walk over the entries, with a group for each nibble in turn: as many entries from
the front of what is left as go on with it at `depth`. -/
def groups (depth : Nat) : List Nibble → List Entry → List (List Entry)
  | [], _ => []
  | nibble :: nibbles, entries =>
      entries.takeWhile (goesOnWith depth nibble) ::
        groups depth nibbles (entries.dropWhile (goesOnWith depth nibble))

theorem getD_groups_sublist (depth : Nat) (nibbles : List Nibble) (entries : List Entry)
    (index : Nat) : ((groups depth nibbles entries).getD index []).Sublist entries := by
  induction nibbles generalizing entries index with
  | nil => simp [groups]
  | cons nibble nibbles ih =>
      cases index with
      | zero => exact List.takeWhile_sublist _
      | succ index => exact (ih _ index).trans (List.dropWhile_sublist _)

theorem depth_lt_of_mem_groups {depth index : Nat} {nibbles : List Nibble} {entries : List Entry}
    {entry : Entry} (member : entry ∈ (groups depth nibbles entries).getD index []) :
    depth < entry.1.length := by
  induction nibbles generalizing entries index with
  | nil => simp [groups] at member
  | cons nibble nibbles ih =>
      cases index with
      | zero =>
          have whole := List.all_eq_true.mp
            (@List.all_takeWhile _ (goesOnWith depth nibble) entries) entry member
          exact (List.getElem?_eq_some_iff.mp (of_decide_eq_true whole)).1
      | succ index => exact ih member

/-! ## Tries of sorted entries -/

/-- The number of nibbles that stand behind `depth` in all paths. -/
def nibblesBehind (depth : Nat) : List Entry → Nat
  | [] => 0
  | (path, _) :: rest => path.length - depth + nibblesBehind depth rest

theorem nibblesBehind_add_le (depth count : Nat) (entries : List Entry) :
    nibblesBehind (depth + count) entries ≤ nibblesBehind depth entries := by
  induction entries with
  | nil => exact Nat.le_refl _
  | cons entry entries ih =>
      simp only [nibblesBehind] at ih ⊢
      omega

theorem nibblesBehind_add_lt {depth count : Nat} {first : Entry} {rest : List Entry}
    (positive : 0 < count) (bounded : count ≤ (first.1.drop depth).length) :
    nibblesBehind (depth + count) (first :: rest) < nibblesBehind depth (first :: rest) := by
  have tail := nibblesBehind_add_le depth count rest
  rw [List.length_drop] at bounded
  simp only [nibblesBehind] at tail ⊢
  omega

theorem nibblesBehind_succ_add_length {depth : Nat} {entries : List Entry}
    (deeper : ∀ entry ∈ entries, depth < entry.1.length) :
    nibblesBehind (depth + 1) entries + entries.length = nibblesBehind depth entries := by
  induction entries with
  | nil => rfl
  | cons entry entries ih =>
      have long := deeper entry (List.mem_cons_self ..)
      have tail := ih fun other member => deeper other (List.mem_cons_of_mem _ member)
      simp only [nibblesBehind, List.length_cons] at tail ⊢
      omega

theorem nibblesBehind_le_of_sublist {depth : Nat} {part entries : List Entry}
    (sublist : part.Sublist entries) : nibblesBehind depth part ≤ nibblesBehind depth entries := by
  induction sublist with
  | slnil => exact Nat.le_refl _
  | cons entry _ ih =>
      simp only [nibblesBehind] at ih ⊢
      omega
  | cons_cons entry _ ih =>
      simp only [nibblesBehind] at ih ⊢
      omega

theorem nibblesBehind_groups_le (depth index : Nat) (nibbles : List Nibble)
    (entries : List Entry) :
    nibblesBehind (depth + 1) ((groups depth nibbles entries).getD index []) +
        ((groups depth nibbles entries).getD index []).length
      ≤ nibblesBehind depth entries := by
  rw [nibblesBehind_succ_add_length fun _ => depth_lt_of_mem_groups]
  exact nibblesBehind_le_of_sublist (getD_groups_sublist ..)

/-- The trie of entries with distinct paths in ascending order that share their first
`depth` nibbles, from there on. There is none of no entries. -/
def Node.ofSorted? (depth : Nat) : List Entry → Option Node
  | [] => none
  | [(path, value)] => some (.leaf (path.drop depth) value)
  | first :: second :: rest =>
      let entries := first :: second :: rest
      -- What the first and the last path share, all paths between them share.
      let last := (second :: rest).getLast (by simp)
      let shared := commonPath (first.1.drop depth) (last.1.drop depth)
      if shared ≠ [] then
        (ofSorted? (depth + shared.length) entries).map (.extension shared)
      -- A path that ends here comes first, and only one does.
      else if first.1.length = depth then
        let below := groups depth (List.finRange 16) (second :: rest)
        some (.branch (fun nibble => ofSorted? (depth + 1) (below.getD nibble [])) first.2)
      else
        let below := groups depth (List.finRange 16) entries
        some (.branch (fun nibble => ofSorted? (depth + 1) (below.getD nibble [])) [])
termination_by entries => nibblesBehind depth entries + entries.length
decreasing_by
  · rename_i nonempty
    exact Nat.add_lt_add_right
      (nibblesBehind_add_lt (List.length_pos_iff.mpr nonempty) (length_commonPath_le _ _)) _
  · have below := nibblesBehind_groups_le depth nibble (List.finRange 16) (second :: rest)
    simp only [nibblesBehind, List.length_cons] at below ⊢
    omega
  · have below := nibblesBehind_groups_le depth nibble (List.finRange 16) (first :: second :: rest)
    simp only [List.length_cons] at below ⊢
    omega

end ExecutionLayer.Trie
