import ExecutionLayer.Proofs.Curve.Extension
import ExecutionLayer.Proofs.Precompile.Bn254
import Mathlib.Data.List.Forall2

/-!
# Rearranged pairing checks

The pairing check multiplies one factor for each pair, and passes over pairs with the point at
infinity. As multiplication is associative and commutative, neither the order of the pairs nor
such pairs among them change the answer.
-/

set_option autoImplicit false

namespace ExecutionLayer

open List (Forall₂)

theorem mapM_eq_ok_iff {Error Value Result : Type} {read : Value → Except Error Result}
    {values : List Value} {results : List Result} :
    values.mapM read = .ok results ↔
      Forall₂ (fun value result => read value = .ok result) values results := by
  induction values generalizing results with
  | nil => cases results <;> simp [pure, Except.pure]
  | cons value rest ih =>
      rw [List.mapM_cons, List.forall₂_cons_left_iff]
      constructor
      · intro finished
        obtain ⟨first, readFirst, finished⟩ := bind_eq_ok finished
        obtain ⟨others, readOthers, finished⟩ := bind_eq_ok finished
        cases finished
        exact ⟨first, others, readFirst, ih.mp readOthers, rfl⟩
      · rintro ⟨first, others, readFirst, readOthers, rfl⟩
        rw [readFirst, ok_bind, ih.mpr readOthers, ok_bind]
        rfl

namespace Bytes

variable {size : Nat} {groups : List Bytes}

theorem length_flatten (sized : ∀ group ∈ groups, group.length = size) :
    groups.flatten.length = size * groups.length := by
  rw [List.length_flatten, List.eq_replicate_of_mem (l := groups.map List.length) (a := size)]
  · rw [List.sum_replicate, List.length_map, smul_eq_mul, Nat.mul_comm]
  · simpa using sized

/-- Cutting joined groups of one size apart gives the groups back. -/
theorem chunks_flatten (positive : 0 < size) (sized : ∀ group ∈ groups, group.length = size) :
    chunks size groups.flatten = groups := by
  induction groups with
  | nil => rw [List.flatten_nil, chunks]
  | cons group rest ih =>
      obtain ⟨here, others⟩ := List.forall_mem_cons.mp sized
      obtain ⟨first, tail, rfl⟩ : ∃ first tail, group = first :: tail :=
        List.exists_cons_of_length_pos (by omega)
      rw [List.flatten_cons, List.cons_append, chunks, if_neg (by omega), ← List.cons_append,
        List.take_left' here, List.drop_left' here, ih others]

end Bytes

namespace Bn254

/-! ## Factors in any order -/

theorem multiplyPair_eq (pair : G1 × G2) :
    (∃ factor, ∀ product, multiplyPair product pair = product * factor) ∨
      ∀ product, multiplyPair product pair = product := by
  obtain ⟨_ | ⟨x, y⟩, _ | ⟨x', y'⟩⟩ := pair
  · exact .inr fun _ => rfl
  · exact .inr fun _ => rfl
  · exact .inr fun _ => rfl
  · exact .inl ⟨millerLoop (.affine x' y') x y, fun _ => rfl⟩

instance : RightCommutative multiplyPair where
  right_comm product first second := by
    rcases multiplyPair_eq first with ⟨factor, multiplies⟩ | keeps
    · rcases multiplyPair_eq second with ⟨other, multipliesToo⟩ | keeps
      · rw [multiplies, multipliesToo, multipliesToo, multiplies, Fp12.mul_right_comm]
      · rw [keeps, keeps]
    · rw [keeps, keeps]

/-- One of the points is the point at infinity. -/
def IsNeutral (pair : G1 × G2) : Prop :=
  pair.1 = .infinity ∨ pair.2 = .infinity

theorem multiplyPair_neutral {pair : G1 × G2} (neutral : IsNeutral pair) (product : Fp12) :
    multiplyPair product pair = product := by
  obtain ⟨first, second⟩ := pair
  rcases neutral with infinite | infinite
  · dsimp only at infinite
    subst infinite
    rfl
  · dsimp only at infinite
    subst infinite
    cases first <;> rfl

theorem foldl_multiplyPair_neutral {pairs : List (G1 × G2)}
    (neutral : ∀ pair ∈ pairs, IsNeutral pair) (product : Fp12) :
    pairs.foldl multiplyPair product = product := by
  induction pairs with
  | nil => rfl
  | cons pair rest ih =>
      obtain ⟨here, others⟩ := List.forall_mem_cons.mp neutral
      rw [List.foldl_cons, multiplyPair_neutral here, ih others]

theorem pairingCheck_perm {pairs neutral rearranged : List (G1 × G2)}
    (neutrals : ∀ pair ∈ neutral, IsNeutral pair) (perm : rearranged.Perm (pairs ++ neutral)) :
    pairingCheck rearranged = pairingCheck pairs := by
  have product : rearranged.foldl multiplyPair 1 = pairs.foldl multiplyPair 1 := by
    rw [perm.foldl_eq, List.foldl_append, foldl_multiplyPair_neutral neutrals]
  unfold pairingCheck
  rw [product]

end Bn254

namespace Precompile.Bn254

open ExecutionLayer.Bn254

/-- The gas that checking a number of pairs costs. -/
def pairingPrice (count : Nat) : Nat :=
  45000 + 34000 * count

variable {chunks : List Bytes} {pairs : List (G1 × G2)} {limit : UInt64}

theorem price_eq (count : Nat) :
    (45000 + 34000 * UInt64.ofNat count : UInt64) = UInt64.ofNat (pairingPrice count) := by
  rw [pairingPrice, UInt64.ofNat_add, UInt64.ofNat_mul]
  rfl

theorem requireGas_pairing {count : Nat} (enough : pairingPrice count ≤ limit.toNat) :
    requireGas (UInt64.ofNat (pairingPrice count)) limit = .ok () := by
  apply requireGas_of_le
  rw [UInt64.le_iff_toNat_le, UInt64.toNat_ofNat']
  exact (Nat.mod_le _ _).trans enough

theorem pairing_eq (sized : ∀ chunk ∈ chunks, chunk.length = pairLength)
    (read : Forall₂ (fun chunk pair => readPair chunk = .ok pair) chunks pairs)
    (enough : pairingPrice chunks.length ≤ limit.toNat) :
    pairing chunks.flatten limit =
      .ok ⟨UInt64.ofNat (pairingPrice chunks.length), (Word.ofBool (pairingCheck pairs)).toBytes⟩ := by
  have length := Bytes.length_flatten sized
  have count : chunks.flatten.length / pairLength = chunks.length := by
    rw [length, Nat.mul_div_cancel_left _ (by decide)]
  have whole : ¬chunks.flatten.length % pairLength ≠ 0 := by
    rw [length, Nat.mul_mod_right]
    exact fun different => different rfl
  unfold pairing
  rw [count, price_eq]
  dsimp only
  rw [requireGas_pairing enough, ok_bind, if_neg whole, Bytes.chunks_flatten (by decide) sized,
    mapM_eq_ok_iff.mpr read]
  rfl

theorem read_of_pairing {output : PrecompileOutput}
    (sized : ∀ chunk ∈ chunks, chunk.length = pairLength)
    (accepted : pairing chunks.flatten limit = .ok output) :
    ∃ pairs, Forall₂ (fun chunk pair => readPair chunk = .ok pair) chunks pairs ∧
      output.output = (Word.ofBool (pairingCheck pairs)).toBytes := by
  unfold pairing at accepted
  obtain ⟨-, -, accepted⟩ := bind_eq_ok accepted
  obtain ⟨-, accepted⟩ := guard_eq_ok accepted
  rw [Bytes.chunks_flatten (by decide) sized] at accepted
  obtain ⟨pairs, read, accepted⟩ := bind_eq_ok accepted
  cases accepted
  exact ⟨pairs, mapM_eq_ok_iff.mp read, rfl⟩

theorem read_of_neutral
    (neutrals : ∀ chunk ∈ chunks, ∃ pair, readPair chunk = .ok pair ∧ IsNeutral pair) :
    ∃ pairs, Forall₂ (fun chunk pair => readPair chunk = .ok pair) chunks pairs ∧
      ∀ pair ∈ pairs, IsNeutral pair := by
  induction chunks with
  | nil => exact ⟨[], .nil, by simp⟩
  | cons chunk rest ih =>
      obtain ⟨⟨pair, read, neutral⟩, others⟩ := List.forall_mem_cons.mp neutrals
      obtain ⟨pairs, readRest, neutralRest⟩ := ih others
      exact ⟨pair :: pairs, .cons read readRest, List.forall_mem_cons.mpr ⟨neutral, neutralRest⟩⟩

/-- With enough gas for the longer input, the check answers the same for accepted pairs in any
order and with accepted pairs among them that hold the point at infinity. -/
theorem pairing_rearranged {neutral longer : List Bytes} {paid : UInt64} {output : PrecompileOutput}
    (sized : ∀ chunk ∈ chunks, chunk.length = pairLength)
    (accepted : pairing chunks.flatten paid = .ok output)
    (sizedNeutral : ∀ chunk ∈ neutral, chunk.length = pairLength)
    (neutrals : ∀ chunk ∈ neutral, ∃ pair, readPair chunk = .ok pair ∧ IsNeutral pair)
    (perm : longer.Perm (chunks ++ neutral))
    (enough : pairingPrice longer.length ≤ limit.toNat) :
    pairing longer.flatten limit =
        .ok ⟨UInt64.ofNat (pairingPrice longer.length), output.output⟩ ∧
      pairing chunks.flatten limit =
        .ok ⟨UInt64.ofNat (pairingPrice chunks.length), output.output⟩ := by
  obtain ⟨pairs, read, answered⟩ := read_of_pairing sized accepted
  obtain ⟨others, readOthers, infinite⟩ := read_of_neutral neutrals
  obtain ⟨rearranged, readAll, permPairs⟩ :=
    List.perm_comp_forall₂ perm (List.rel_append read readOthers)
  have sizedLonger : ∀ chunk ∈ longer, chunk.length = pairLength := by
    intro chunk member
    rcases List.mem_append.mp (perm.mem_iff.mp member) with here | inserted
    · exact sized chunk here
    · exact sizedNeutral chunk inserted
  have shorter : chunks.length ≤ longer.length := by
    rw [perm.length_eq, List.length_append]
    exact Nat.le_add_right _ _
  have cheaper : pairingPrice chunks.length ≤ limit.toNat := by
    unfold pairingPrice at enough ⊢
    omega
  rw [pairing_eq sizedLonger readAll enough, pairing_eq sized read cheaper,
    pairingCheck_perm infinite permPairs, answered]
  exact ⟨rfl, rfl⟩

namespace Generators

/-- The generators of the two groups. -/
def pair : G1 × G2 :=
  (.affine 1 2,
    .affine
      ⟨0x1800deef121f1e76426a00665e5c4479674322d4f75edadd46debd5cd992f6ed,
        0x198e9393920d483a7260bfb731fb5d25f1aa493335a9e71297e485b7aef312c2⟩
      ⟨0x12c85ea5db8c6deb4aab71808dcb408fe3d1e7690c43d37b4ce6cc0166fa7daa,
        0x090689d0585ff075ec9e99ad690c3395bc4b313370b38ef355acdadcd122975b⟩)

/-- The bytes of both generators. -/
def chunk : Bytes :=
  [1, 2, 0x198e9393920d483a7260bfb731fb5d25f1aa493335a9e71297e485b7aef312c2,
    0x1800deef121f1e76426a00665e5c4479674322d4f75edadd46debd5cd992f6ed,
    0x090689d0585ff075ec9e99ad690c3395bc4b313370b38ef355acdadcd122975b,
    0x12c85ea5db8c6deb4aab71808dcb408fe3d1e7690c43d37b4ce6cc0166fa7daa].flatMap (Bytes.ofNatWidth 32)

/-- The bytes of the first generator with the point at infinity. -/
def neutral : Bytes :=
  [1, 2, 0, 0, 0, 0].flatMap (Bytes.ofNatWidth 32)

/-- The output of the check of both generators. -/
def word : Bytes :=
  (Word.ofBool (pairingCheck [pair])).toBytes

set_option maxRecDepth 100000 in
theorem readPair_chunk : readPair chunk = .ok pair := by
  decide +kernel

/-- A neutral pair in front of the generators. -/
theorem pairing_behind_neutral :
    chunk.length = pairLength ∧ pairing [chunk].flatten 79000 = .ok ⟨79000, word⟩ ∧
      neutral.length = pairLength ∧
      (∃ read, readPair neutral = .ok read ∧ IsNeutral read) ∧
      [neutral, chunk].Perm ([chunk] ++ [neutral]) ∧
      pairingPrice [neutral, chunk].length ≤ (113000 : UInt64).toNat ∧
      pairing [neutral, chunk].flatten 113000 = .ok ⟨113000, word⟩ := by
  have sized : chunk.length = pairLength := by decide +kernel
  have sizedNeutral : neutral.length = pairLength := by decide +kernel
  have single : UInt64.ofNat (pairingPrice [chunk].length) = 79000 := rfl
  have double : UInt64.ofNat (pairingPrice [neutral, chunk].length) = 113000 := rfl
  have accepted : pairing [chunk].flatten 79000 = .ok ⟨79000, word⟩ := by
    have affordable : pairingPrice [chunk].length ≤ (79000 : UInt64).toNat := by decide
    have checked := pairing_eq (List.forall_mem_singleton.mpr sized)
      (.cons readPair_chunk .nil) affordable
    rwa [single] at checked
  have infinite : ∃ read, readPair neutral = .ok read ∧ IsNeutral read :=
    ⟨(.affine 1 2, .infinity), by decide +kernel, .inr rfl⟩
  have perm : [neutral, chunk].Perm ([chunk] ++ [neutral]) := .swap chunk neutral []
  have enough : pairingPrice [neutral, chunk].length ≤ (113000 : UInt64).toNat := by decide
  have answered := (pairing_rearranged (List.forall_mem_singleton.mpr sized) accepted
    (List.forall_mem_singleton.mpr sizedNeutral) (List.forall_mem_singleton.mpr infinite) perm
    enough).1
  rw [double] at answered
  exact ⟨sized, accepted, sizedNeutral, infinite, perm, enough, answered⟩

end Generators

end Precompile.Bn254

end ExecutionLayer
