import ExecutionLayer.Address
import Mathlib.Algebra.Group.Nat.Defs
import Mathlib.Data.List.Induction
import Mathlib.Data.Nat.Log

/-!
# Numbers as bytes

A number is read back from its big-endian bytes, and the shortest of them are those that start
with a byte that counts. So different digests have different bytes.
-/

set_option autoImplicit false

namespace ExecutionLayer.Bytes

theorem toNat_append_singleton (bytes : Bytes) (last : UInt8) :
    toNat (bytes ++ [last]) = toNat bytes * 256 + last.toNat := by
  simp [toNat, List.foldl_append]

theorem toNat_ofNatWidth {width value : Nat} (fits : value < 256 ^ width) :
    toNat (ofNatWidth width value) = value := by
  induction width generalizing value with
  | zero =>
      have zero : value = 0 := by simpa using fits
      rw [zero]
      rfl
  | succ width ih =>
      have high : value / 256 < 256 ^ width := by
        rw [Nat.pow_succ] at fits
        exact Nat.div_lt_of_lt_mul (by omega)
      rw [ofNatWidth_succ, toNat_append_singleton, ih high, UInt8.toNat_ofNat']
      omega

theorem ofNatWidth_eq_cons (width value : Nat) :
    ofNatWidth (width + 1) value =
      UInt8.ofNat (value / 256 ^ width) :: ofNatWidth width value := by
  induction width generalizing value with
  | zero =>
      rw [Nat.pow_zero, Nat.div_one]
      rfl
  | succ width ih =>
      rw [ofNatWidth_succ, ih, List.cons_append, ← ofNatWidth_succ, Nat.div_div_eq_div_mul,
        Nat.pow_succ, Nat.mul_comm 256]

theorem pow_le_of_log2 {value : Nat} (positive : value ≠ 0) :
    256 ^ (value.log2 / 8) ≤ value ∧ value < 256 ^ (value.log2 / 8 + 1) := by
  have base (width : Nat) : 256 ^ width = 2 ^ (8 * width) := by rw [Nat.pow_mul]
  rw [base, base]
  constructor
  · exact (Nat.pow_le_pow_right (by decide) (by omega)).trans (Nat.log2_self_le positive)
  · exact Nat.lt_log2_self.trans_le (Nat.pow_le_pow_right (by decide) (by omega))

theorem toNat_ofNat (value : Nat) : toNat (ofNat value) = value := by
  unfold ofNat
  split
  · rename_i zero
    rw [zero]
    rfl
  · rename_i positive
    exact toNat_ofNatWidth (pow_le_of_log2 positive).2

theorem length_ofNat {value : Nat} (positive : value ≠ 0) :
    (ofNat value).length = value.log2 / 8 + 1 := by
  rw [ofNat, if_neg positive, length_ofNatWidth]

theorem length_ofNat_le {value width : Nat} (fits : value < 256 ^ width) :
    (ofNat value).length ≤ width := by
  by_cases zero : value = 0
  · simp [ofNat, zero]
  · rw [length_ofNat zero]
    have least := (pow_le_of_log2 zero).1.trans_lt fits
    exact (Nat.pow_lt_pow_iff_right (by decide)).mp least

theorem lt_pow_length_ofNat (value : Nat) : value < 256 ^ (ofNat value).length := by
  by_cases zero : value = 0
  · simp [ofNat, zero]
  · rw [length_ofNat zero]
    exact (pow_le_of_log2 zero).2

theorem length_ofNat_mono {value other : Nat} (least : value ≤ other) :
    (ofNat value).length ≤ (ofNat other).length :=
  length_ofNat_le (least.trans_lt (lt_pow_length_ofNat other))

/-- The shortest form of a number has no leading zero. -/
theorem head_ofNat {value : Nat} (positive : value ≠ 0) :
    ∃ first rest, ofNat value = first :: rest ∧ first ≠ 0 := by
  rw [ofNat, if_neg positive, ofNatWidth_eq_cons]
  refine ⟨_, _, rfl, fun zero => ?_⟩
  obtain ⟨least, most⟩ := pow_le_of_log2 positive
  have digit : value / 256 ^ (value.log2 / 8) < 256 :=
    Nat.div_lt_of_lt_mul (by rw [← Nat.pow_succ]; exact most)
  have leading : 0 < value / 256 ^ (value.log2 / 8) :=
    Nat.div_pos least (Nat.pow_pos (by decide))
  have shown := congrArg UInt8.toNat zero
  rw [UInt8.toNat_ofNat', Nat.mod_eq_of_lt digit] at shown
  simp at shown
  omega

theorem toNat_lt_pow (bytes : Bytes) : toNat bytes < 256 ^ bytes.length := by
  induction bytes using List.reverseRecOn with
  | nil => exact Nat.one_pos
  | append_singleton front last ih =>
      have small := last.toNat_lt
      rw [toNat_append_singleton, List.length_append, List.length_singleton, Nat.pow_succ]
      omega

theorem ofNatWidth_toNat (bytes : Bytes) : ofNatWidth bytes.length (toNat bytes) = bytes := by
  induction bytes using List.reverseRecOn with
  | nil => rfl
  | append_singleton front last ih =>
      have small := last.toNat_lt
      have high : (toNat front * 256 + last.toNat) / 256 = toNat front := by omega
      have low : UInt8.ofNat (toNat front * 256 + last.toNat) = last := by
        apply UInt8.toNat_inj.mp
        rw [UInt8.toNat_ofNat']
        omega
      rw [toNat_append_singleton, List.length_append, List.length_singleton, ofNatWidth_succ, high,
        low, ih]

theorem pow_le_toNat {first : UInt8} (rest : Bytes) (leading : first ≠ 0) :
    256 ^ rest.length ≤ toNat (first :: rest) := by
  induction rest using List.reverseRecOn with
  | nil =>
      have positive : first.toNat ≠ 0 := fun zero => leading (UInt8.toNat_inj.mp zero)
      have value : toNat [first] = 0 * 256 + first.toNat := rfl
      rw [value, List.length_nil, Nat.pow_zero]
      omega
  | append_singleton front last ih =>
      rw [← List.cons_append, toNat_append_singleton, List.length_append, List.length_singleton,
        Nat.pow_succ]
      omega

/-- Bytes without a leading zero are the shortest form of their number. -/
theorem ofNat_toNat {bytes : Bytes} (leading : bytes.head? ≠ some 0) :
    ofNat (toNat bytes) = bytes := by
  cases bytes with
  | nil => rfl
  | cons first rest =>
      have least := pow_le_toNat rest fun zero => leading (congrArg some zero)
      have most := toNat_lt_pow (first :: rest)
      have positive : toNat (first :: rest) ≠ 0 :=
        Nat.ne_of_gt (Nat.lt_of_lt_of_le (Nat.pow_pos (by decide)) least)
      obtain ⟨from_below, from_above⟩ := pow_le_of_log2 positive
      have lower : rest.length < (toNat (first :: rest)).log2 / 8 + 1 :=
        (Nat.pow_lt_pow_iff_right (by decide)).mp (least.trans_lt from_above)
      have upper : (toNat (first :: rest)).log2 / 8 < rest.length + 1 :=
        (Nat.pow_lt_pow_iff_right (by decide)).mp (from_below.trans_lt most)
      have width : (toNat (first :: rest)).log2 / 8 + 1 = (first :: rest).length := by
        rw [List.length_cons]
        omega
      rw [ofNat, if_neg positive, width, ofNatWidth_toNat]

theorem ofNat_injective {value other : Nat} (same : ofNat value = ofNat other) : value = other := by
  rw [← toNat_ofNat value, same, toNat_ofNat]

theorem ofNatWidth_injective {width value other : Nat} (fits : value < 256 ^ width)
    (otherFits : other < 256 ^ width) (same : ofNatWidth width value = ofNatWidth width other) :
    value = other := by
  rw [← toNat_ofNatWidth fits, same, toNat_ofNatWidth otherFits]

theorem toNat_bits_lt {bits : Nat} (width : Nat) (eight : bits = 8 * width) (value : BitVec bits) :
    value.toNat < 256 ^ width := by
  subst eight
  exact value.isLt.trans_eq (Nat.pow_mul 2 8 width)

theorem head?_ofNat_ne (value : Nat) : (ofNat value).head? ≠ some 0 := by
  by_cases zero : value = 0
  · simp [ofNat, zero]
  · obtain ⟨first, rest, shown, leading⟩ := head_ofNat zero
    rw [shown, List.head?_cons]
    exact fun same => leading (Option.some.inj same)

theorem length_ofNat_word (word : Word) : (ofNat word.toNat).length ≤ 32 :=
  length_ofNat_le (word.isLt.trans_le (by decide))

theorem length_ofNat_uint64 (value : UInt64) : (ofNat value.toNat).length ≤ 8 :=
  length_ofNat_le (value.toNat_lt.trans_le (by decide))

end ExecutionLayer.Bytes

namespace ExecutionLayer.Hash

theorem length_toBytes (hash : Hash) : hash.toBytes.length = 32 :=
  Bytes.length_ofNatWidth 32 hash.toNat

theorem toBytes_injective {first second : Hash} (same : first.toBytes = second.toBytes) :
    first = second := by
  have values := congrArg Bytes.toNat same
  unfold Hash.toBytes at values
  rw [Bytes.toNat_ofNatWidth first.isLt, Bytes.toNat_ofNatWidth second.isLt] at values
  exact BitVec.eq_of_toNat_eq values

end ExecutionLayer.Hash
