import ExecutionLayer.Hex
import ExecutionLayer.Proofs.Rlp.Numbers
import Mathlib.Data.List.Forall2
import Mathlib.Data.Nat.Digits.Defs

/-!
# Hexadecimal text read back

A digit of either case stands for one value, and a run of digits for the number with these values
in base sixteen. So every number and every byte string is read back from its text.
-/

set_option autoImplicit false

namespace ExecutionLayer.Hex

open List (Forall₂)

/-! ## Digits -/

/-- The character is a digit of either case for a value. -/
def IsDigit (c : Char) (value : Nat) : Prop :=
  "0123456789abcdef".toList[value]? = some c ∨ "0123456789ABCDEF".toList[value]? = some c

instance (c : Char) (value : Nat) : Decidable (IsDigit c value) :=
  inferInstanceAs (Decidable (_ ∨ _))

theorem IsDigit.lt {c : Char} {value : Nat} (digit : IsDigit c value) : value < 16 := by
  rcases digit with lower | upper
  · exact (List.getElem?_eq_some_iff.mp lower).1
  · exact (List.getElem?_eq_some_iff.mp upper).1

theorem digitValue?_of_isDigit {c : Char} {value : Nat} (digit : IsDigit c value) :
    digitValue? c = some value := by
  have lowers : ∀ value < 16,
      "0123456789abcdef".toList[value]?.bind digitValue? = some value := by decide
  have uppers : ∀ value < 16,
      "0123456789ABCDEF".toList[value]?.bind digitValue? = some value := by decide
  have below := digit.lt
  rcases digit with lower | upper
  · have read := lowers value below
    rwa [lower] at read
  · have read := uppers value below
    rwa [upper] at read

theorem toNat_lt_of_digitValue? {c : Char} {value : Nat} (read : digitValue? c = some value) :
    c.toNat < 103 := by
  have codes {first last : Char} (within : first ≤ c ∧ c ≤ last) : c.toNat ≤ last.toNat :=
    UInt32.le_iff_toNat_le.mp within.2
  unfold digitValue? at read
  split at read
  · rename_i within
    exact (codes within).trans_lt (by decide)
  split at read
  · rename_i within
    exact (codes within).trans_lt (by decide)
  split at read
  · rename_i within
    exact (codes within).trans_lt (by decide)
  · cases read

theorem isDigit_of_digitValue? {c : Char} {value : Nat} (read : digitValue? c = some value) :
    IsDigit c value := by
  have all : ∀ code < 103, (digitValue? (Char.ofNat code)).all
      (fun value => IsDigit (Char.ofNat code) value) = true := by decide
  have here := all c.toNat (toNat_lt_of_digitValue? read)
  rw [Char.ofNat_toNat, read] at here
  exact of_decide_eq_true here

theorem digitValue?_eq_some_iff {c : Char} {value : Nat} :
    digitValue? c = some value ↔ IsDigit c value :=
  ⟨isDigit_of_digitValue?, digitValue?_of_isDigit⟩

theorem digitValue?_digit {value : Nat} (below : value < 16) :
    digitValue? (digit value) = some value := by
  have all : ∀ value < 16, digitValue? (digit value) = some value := by decide
  exact all value below

theorem digitValue?_digitChar {value : Nat} (below : value < 16) :
    digitValue? value.digitChar = some value := by
  have all : ∀ value < 16, digitValue? value.digitChar = some value := by decide
  exact all value below

/-! ## Runs of digits -/

/-- The characters are digits of a number, at least one, most significant first. -/
def Spells (chars : List Char) (value : Nat) : Prop :=
  ∃ digits, digits ≠ [] ∧ Forall₂ IsDigit chars digits ∧ Nat.ofDigits 16 digits.reverse = value

theorem ofDigits_reverse (digits : List Nat) :
    Nat.ofDigits 16 digits.reverse = digits.foldl (fun value digit => value * 16 + digit) 0 := by
  rw [Nat.ofDigits_eq_foldr, List.foldr_reverse]
  congr 1
  funext value digit
  rw [Nat.cast_id, Nat.add_comm, Nat.mul_comm]

/-- Reads one more digit behind a number. -/
def readDigit? (value : Nat) (c : Char) : Option Nat :=
  (digitValue? c).map (value * 16 + ·)

theorem foldlM_readDigit?_iff {chars : List Char} {start value : Nat} :
    chars.foldlM readDigit? start = some value ↔
      ∃ digits, Forall₂ IsDigit chars digits ∧
        digits.foldl (fun value digit => value * 16 + digit) start = value := by
  induction chars generalizing start with
  | nil => simp
  | cons c rest ih =>
      rw [List.foldlM_cons]
      constructor
      · intro read
        obtain ⟨_, readHere, readRest⟩ := Option.bind_eq_some_iff.mp read
        obtain ⟨digit, isDigit, rfl⟩ := Option.map_eq_some_iff.mp readHere
        obtain ⟨digits, areDigits, sum⟩ := ih.mp readRest
        exact ⟨digit :: digits, .cons (digitValue?_eq_some_iff.mp isDigit) areDigits, sum⟩
      · rintro ⟨_, areDigits, sum⟩
        cases areDigits with
        | cons isDigit areDigits =>
            rw [readDigit?, digitValue?_eq_some_iff.mpr isDigit]
            exact ih.mpr ⟨_, areDigits, sum⟩

theorem Spells.ne_nil {chars : List Char} {value : Nat} (spells : Spells chars value) :
    chars ≠ [] := by
  obtain ⟨digits, present, areDigits, -⟩ := spells
  rintro rfl
  cases areDigits
  exact present rfl

theorem digitsValue?_eq_some_iff {chars : List Char} {value : Nat} (present : chars ≠ []) :
    digitsValue? chars = some value ↔ Spells chars value := by
  change chars.foldlM readDigit? 0 = some value ↔ Spells chars value
  rw [foldlM_readDigit?_iff]
  constructor
  · rintro ⟨digits, areDigits, sum⟩
    refine ⟨digits, ?_, areDigits, (ofDigits_reverse digits).trans sum⟩
    rintro rfl
    cases areDigits
    exact present rfl
  · rintro ⟨digits, -, areDigits, sum⟩
    exact ⟨digits, areDigits, (ofDigits_reverse digits).symm.trans sum⟩

theorem readDigit?_digit (start : Nat) {value : Nat} (below : value < 16) :
    readDigit? start (digit value) = some (start * 16 + value) := by
  rw [readDigit?, digitValue?_digit below, Option.map_some]

@[simp] theorem stripMark_marked (chars : List Char) : stripMark ('0' :: 'x' :: chars) = chars :=
  rfl

/-! ## Numbers -/

theorem digitsValue?_digitsOf (value : Nat) : digitsValue? (digitsOf value) = some value := by
  unfold digitsOf
  induction value using Nat.strongRecOn with
  | ind value ih =>
      by_cases small : value < 16
      · rw [Nat.toDigits_of_lt_base small]
        simp [digitsValue?, digitValue?_digitChar small]
      · have below : value / 16 < value := by omega
        have last : value % 16 < 16 := Nat.mod_lt _ (by decide)
        have front := ih _ below
        rw [Nat.toDigits_of_base_le (by decide) (by omega), digitsValue?, List.foldlM_append]
        rw [digitsValue?] at front
        rw [front]
        simp [digitValue?_digitChar last]
        omega

theorem length_digitsOf_le {value width : Nat} (positive : 0 < width) (fits : value < 16 ^ width) :
    (digitsOf value).length ≤ width :=
  (Nat.length_toDigits_le_iff (by decide) positive).mpr fits

theorem toNatUpTo?_ofNat {width value : Nat} (positive : 0 < width) (fits : value < 16 ^ width) :
    toNatUpTo? width (ofNat value) = some value := by
  have least : 0 < (digitsOf value).length := Nat.length_toDigits_pos
  have most := length_digitsOf_le positive fits
  unfold toNatUpTo? ofNat
  rw [String.toList_ofList, stripMark_marked]
  dsimp only
  rw [if_pos ⟨least, most⟩, digitsValue?_digitsOf]

/-! ## Byte strings -/

theorem length_encodeChars (bytes : Bytes) : (encodeChars bytes).length = 2 * bytes.length := by
  induction bytes with
  | nil => rfl
  | cons byte rest ih =>
      rw [encodeChars, List.length_cons, List.length_cons, List.length_cons, ih]
      omega

theorem byte_halves (byte : UInt8) :
    byte.toNat / 16 < 16 ∧ byte.toNat % 16 < 16 ∧
      byte.toNat / 16 * 16 + byte.toNat % 16 = byte.toNat := by
  have small := byte.toNat_lt
  omega

theorem decodeChars?_encodeChars (bytes : Bytes) :
    decodeChars? (encodeChars bytes) = some bytes := by
  induction bytes with
  | nil => rfl
  | cons byte rest ih =>
      obtain ⟨high, low, whole⟩ := byte_halves byte
      simp only [encodeChars, decodeChars?, digitValue?_digit high, digitValue?_digit low, ih,
        Option.bind_eq_bind, Option.bind_some, Option.pure_def, whole, UInt8.ofNat_toNat]

theorem toBytes?_ofBytes (bytes : Bytes) : toBytes? (ofBytes bytes) = some bytes := by
  unfold toBytes? ofBytes
  rw [String.toList_ofList]
  exact decodeChars?_encodeChars bytes

theorem digitsValue?_encodeChars (bytes : Bytes) :
    digitsValue? (encodeChars bytes) = some (Bytes.toNat bytes) := by
  have general (start : Nat) : (encodeChars bytes).foldlM readDigit? start =
      some (bytes.foldl (fun value byte => value * 256 + byte.toNat) start) := by
    induction bytes generalizing start with
    | nil => rfl
    | cons byte rest ih =>
        obtain ⟨high, low, whole⟩ := byte_halves byte
        have both : (start * 16 + byte.toNat / 16) * 16 + byte.toNat % 16 =
            start * 256 + byte.toNat := by omega
        simp only [encodeChars, List.foldlM_cons, List.foldl_cons, readDigit?_digit _ high,
          readDigit?_digit _ low, Option.bind_eq_bind, Option.bind_some, both]
        exact ih _
  exact general 0

theorem toNatExact?_ofNatWidth {width value : Nat} (fits : value < 256 ^ width) :
    toNatExact? (2 * width) (ofNatWidth width value) = some value := by
  unfold toNatExact? ofNatWidth ofBytes
  rw [String.toList_ofList, stripMark_marked]
  dsimp only
  rw [length_encodeChars, Bytes.length_ofNatWidth, if_pos rfl, digitsValue?_encodeChars,
    Bytes.toNat_ofNatWidth fits]

end ExecutionLayer.Hex
