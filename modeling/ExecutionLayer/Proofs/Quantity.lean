import ExecutionLayer.Proofs.Hex
import ExecutionLayer.Quantity

/-!
# Quantities read back

A text is read as a quantity exactly if it is the mark, then at most one plus sign, then digits of
either case for a number below `2 ^ 64`. Every quantity is read back from its text.
-/

set_option autoImplicit false

namespace ExecutionLayer.Quantity

open Hex

/-! ## Digits -/

theorem foldlM_readDigit?_ge {chars : List Char} {start value : Nat}
    (read : chars.foldlM readDigit? start = some value) : start ≤ value := by
  induction chars generalizing start with
  | nil =>
      cases read
      exact Nat.le_refl _
  | cons c rest ih =>
      rw [List.foldlM_cons] at read
      obtain ⟨next, readHere, readRest⟩ := Option.bind_eq_some_iff.mp read
      obtain ⟨digit, -, rfl⟩ := Option.map_eq_some_iff.mp readHere
      have later := ih readRest
      omega

/-- The number is checked behind every digit, which comes to a check of the whole number, as digits
never make it smaller. -/
theorem readDigits_eq_ok_iff (text : String) {chars : List Char} {start value : Nat}
    (fits : start < UInt64.size) :
    readDigits text start chars = .ok value ↔
      chars.foldlM readDigit? start = some value ∧ value < UInt64.size := by
  induction chars generalizing start with
  | nil =>
      rw [readDigits, List.foldlM_nil]
      constructor
      · rintro ⟨⟩
        exact ⟨rfl, fits⟩
      · rintro ⟨⟨⟩, -⟩
        rfl
  | cons c rest ih =>
      rw [readDigits, List.foldlM_cons, readDigit?]
      cases digitValue? c with
      | none => simp
      | some digit =>
          dsimp only
          rw [Option.map_some, Option.bind_eq_bind, Option.bind_some]
          by_cases below : start * 16 + digit < UInt64.size
          · rw [if_pos below]
            exact ih below
          · rw [if_neg below]
            constructor
            · rintro ⟨⟩
            · rintro ⟨read, bounded⟩
              exact absurd (Nat.lt_of_le_of_lt (foldlM_readDigit?_ge read) bounded) below

theorem readDigits_eq_ok_iff_spells (text : String) {chars : List Char} {value : Nat}
    (present : chars ≠ []) :
    readDigits text 0 chars = .ok value ↔ Spells chars value ∧ value < UInt64.size := by
  rw [readDigits_eq_ok_iff text (by decide)]
  exact and_congr_left fun _ => digitsValue?_eq_some_iff present

/-! ## Texts -/

theorem unsignedDigits_of_spells {chars : List Char} {value : Nat} (spells : Spells chars value) :
    unsignedDigits chars = chars := by
  obtain ⟨digits, -, areDigits, -⟩ := spells
  unfold unsignedDigits
  split
  · -- The plus sign is no digit.
    cases areDigits with
    | cons isDigit _ =>
        have unread : digitValue? '+' = none := rfl
        cases unread.symm.trans (digitValue?_of_isDigit isDigit)
  · rfl

theorem unsignedDigits_ne_nil {digits : List Char} (present : digits ≠ []) :
    unsignedDigits digits ≠ [] := by
  unfold unsignedDigits
  split
  · exact List.cons_ne_nil _ _
  · exact present

theorem unsignedDigits_cases (digits : List Char) :
    digits = unsignedDigits digits ∨ digits = '+' :: unsignedDigits digits := by
  unfold unsignedDigits
  split
  · exact .inr rfl
  · exact .inl rfl

theorem parse_marked {text : String} {digits : List Char}
    (marked : text.toList = '0' :: 'x' :: digits) (present : digits ≠ []) :
    parse text = (readDigits text 0 (unsignedDigits digits)).map UInt64.ofNat := by
  obtain ⟨c, rest, rfl⟩ := List.exists_cons_of_ne_nil present
  unfold parse
  rw [marked]
  rfl

theorem parse_spelled {text : String} {digits : List Char} {value : UInt64}
    (marked : text.toList = '0' :: 'x' :: digits)
    (spells : Spells (unsignedDigits digits) value.toNat) : parse text = .ok value := by
  have present : digits ≠ [] := by
    rintro rfl
    exact spells.ne_nil rfl
  have read : readDigits text 0 (unsignedDigits digits) = .ok value.toNat :=
    (readDigits_eq_ok_iff_spells text spells.ne_nil).mpr ⟨spells, value.toNat_lt⟩
  rw [parse_marked marked present, read]
  exact congrArg Except.ok (UInt64.ofNat_toNat)

theorem marked_of_parse {text : String} {value : UInt64} (parsed : parse text = .ok value) :
    ∃ digits, text.toList = '0' :: 'x' :: digits ∧
      Spells (unsignedDigits digits) value.toNat := by
  unfold parse at parsed
  split at parsed
  · cases parsed
  · rename_i digits present marked
    cases read : readDigits text 0 (unsignedDigits digits) with
    | error error =>
        rw [read] at parsed
        cases parsed
    | ok number =>
        obtain ⟨spells, fits⟩ :=
          (readDigits_eq_ok_iff_spells text (unsignedDigits_ne_nil present)).mp read
        rw [read] at parsed
        cases parsed
        rw [UInt64.toNat_ofNat_of_lt' fits]
        exact ⟨digits, marked, spells⟩
  · cases parsed

theorem parse_eq_ok_iff (text : String) (value : UInt64) :
    parse text = .ok value ↔
      ∃ digits, Spells digits value.toNat ∧
        (text.toList = '0' :: 'x' :: digits ∨ text.toList = '0' :: 'x' :: '+' :: digits) := by
  constructor
  · intro parsed
    obtain ⟨digits, marked, spells⟩ := marked_of_parse parsed
    refine ⟨_, spells, ?_⟩
    rcases unsignedDigits_cases digits with plain | signed
    · left
      rwa [← plain]
    · right
      rwa [← signed]
  · rintro ⟨digits, spells, plain | signed⟩
    · apply parse_spelled plain
      rwa [unsignedDigits_of_spells spells]
    · apply parse_spelled signed
      obtain ⟨c, rest, rfl⟩ := List.exists_cons_of_ne_nil spells.ne_nil
      exact spells

theorem parse_format (value : UInt64) : parse (format value) = .ok value := by
  have spells : Spells (digitsOf value.toNat) value.toNat :=
    (digitsValue?_eq_some_iff Nat.toDigits_ne_nil).mp (digitsValue?_digitsOf value.toNat)
  exact (parse_eq_ok_iff _ value).mpr ⟨_, spells, .inl String.toList_ofList⟩

/-- A text is a quantity exactly if it is the mark, at most one plus sign and then digits, and 64
bits hold the number. Every number is read back from its text. -/
theorem parse_exact (text : String) (value : UInt64) :
    (parse text = .ok value ↔
      ∃ digits, Spells digits value.toNat ∧
        (text.toList = '0' :: 'x' :: digits ∨ text.toList = '0' :: 'x' :: '+' :: digits)) ∧
      parse (format value) = .ok value :=
  ⟨parse_eq_ok_iff text value, parse_format value⟩

/-- A text with a plus sign is read as a quantity, although its mark is not followed by digits. -/
theorem parse_exact_signed :
    parse "0x+1" = .ok 1 ∧
      ¬∃ digits value, Spells digits value ∧ "0x+1".toList = '0' :: 'x' :: digits := by
  have one : Spells ['1'] (1 : UInt64).toNat :=
    (digitsValue?_eq_some_iff (List.cons_ne_nil _ _)).mp rfl
  refine ⟨(parse_exact "0x+1" 1).1.mpr ⟨['1'], one, .inr rfl⟩, ?_⟩
  rintro ⟨digits, value, spells, marked⟩
  cases marked
  have read := (digitsValue?_eq_some_iff spells.ne_nil).mpr spells
  have unread : digitsValue? ['+', '1'] = none := rfl
  cases unread.symm.trans read

end ExecutionLayer.Quantity
