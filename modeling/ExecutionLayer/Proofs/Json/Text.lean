import ExecutionLayer.Json.Printer
import ExecutionLayer.Json.Reader
import ExecutionLayer.Proofs.Hex

/-!
# Documents read back from their text

A document in which every number is written as one has a text whose characters are read as the
document's tokens, and these tokens are assembled into the document again. Both readers go over
their input with one state, so either half is about what is read in whatever state came before.
-/

set_option autoImplicit false

namespace ExecutionLayer.Json

/-! ## Documents that can be written -/

/-- Every number of the document is written as one. -/
inductive WellFormed : Json → Prop where
  | null : WellFormed .null
  | bool {value : Bool} : WellFormed (.bool value)
  | number {literal : String} : isNumberLiteral literal.toList → WellFormed (.number literal)
  | string {text : Option String} : WellFormed (.string text)
  | array {elements : List Json} :
      (∀ element ∈ elements, WellFormed element) → WellFormed (.array elements)
  | object {members : List (Option String × Json)} :
      (∀ member ∈ members, WellFormed member.2) → WellFormed (.object members)

mutual

def tokens : Json → List Token
  | .null => [.null]
  | .bool value => [.bool value]
  | .number literal => [.number literal]
  | .string text => [.string text]
  | .array elements => .openBracket :: elementTokens elements ++ [.closeBracket]
  | .object members => .openBrace :: memberTokens members ++ [.closeBrace]

/-- The tokens of the elements of an array with commas between them. -/
def elementTokens : List Json → List Token
  | [] => []
  | [element] => tokens element
  | element :: rest => tokens element ++ .comma :: elementTokens rest

/-- The tokens of the members of an object with commas between them. -/
def memberTokens : List (Option String × Json) → List Token
  | [] => []
  | [(name, value)] => .string name :: .colon :: tokens value
  | (name, value) :: rest => .string name :: .colon :: tokens value ++ .comma :: memberTokens rest

end

theorem elementTokens_cons_cons (element second : Json) (rest : List Json) :
    elementTokens (element :: second :: rest) =
      tokens element ++ .comma :: elementTokens (second :: rest) := by
  simp [elementTokens]

theorem memberTokens_cons_cons (name : Option String) (value : Json)
    (second : Option String × Json) (rest : List (Option String × Json)) :
    memberTokens ((name, value) :: second :: rest) =
      .string name :: .colon :: (tokens value ++ .comma :: memberTokens (second :: rest)) := by
  simp [memberTokens]

theorem elementChars_cons_cons (element second : Json) (rest : List Json) :
    elementChars (element :: second :: rest) =
      chars element ++ ',' :: elementChars (second :: rest) := by
  simp [elementChars]

theorem memberChars_cons_cons (name : Option String) (value : Json)
    (second : Option String × Json) (rest : List (Option String × Json)) :
    memberChars ((name, value) :: second :: rest) =
      stringChars name ++ ':' :: (chars value ++ ',' :: memberChars (second :: rest)) := by
  simp [memberChars]

/-! ## Tokens to documents -/

namespace Assembly

/-- Reads tokens one after another. -/
def readAll (assembly : Assembly) (tokens : List Token) : Option Assembly :=
  tokens.foldlM read assembly

theorem readAll_cons (assembly : Assembly) (token : Token) (rest : List Token) :
    assembly.readAll (token :: rest) = (assembly.read token).bind (readAll · rest) :=
  List.foldlM_cons ..

theorem readAll_append (assembly : Assembly) (front rest : List Token) :
    assembly.readAll (front ++ rest) = (assembly.readAll front).bind (readAll · rest) :=
  List.foldlM_append ..

/-- Wherever a value may stand, the document's tokens supply it. -/
def Supplies (document : Json) : Prop :=
  ∀ containers first,
    readAll ⟨containers, .value first⟩ (tokens document) = some ⟨containers, .separator document⟩

theorem readAll_elements {elements : List Json} (supplies : ∀ element ∈ elements, Supplies element)
    (present : elements ≠ []) (containers : List OpenNode) (done : List Json) (first : Bool) :
    readAll ⟨.array done :: containers, .value first⟩ (elementTokens elements ++ [.closeBracket]) =
      some ⟨containers, .separator (.array (done.reverse ++ elements))⟩ := by
  induction elements generalizing done first with
  | nil => exact absurd rfl present
  | cons element rest ih =>
      obtain ⟨here, others⟩ := List.forall_mem_cons.mp supplies
      cases rest with
      | nil =>
          rw [elementTokens, readAll_append, here]
          simp [readAll, read]
      | cons second rest =>
          have later := ih others (List.cons_ne_nil _ _) (element :: done) false
          rw [elementTokens_cons_cons, List.append_assoc, readAll_append, here, Option.bind_some,
            List.cons_append, readAll_cons]
          simpa [read] using later

/-- After a name and a colon the member's value is expected. -/
theorem readAll_named (containers : List OpenNode) (done : List (Option String × Json))
    (first : Bool) (name : Option String) (rest : List Token) :
    readAll ⟨containers, .name done first⟩ (.string name :: .colon :: rest) =
      readAll ⟨.object done name :: containers, .value false⟩ rest := by
  cases first <;> rfl

theorem readAll_members {members : List (Option String × Json)}
    (supplies : ∀ member ∈ members, Supplies member.2) (present : members ≠ [])
    (containers : List OpenNode) (done : List (Option String × Json)) (first : Bool) :
    readAll ⟨containers, .name done first⟩ (memberTokens members ++ [.closeBrace]) =
      some ⟨containers, .separator (.object (done.reverse ++ members))⟩ := by
  induction members generalizing done first with
  | nil => exact absurd rfl present
  | cons member rest ih =>
      obtain ⟨name, value⟩ := member
      obtain ⟨here, others⟩ := List.forall_mem_cons.mp supplies
      have supplied := here (.object done name :: containers) false
      dsimp only at supplied
      cases rest with
      | nil =>
          rw [memberTokens, List.cons_append, List.cons_append, readAll_named, readAll_append,
            supplied]
          simp [readAll, read]
      | cons second rest =>
          have later := ih others (List.cons_ne_nil _ _) ((name, value) :: done) false
          rw [memberTokens_cons_cons, List.cons_append, List.cons_append, readAll_named,
            List.append_assoc, readAll_append, supplied, Option.bind_some, List.cons_append,
            readAll_cons]
          simpa [read] using later

theorem supplies {document : Json} (wellFormed : WellFormed document) : Supplies document := by
  intro containers first
  induction wellFormed generalizing containers first with
  | null => rfl
  | bool => rfl
  | number _ => rfl
  | string => rfl
  | @array elements _ ih =>
      rw [tokens, List.cons_append, readAll_cons]
      cases elements with
      | nil => simp [elementTokens, readAll, read]
      | cons element rest => exact readAll_elements ih (List.cons_ne_nil _ _) containers [] true
  | @object members _ ih =>
      rw [tokens, List.cons_append, readAll_cons]
      cases members with
      | nil => simp [memberTokens, readAll, read]
      | cons member rest => exact readAll_members ih (List.cons_ne_nil _ _) containers [] true

end Assembly

/-! ## Characters to tokens -/

/-- A string literal without escapes is read as its characters. -/
theorem decode?_map_char (chars : List Char) :
    TextUnit.decode? (chars.map .char) = some chars := by
  induction chars with
  | nil => rfl
  | cons c rest ih => rw [List.map_cons, TextUnit.decode?, ih, Option.map_some]

namespace Scanner

/-- Reads characters one after another. -/
def readAll (scanner : Scanner) (chars : List Char) : Option Scanner :=
  chars.foldlM read scanner

theorem readAll_cons (scanner : Scanner) (c : Char) (rest : List Char) :
    scanner.readAll (c :: rest) = (scanner.read c).bind (readAll · rest) :=
  List.foldlM_cons ..

theorem readAll_append (scanner : Scanner) (front rest : List Char) :
    scanner.readAll (front ++ rest) = (scanner.readAll front).bind (readAll · rest) :=
  List.foldlM_append ..

theorem readAll_control (tokens : List Token) (units : List TextUnit) {c : Char}
    (control : c.toNat < 0x20) :
    readAll ⟨tokens, .string units⟩
        ['\\', 'u', '0', '0', Hex.digit (c.toNat / 16), Hex.digit (c.toNat % 16)] =
      some ⟨tokens, .string (.char c :: units)⟩ := by
  have marked : readAll ⟨tokens, .string units⟩ ['\\', 'u', '0', '0'] =
      some ⟨tokens, .hex units 2 0⟩ := rfl
  have highDigit : Hex.digitValue? (Hex.digit (c.toNat / 16)) = some (c.toNat / 16) :=
    Hex.digitValue?_digit (by omega)
  have lowDigit : Hex.digitValue? (Hex.digit (c.toNat % 16)) = some (c.toNat % 16) :=
    Hex.digitValue?_digit (by omega)
  have high : read ⟨tokens, .hex units 2 0⟩ (Hex.digit (c.toNat / 16)) =
      some ⟨tokens, .hex units 3 (c.toNat / 16)⟩ := by
    simp [read, highDigit]
  have code : c.toNat / 16 * 16 + c.toNat % 16 = c.toNat := by omega
  have unit : unitOfCode c.toNat = .char c := by
    rw [unitOfCode, if_neg (by omega), Char.ofNat_toNat]
  have low : read ⟨tokens, .hex units 3 (c.toNat / 16)⟩ (Hex.digit (c.toNat % 16)) =
      some ⟨tokens, .string (.char c :: units)⟩ := by
    simp [read, lowDigit, code, unit]
  change readAll _ (['\\', 'u', '0', '0'] ++ [_, _]) = _
  rw [readAll_append, marked, Option.bind_some, readAll_cons, high, Option.bind_some, readAll_cons,
    low]
  rfl

theorem readAll_escapeChar (tokens : List Token) (units : List TextUnit) (c : Char) :
    readAll ⟨tokens, .string units⟩ (escapeChar c) = some ⟨tokens, .string (.char c :: units)⟩ := by
  unfold escapeChar
  split
  · rfl
  · rfl
  · rfl
  · rfl
  · rfl
  · rfl
  · rfl
  · rename_i quote backslash _ _ _ _ _
    split
    · rename_i control
      exact readAll_control tokens units control
    · rename_i visible
      have plain : read ⟨tokens, .string units⟩ c = some ⟨tokens, .string (.char c :: units)⟩ := by
        simp [read, show c ≠ '"' from quote, show c ≠ '\\' from backslash, visible]
      rw [readAll_cons, plain]
      rfl

/-- A string literal is read as one token. -/
theorem readAll_stringChars (tokens : List Token) (text : Option String) :
    readAll ⟨tokens, .between⟩ (stringChars text) = some ⟨.string text :: tokens, .between⟩ := by
  cases text with
  | none => rfl
  | some text =>
      have body (chars : List Char) (units : List TextUnit) :
          readAll ⟨tokens, .string units⟩ (chars.flatMap escapeChar) =
            some ⟨tokens, .string ((chars.map .char).reverse ++ units)⟩ := by
        induction chars generalizing units with
        | nil => rfl
        | cons c rest ih =>
            rw [List.flatMap_cons, readAll_append, readAll_escapeChar, Option.bind_some, ih]
            simp
      have opened : read ⟨tokens, .between⟩ '"' = some ⟨tokens, .string []⟩ := rfl
      rw [stringChars, List.cons_append, readAll_cons, opened, Option.bind_some, readAll_append,
        body, Option.bind_some, List.append_nil]
      simp [readAll, read, decode?_map_char]

/-- The characters behind which a number or word is at its end. -/
def IsDelimiter (c : Char) : Prop :=
  c = ',' ∨ c = ']' ∨ c = '\x7d'

/-- The tokens read so far are settled once a delimiter or the end of the text follows. -/
structure Settles (scanner : Scanner) (tokens : List Token) : Prop where
  read : ∀ c, IsDelimiter c → scanner.read c = readBetween tokens c
  finish : scanner.finish? = some tokens.reverse

theorem settles_between (tokens : List Token) : Settles ⟨tokens, .between⟩ tokens :=
  ⟨fun _ _ => rfl, rfl⟩

theorem settles_word {tokens : List Token} {chars : List Char} {token : Token}
    (word : wordToken? chars = some token) : Settles ⟨tokens, .word chars⟩ (token :: tokens) := by
  refine ⟨?_, ?_⟩
  · rintro c (rfl | rfl | rfl) <;> simp [read, word]
  · simp [finish?, word]

theorem settles_number {tokens : List Token} {chars : List Char} {token : Token}
    (number : numberToken? chars = some token) :
    Settles ⟨tokens, .number chars⟩ (token :: tokens) := by
  refine ⟨?_, ?_⟩
  · rintro c (rfl | rfl | rfl) <;> simp [read, number, isNumberChar]
  · simp [finish?, number]

/-- The document's characters are read as its tokens. -/
def Scans (document : Json) : Prop :=
  ∀ before, ∃ scanner, readAll ⟨before, .between⟩ document.chars = some scanner ∧
    Settles scanner (document.tokens.reverse ++ before)

theorem isNumberChar_of_isDigit {c : Char} (digit : c.isDigit) : isNumberChar c := by
  simp [isNumberChar, digit]

/-- Leading digits add nothing but characters of numbers. -/
theorem isNumberChar_of_dropWhile {chars : List Char}
    (others : ∀ c ∈ chars.dropWhile Char.isDigit, isNumberChar c) :
    ∀ c ∈ chars, isNumberChar c := by
  rw [← List.takeWhile_append_dropWhile (p := Char.isDigit) (l := chars), List.forall_mem_append]
  refine ⟨?_, others⟩
  intro c member
  exact isNumberChar_of_isDigit (List.all_eq_true.mp List.all_takeWhile c member)

theorem isNumberChar_of_isExponent {chars : List Char} (exponent : isExponent chars) :
    ∀ c ∈ chars, isNumberChar c := by
  have digits {chars : List Char} (digits : isExponentDigits chars) :
      ∀ c ∈ chars, isNumberChar c := by
    cases chars with
    | nil => nofun
    | cons c rest =>
        intro d member
        exact isNumberChar_of_isDigit (List.all_eq_true.mp digits d member)
  unfold isExponent at exponent
  split at exponent
  · nofun
  all_goals
    simp only [Bool.and_eq_true, Bool.or_eq_true, beq_iff_eq] at exponent
    obtain ⟨mark, power⟩ := exponent
    have others := digits power
    rcases mark with rfl | rfl <;> simpa [isNumberChar] using others

theorem isNumberChar_of_isFraction {chars : List Char} (fraction : isFraction chars) :
    ∀ c ∈ chars, isNumberChar c := by
  unfold isFraction at fraction
  split at fraction
  · simp only [Bool.and_eq_true] at fraction
    have power := isNumberChar_of_isExponent fraction.2
    exact List.forall_mem_cons.mpr ⟨rfl, isNumberChar_of_dropWhile power⟩
  · exact isNumberChar_of_isExponent fraction

theorem isNumberChar_of_isUnsignedNumber {chars : List Char} (number : isUnsignedNumber chars) :
    ∃ c rest, chars = c :: rest ∧ c.isDigit ∧ ∀ c ∈ rest, isNumberChar c := by
  unfold isUnsignedNumber at number
  split at number
  · exact ⟨_, _, rfl, rfl, isNumberChar_of_isFraction number⟩
  · rename_i digit rest _
    simp only [Bool.and_eq_true] at number
    have fraction := isNumberChar_of_isFraction number.2
    exact ⟨digit, rest, rfl, number.1, isNumberChar_of_dropWhile fraction⟩
  · contradiction

/-- A number begins with its sign or a digit, and only characters of numbers follow. -/
theorem isNumberChar_of_isNumberLiteral {chars : List Char} (number : isNumberLiteral chars) :
    ∃ c rest, chars = c :: rest ∧ (c = '-' ∨ c.isDigit) ∧ ∀ c ∈ rest, isNumberChar c := by
  unfold isNumberLiteral at number
  split at number
  · rename_i rest
    obtain ⟨c, digits, rfl, digit, others⟩ := isNumberChar_of_isUnsignedNumber number
    refine ⟨'-', c :: digits, rfl, .inl rfl, ?_⟩
    exact List.forall_mem_cons.mpr ⟨isNumberChar_of_isDigit digit, others⟩
  · obtain ⟨c, rest, rfl, digit, others⟩ := isNumberChar_of_isUnsignedNumber number
    exact ⟨c, rest, rfl, .inr digit, others⟩

theorem readAll_numberChars {tokens : List Token} {collected chars : List Char}
    (number : ∀ c ∈ chars, isNumberChar c) :
    readAll ⟨tokens, .number collected⟩ chars =
      some ⟨tokens, .number (chars.reverse ++ collected)⟩ := by
  induction chars generalizing collected with
  | nil => rfl
  | cons c rest ih =>
      obtain ⟨here, others⟩ := List.forall_mem_cons.mp number
      have taken : read ⟨tokens, .number collected⟩ c = some ⟨tokens, .number (c :: collected)⟩ := by
        simp [read, here]
      rw [readAll_cons, taken, Option.bind_some, ih others]
      simp

theorem readBetween_number {c : Char} (tokens : List Token) (starts : c = '-' ∨ c.isDigit) :
    readBetween tokens c = some ⟨tokens, .number [c]⟩ := by
  rcases starts with rfl | digit
  · rfl
  · have other {d : Char} (plain : d.isDigit = false) : (c == d) = false := by
      rw [beq_eq_false_iff_ne]
      rintro rfl
      rw [digit] at plain
      contradiction
    simp [readBetween, isBlank, other, digit]

theorem scans_number {literal : String} (number : isNumberLiteral literal.toList) :
    Scans (.number literal) := by
  intro before
  obtain ⟨c, rest, spelled, starts, others⟩ := isNumberChar_of_isNumberLiteral number
  have token : numberToken? (rest.reverse ++ [c]) = some (.number literal) := by
    rw [numberToken?, List.reverse_append, List.reverse_reverse, List.reverse_singleton,
      List.singleton_append, ← spelled, if_pos number, String.ofList_toList]
  refine ⟨⟨before, .number (rest.reverse ++ [c])⟩, ?_, settles_number token⟩
  rw [chars, spelled, readAll_cons]
  change (readBetween before c).bind _ = _
  rw [readBetween_number before starts, Option.bind_some, readAll_numberChars others]

/-- A character behind a document is read behind the document's tokens. -/
theorem Scans.followed {document : Json} (scans : Scans document) {c : Char}
    (delimiter : IsDelimiter c) (before : List Token) (rest : List Char) :
    readAll ⟨before, .between⟩ (document.chars ++ c :: rest) =
      (readBetween (document.tokens.reverse ++ before) c).bind (readAll · rest) := by
  obtain ⟨scanner, scanned, settles⟩ := scans before
  rw [readAll_append, scanned, Option.bind_some, readAll_cons, settles.read c delimiter]

theorem readAll_elementChars {elements : List Json} (scans : ∀ element ∈ elements, Scans element)
    (before : List Token) :
    readAll ⟨before, .between⟩ (elementChars elements ++ [']']) =
      some ⟨.closeBracket :: ((elementTokens elements).reverse ++ before), .between⟩ := by
  induction elements generalizing before with
  | nil => rfl
  | cons element rest ih =>
      obtain ⟨here, others⟩ := List.forall_mem_cons.mp scans
      cases rest with
      | nil => exact here.followed (.inr (.inl rfl)) before []
      | cons second rest =>
          have comma (tokens : List Token) :
              readBetween tokens ',' = some ⟨.comma :: tokens, .between⟩ := rfl
          rw [elementChars_cons_cons, elementTokens_cons_cons, List.append_assoc,
            List.cons_append, here.followed (.inl rfl), comma, Option.bind_some, ih others]
          simp

theorem readAll_nameChars (before : List Token) (name : Option String) (rest : List Char) :
    readAll ⟨before, .between⟩ (stringChars name ++ ':' :: rest) =
      readAll ⟨.colon :: .string name :: before, .between⟩ rest := by
  rw [readAll_append, readAll_stringChars]
  rfl

theorem readAll_memberChars {members : List (Option String × Json)}
    (scans : ∀ member ∈ members, Scans member.2) (before : List Token) :
    readAll ⟨before, .between⟩ (memberChars members ++ ['\x7d']) =
      some ⟨.closeBrace :: ((memberTokens members).reverse ++ before), .between⟩ := by
  induction members generalizing before with
  | nil => rfl
  | cons member rest ih =>
      obtain ⟨name, value⟩ := member
      obtain ⟨here, others⟩ := List.forall_mem_cons.mp scans
      have value_scans : Scans value := here
      cases rest with
      | nil =>
          have closed (tokens : List Token) :
              readBetween tokens '\x7d' = some ⟨.closeBrace :: tokens, .between⟩ := rfl
          rw [memberChars, List.append_assoc, List.cons_append, readAll_nameChars,
            value_scans.followed (.inr (.inr rfl)), closed]
          simp [memberTokens, readAll]
      | cons second rest =>
          have comma (tokens : List Token) :
              readBetween tokens ',' = some ⟨.comma :: tokens, .between⟩ := rfl
          rw [memberChars_cons_cons, memberTokens_cons_cons, List.append_assoc, List.cons_append,
            List.append_assoc, List.cons_append, readAll_nameChars,
            value_scans.followed (.inl rfl), comma, Option.bind_some, ih others]
          simp

theorem scans {document : Json} (wellFormed : WellFormed document) : Scans document := by
  intro before
  induction wellFormed generalizing before with
  | null => exact ⟨⟨before, .word "llun".toList⟩, rfl, settles_word rfl⟩
  | @bool value =>
      cases value with
      | true => exact ⟨⟨before, .word "eurt".toList⟩, rfl, settles_word rfl⟩
      | false => exact ⟨⟨before, .word "eslaf".toList⟩, rfl, settles_word rfl⟩
  | number number => exact scans_number number before
  | @string text => exact ⟨_, readAll_stringChars before text, settles_between _⟩
  | @array elements _ ih =>
      refine ⟨_, ?_, settles_between _⟩
      have inside := readAll_elementChars ih (.openBracket :: before)
      simpa [chars, Json.tokens, readAll_cons, read, readBetween, isBlank] using inside
  | @object members _ ih =>
      refine ⟨_, ?_, settles_between _⟩
      have inside := readAll_memberChars ih (.openBrace :: before)
      simpa [chars, Json.tokens, readAll_cons, read, readBetween, isBlank] using inside

end Scanner

/-- The text written for a document is read as its tokens. -/
theorem tokens?_chars {document : Json} (wellFormed : WellFormed document) :
    tokens? document.chars = some document.tokens := by
  obtain ⟨scanner, scanned, settles⟩ := Scanner.scans wellFormed []
  have read : document.chars.foldlM Scanner.read Scanner.start = some scanner := scanned
  rw [tokens?, read]
  simpa using settles.finish

/-- The text written for a document is read as that document. -/
theorem parse?_render {document : Json} (wellFormed : WellFormed document) :
    parse? document.render = some document := by
  have assembled : document.tokens.foldlM Assembly.read Assembly.start =
      some ⟨[], .separator document⟩ := Assembly.supplies wellFormed [] false
  rw [parse?, render, String.toList_ofList, ofChars?, tokens?_chars wellFormed]
  simp [assembled, Assembly.finish?]

end ExecutionLayer.Json
