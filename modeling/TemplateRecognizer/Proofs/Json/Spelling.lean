import TemplateRecognizer.Json.Grammar

/-!
# Spelled pieces are read back

Every spelling of a piece is read as that piece, and the spelling that a writer chooses is one of
them.  A numeral goes on as far as it can, so its reader also needs to know that what stands
behind it cannot continue it.
-/

set_option autoImplicit false

namespace TemplateRecognizer

namespace Json

/-! ## Codes -/

theorem hexValue?_hexDigit : ∀ value < 16, hexValue? (hexDigit value) = some value := by
  decide

theorem hexCode?_of_lt {code : Nat} (small : code < 256) :
    hexCode? '0' '0' (hexDigit (code / 16)) (hexDigit (code % 16)) = some code := by
  have zero : hexValue? '0' = some 0 := rfl
  have lower := hexValue?_hexDigit (code / 16) (by omega)
  have low := hexValue?_hexDigit (code % 16) (by omega)
  simp only [hexCode?, zero, lower, low, Option.bind_eq_bind, Option.bind_some]
  congr 1
  omega

def withCode (code : Nat) : List Nat × List Char → List Nat × List Char :=
  fun (codes, behind) => (code :: codes, behind)

theorem codes?_plain {character : Char} (noQuote : character ≠ '\x22')
    (noEscape : character ≠ '\\') (printable : ¬character.toNat < 32) (rest : List Char) :
    codes? (character :: rest) = (codes? rest).map (withCode character.toNat) := by
  rw [codes?, if_neg (by simp [printable, noEscape])]
  · cases codes? rest <;> rfl
  · exact noQuote
  · intro first second third fourth others same
    exact absurd same noEscape
  · intro letter others same
    exact absurd same noEscape

theorem codes?_letter {letter character : Char} (named : escaped? letter = some character)
    (rest : List Char) :
    codes? ('\\' :: letter :: rest) = (codes? rest).map (withCode character.toNat) := by
  have notCode : letter ≠ 'u' := by
    intro same
    rw [same] at named
    cases named
  rw [codes?, named]
  · cases codes? rest <;> rfl
  · intro first second third fourth others same
    exact absurd same notCode

theorem codes?_numbered {first second third fourth : Char} {code : Nat}
    (named : hexCode? first second third fourth = some code) (rest : List Char) :
    codes? ('\\' :: 'u' :: first :: second :: third :: fourth :: rest) =
      (codes? rest).map (withCode code) := by
  rw [codes?, named]
  cases codes? rest <;> rfl

theorem CodeSpelled.codes? {code : Nat} {spelling : List Char}
    (spelled : CodeSpelled code spelling) (rest : List Char) :
    codes? (spelling ++ rest) = (codes? rest).map (withCode code) := by
  cases spelled with
  | plain noQuote noEscape printable =>
    exact codes?_plain noQuote noEscape (Nat.not_lt.mpr printable) rest
  | letter named => exact codes?_letter named rest
  | numbered named => exact codes?_numbered named rest

theorem codes?_spelled {codes : List Nat} {spellings : List (List Char)}
    (spelled : List.Forall₂ CodeSpelled codes spellings) (rest : List Char) :
    codes? (spellings.flatten ++ '\x22' :: rest) = some (codes, rest) := by
  induction spelled with
  | nil => rfl
  | cons first _ inductionHypothesis =>
    rw [List.flatten_cons, List.append_assoc, first.codes?, inductionHypothesis]
    rfl

theorem hexValue?_lt {digit : Char} {value : Nat} (read : hexValue? digit = some value) :
    value < 16 := by
  unfold hexValue? at read
  split at read
  · rename_i decimal
    cases read
    simp only [Char.isDigit, ge_iff_le, Bool.and_eq_true, decide_eq_true_eq,
      UInt32.le_iff_toNat_le] at decimal
    have upper : digit.toNat ≤ 57 := decimal.2
    omega
  split at read
  · rename_i small
    cases read
    simp only [Char.le_def, UInt32.le_iff_toNat_le] at small
    have upper : digit.toNat ≤ 102 := small.2
    omega
  split at read
  · rename_i capital
    cases read
    simp only [Char.le_def, UInt32.le_iff_toNat_le] at capital
    have upper : digit.toNat ≤ 70 := capital.2
    omega
  · cases read

theorem hexCode?_lt {first second third fourth : Char} {code : Nat}
    (read : hexCode? first second third fourth = some code) : code < 0x10000 := by
  simp only [hexCode?, Option.bind_eq_bind, Option.bind_eq_some_iff, Option.some.injEq] at read
  obtain ⟨high, readHigh, upper, readUpper, lower, readLower, low, readLow, rfl⟩ := read
  have := hexValue?_lt readHigh
  have := hexValue?_lt readUpper
  have := hexValue?_lt readLower
  have := hexValue?_lt readLow
  omega

theorem toNat_lt (character : Char) : character.toNat < 0x110000 := by
  have valid : character.toNat.isValidChar := character.valid
  simp only [Nat.isValidChar] at valid
  omega

theorem CodeSpelled.lt {code : Nat} {spelling : List Char} (spelled : CodeSpelled code spelling) :
    code < 0x110000 := by
  cases spelled with
  | plain _ _ _ => exact toNat_lt _
  | letter _ => exact toNat_lt _
  | numbered named =>
    have small := hexCode?_lt named
    omega

theorem lt_of_codeSpelled {codes : List Nat} {spellings : List (List Char)}
    (spelled : List.Forall₂ CodeSpelled codes spellings) : ∀ code ∈ codes, code < 0x110000 := by
  induction spelled with
  | nil => simp
  | cons first _ inductionHypothesis =>
    exact List.forall_mem_cons.mpr ⟨first.lt, inductionHypothesis⟩

/-! ## Strings -/

theorem surrogate_free (character : Char) :
    isHighSurrogate character.toNat = false ∧ isLowSurrogate character.toNat = false := by
  have valid : character.toNat.isValidChar := character.valid
  simp only [Nat.isValidChar] at valid
  simp only [isHighSurrogate, isLowSurrogate, Bool.and_eq_false_iff, decide_eq_false_iff_not]
  omega

theorem Encodes.decode? {characters : List Char} {codes : List Nat}
    (encodes : Encodes characters codes) : decode? codes = some characters := by
  induction encodes with
  | nil => rfl
  | @single character characters codes encodes inductionHypothesis =>
    obtain ⟨high, low⟩ := surrogate_free character
    cases codes with
    | nil =>
      cases encodes
      simp [Json.decode?, high, low]
    | cons code codes => simp [Json.decode?, high, low, inductionHypothesis]
  | pair high low number _ inductionHypothesis =>
    simp [Json.decode?, high, low, inductionHypothesis, ← number]

theorem encodes_toNat (characters : List Char) :
    Encodes characters (characters.map Char.toNat) := by
  induction characters with
  | nil => exact .nil
  | cons character characters inductionHypothesis => exact .single inductionHypothesis

theorem toNat_ofNat {code : Nat} (small : code < 0x110000) (high : isHighSurrogate code = false)
    (low : isLowSurrogate code = false) : (Char.ofNat code).toNat = code := by
  simp only [isHighSurrogate, isLowSurrogate, Bool.and_eq_false_iff, decide_eq_false_iff_not]
    at high low
  have valid : code.isValidChar := by
    simp only [Nat.isValidChar]
    omega
  rw [Char.ofNat, dif_pos valid]
  rfl

theorem encodes_ofNat {code : Nat} {characters : List Char} {codes : List Nat}
    (small : code < 0x110000) (noHigh : ¬isHighSurrogate code = true)
    (noLow : ¬isLowSurrogate code = true) (behind : Encodes characters codes) :
    Encodes (Char.ofNat code :: characters) (code :: codes) := by
  have number := toNat_ofNat small (Bool.eq_false_iff.mpr noHigh) (Bool.eq_false_iff.mpr noLow)
  have single : Encodes (Char.ofNat code :: characters) ((Char.ofNat code).toNat :: codes) :=
    .single behind
  rwa [number] at single

theorem encodes_of_decode? {codes : List Nat} {characters : List Char}
    (small : ∀ code ∈ codes, code < 0x110000) (read : decode? codes = some characters) :
    Encodes characters codes := by
  fun_induction decode? codes generalizing characters with
  | case1 =>
    cases read
    exact .nil
  | case3 code noSurrogate =>
    cases read
    rw [Bool.or_eq_true, not_or] at noSurrogate
    exact encodes_ofNat (small code List.mem_cons_self) noSurrogate.1 noSurrogate.2 .nil
  | case4 code next rest high low inductionHypothesis =>
    obtain ⟨behind, readBehind, rfl⟩ := Option.map_eq_some_iff.mp read
    refine .pair high low ?_ (inductionHypothesis ?_ readBehind)
    · simp only [isHighSurrogate, isLowSurrogate, Bool.and_eq_true, decide_eq_true_eq] at high low
      refine toNat_ofNat (by omega) ?_ ?_
      · simp only [isHighSurrogate, Bool.and_eq_false_iff, decide_eq_false_iff_not]
        omega
      · simp only [isLowSurrogate, Bool.and_eq_false_iff, decide_eq_false_iff_not]
        omega
    · intro further member
      exact small further (List.mem_cons_of_mem _ (List.mem_cons_of_mem _ member))
  | case7 code next rest noHigh noLow inductionHypothesis =>
    obtain ⟨behind, readBehind, rfl⟩ := Option.map_eq_some_iff.mp read
    refine encodes_ofNat (small code List.mem_cons_self) noHigh noLow
      (inductionHypothesis ?_ readBehind)
    intro further member
    exact small further (List.mem_cons_of_mem _ member)
  | _ => cases read

theorem Quoted.piece? {text : Option String} {spelling : List Char} (quoted : Quoted text spelling)
    (rest : List Char) : Json.piece? (spelling ++ rest) = some (.string text, rest) := by
  have opened (spellings : List (List Char)) : ('\x22' :: spellings.flatten ++ ['\x22']) ++ rest =
      '\x22' :: (spellings.flatten ++ '\x22' :: rest) := by
    simp
  cases quoted with
  | text encodes spelled =>
    rw [opened, Json.piece?, codes?_spelled spelled]
    simp [encodes.decode?]
  | @unpaired codes spellings undecoded spelled =>
    have small := lt_of_codeSpelled spelled
    have noText : decode? codes = none := by
      cases read : decode? codes with
      | none => rfl
      | some characters => exact absurd (encodes_of_decode? small read) (undecoded characters)
    rw [opened, Json.piece?, codes?_spelled spelled]
    simp [noText]

/-- A writer spells each character so that it is read back. -/
theorem codeSpelled_escape (character : Char) :
    CodeSpelled character.toNat (escape character) := by
  unfold escape
  -- The quote, the backslash and five control characters have an escape of one letter.
  iterate 7
    split
    case isTrue same =>
      subst same
      exact .letter rfl
  split
  case isTrue control => exact .numbered (hexCode?_of_lt (by omega))
  case isFalse noQuote noEscape _ _ _ _ _ printable =>
    exact .plain noQuote noEscape (Nat.not_lt.mp printable)

theorem quoted_quote (text : String) : Quoted (some text) (quote text) := by
  have spelled : List.Forall₂ CodeSpelled (text.toList.map Char.toNat)
      (text.toList.map escape) := by
    rw [List.forall₂_map_left_iff, List.forall₂_map_right_iff, List.forall₂_same]
    exact fun character _ => codeSpelled_escape character
  have quoted := Quoted.text (encodes_toNat text.toList) spelled
  rwa [String.ofList_toList] at quoted

/-! ## Numbers -/

/-- Holds of a text that no numeral can go on into. -/
def Stops (text : List Char) : Prop :=
  ∀ head tail, text = head :: tail →
    head.isDigit = false ∧ head ≠ '.' ∧ head ≠ 'e' ∧ head ≠ 'E'

theorem stops_nil : Stops [] := by
  intro head tail same
  cases same

theorem stops_cons {head : Char} (separates : head.isDigit = false ∧ head ≠ '.' ∧ head ≠ 'e' ∧
    head ≠ 'E') (tail : List Char) : Stops (head :: tail) := by
  intro head' tail' same
  cases same
  exact separates

def NoDigit (text : List Char) : Prop :=
  ∀ head tail, text = head :: tail → head.isDigit = false

theorem Stops.noDigit {text : List Char} (stops : Stops text) : NoDigit text :=
  fun head tail same => (stops head tail same).1

theorem noDigit_cons {head : Char} (other : head.isDigit = false) (tail : List Char) :
    NoDigit (head :: tail) := by
  intro head' tail' same
  cases same
  exact other

theorem span_digits {digits rest : List Char}
    (digit : ∀ character ∈ digits, character.isDigit = true) (ends : NoDigit rest) :
    (digits ++ rest).takeWhile Char.isDigit = digits ∧
      (digits ++ rest).dropWhile Char.isDigit = rest := by
  rw [List.takeWhile_append_of_pos digit, List.dropWhile_append_of_pos digit]
  cases rest with
  | nil => simp
  | cons head tail =>
    have other := ends head tail rfl
    simp [other]

theorem Decimal.takeWhole? {digits rest : List Char} (decimal : Decimal digits)
    (ends : NoDigit rest) : Json.takeWhole? (digits ++ rest) = some (digits, rest) := by
  obtain ⟨taken, dropped⟩ := span_digits decimal.digit ends
  unfold Json.takeWhole?
  split
  · rename_i behind found
    cases digits with
    | nil => exact absurd rfl decimal.nonempty
    | cons head tail =>
      obtain ⟨rfl, same⟩ := List.cons.inj found
      rw [decimal.leading tail rfl, ← same, decimal.leading tail rfl]
      rfl
  · simp [taken, dropped, decimal.nonempty]

theorem Decimal.exists_eq_cons {digits : List Char} (decimal : Decimal digits) :
    ∃ head tail, digits = head :: tail ∧ head.isDigit = true := by
  cases digits with
  | nil => exact absurd rfl decimal.nonempty
  | cons head tail => exact ⟨head, tail, rfl, decimal.digit head List.mem_cons_self⟩

theorem Exponent.noDigit {exponent rest : List Char} (isExponent : Exponent exponent)
    (stops : Stops rest) : NoDigit (exponent ++ rest) := by
  cases isExponent with
  | absent => exact stops.noDigit
  | power letter _ _ _ =>
    rw [List.mem_cons, List.mem_singleton] at letter
    rcases letter with rfl | rfl
    · exact noDigit_cons rfl _
    · exact noDigit_cons rfl _

theorem Exponent.takeExponent {exponent rest : List Char} (isExponent : Exponent exponent)
    (stops : Stops rest) : Json.takeExponent (exponent ++ rest) = (exponent, rest) := by
  cases isExponent with
  | absent =>
    cases rest with
    | nil => rfl
    | cons head tail =>
      obtain ⟨_, _, noLower, noUpper⟩ := stops head tail rfl
      simp [Json.takeExponent, noLower, noUpper]
  | @power letter sign digits isLetter isSign nonempty digit =>
    obtain ⟨taken, dropped⟩ := span_digits digit stops.noDigit
    have signed : takeExponentSign (sign ++ (digits ++ rest)) = (sign, digits ++ rest) := by
      simp only [List.mem_cons, List.not_mem_nil, or_false] at isSign
      rcases isSign with rfl | rfl | rfl
      · cases digits with
        | nil => exact absurd rfl nonempty
        | cons head tail =>
          have isDigit := digit head List.mem_cons_self
          rw [List.nil_append, List.cons_append]
          unfold takeExponentSign
          split
          · rename_i same
            cases same
            cases isDigit
          · rename_i same
            cases same
            cases isDigit
          · rfl
      · rfl
      · rfl
    have named : letter = 'e' ∨ letter = 'E' := by simpa using isLetter
    rw [List.cons_append, List.append_assoc, Json.takeExponent]
    simp [signed, taken, dropped, named, nonempty]

theorem Fraction.takeFraction {fraction exponent rest : List Char} (isFraction : Fraction fraction)
    (isExponent : Exponent exponent) (stops : Stops rest) :
    Json.takeFraction (fraction ++ (exponent ++ rest)) = (fraction, exponent ++ rest) := by
  cases isFraction with
  | absent =>
    have noPoint : ∀ tail, exponent ++ rest ≠ '.' :: tail := by
      intro tail same
      cases isExponent with
      | absent => exact (stops '.' tail same).2.1 rfl
      | power letter _ _ _ =>
        cases same
        simp at letter
    rw [List.nil_append]
    unfold Json.takeFraction
    split
    · rename_i tail same
      exact absurd same (noPoint tail)
    · rfl
  | @point digits nonempty digit =>
    obtain ⟨taken, dropped⟩ := span_digits digit (isExponent.noDigit stops)
    rw [List.cons_append, Json.takeFraction]
    simp [taken, dropped, nonempty]

theorem Fraction.noDigit {fraction exponent rest : List Char} (isFraction : Fraction fraction)
    (isExponent : Exponent exponent) (stops : Stops rest) :
    NoDigit (fraction ++ (exponent ++ rest)) := by
  cases isFraction with
  | absent => exact isExponent.noDigit stops
  | point _ _ => exact noDigit_cons rfl _

/-- A numeral is read up to where it cannot go on. -/
theorem Numeral.numeral? {numeral rest : List Char} (isNumeral : Numeral numeral)
    (stops : Stops rest) : Json.numeral? (numeral ++ rest) = some (numeral, rest) := by
  cases isNumeral with
  | @parts sign whole fraction exponent isSign decimal isFraction isExponent =>
    have signed : takeSign (sign ++ (whole ++ (fraction ++ (exponent ++ rest)))) =
        (sign, whole ++ (fraction ++ (exponent ++ rest))) := by
      simp only [List.mem_cons, List.not_mem_nil, or_false] at isSign
      rcases isSign with rfl | rfl
      · obtain ⟨head, tail, rfl, digit⟩ := decimal.exists_eq_cons
        rw [List.nil_append, List.cons_append]
        unfold takeSign
        split
        · rename_i same
          cases same
          cases digit
        · rfl
      · rfl
    have wholeRead := decimal.takeWhole? (isFraction.noDigit isExponent stops)
    have fractionRead := isFraction.takeFraction isExponent stops
    have exponentRead := isExponent.takeExponent stops
    simp [Json.numeral?, signed, wholeRead, fractionRead, exponentRead]

theorem Numeral.exists_eq_cons {numeral : List Char} (isNumeral : Numeral numeral) :
    ∃ head tail, numeral = head :: tail ∧ (head = '-' ∨ head.isDigit = true) := by
  cases isNumeral with
  | parts isSign decimal _ _ =>
    simp only [List.mem_cons, List.not_mem_nil, or_false] at isSign
    rcases isSign with rfl | rfl
    · obtain ⟨head, tail, rfl, digit⟩ := decimal.exists_eq_cons
      exact ⟨head, _, rfl, .inr digit⟩
    · exact ⟨'-', _, rfl, .inl rfl⟩

theorem Numeral.piece? {numeral rest : List Char} (isNumeral : Numeral numeral)
    (stops : Stops rest) :
    Json.piece? (numeral ++ rest) = some (.number (String.ofList numeral), rest) := by
  have read := isNumeral.numeral? stops
  obtain ⟨head, tail, rfl, first⟩ := isNumeral.exists_eq_cons
  unfold Json.piece?
  split
  case h_11 => rw [read]; rfl
  all_goals
    rename_i same
    cases (List.cons.inj same).1
    simp at first

theorem Decimal.numeral {digits : List Char} (decimal : Decimal digits) : Numeral digits := by
  have unsigned : ([] : List Char) ∈ [[], ['-']] := List.mem_cons_self
  have parts := Numeral.parts unsigned decimal .absent .absent
  simpa using parts

theorem decimal_toDigits (value : Nat) : Decimal (Nat.toDigits 10 value) where
  nonempty := Nat.toDigits_ne_nil
  digit _ member := Nat.isDigit_of_mem_toDigits (by decide) (by decide) member
  leading := by
    induction value using Nat.strongRecOn with
    | ind value inductionHypothesis =>
      intro tail same
      by_cases small : value < 10
      · rw [Nat.toDigits_of_lt_base small] at same
        exact (List.cons.inj same).2.symm
      · rw [Nat.toDigits_of_base_le (by decide) (by omega)] at same
        exfalso
        -- The digits in front of the last one are those of a number that is not zero.
        cases front : Nat.toDigits 10 (value / 10) with
        | nil => exact Nat.toDigits_ne_nil front
        | cons head rest =>
          rw [front] at same
          obtain ⟨rfl, _⟩ := List.cons.inj same
          have alone := inductionHypothesis (value / 10) (by omega) rest front
          have read : Nat.ofDigitChars 10 (Nat.toDigits 10 (value / 10)) 0 = value / 10 :=
            Nat.ofDigitChars_ten_toDigits
          rw [front, alone] at read
          have none : value / 10 = 0 := read.symm
          omega

/-! ## Pieces -/

/-- Holds of the pieces whose written form is a spelling of theirs, which is a question only of
numbers. -/
def Piece.Sound (piece : Piece) : Prop := piece.SpelledBy piece.spelling

theorem Piece.sound_of_mark {piece : Piece} (mark : ∀ numeral, piece ≠ .number numeral) :
    piece.Sound := by
  cases piece with
  | number numeral => exact absurd rfl (mark numeral)
  | string text =>
    cases text with
    | some text => exact .string (quoted_quote text)
    | none =>
      have undecoded : ∀ characters, ¬Encodes characters [0xD800] := by
        intro characters encodes
        cases encodes.decode?
      have half : CodeSpelled 0xD800 ['\\', 'u', 'd', '8', '0', '0'] := .numbered rfl
      exact .string (.unpaired undecoded (.cons half .nil))
  | _ => exact .mark (by simp) (by simp)

theorem sound_toString (value : Nat) : (Piece.number (toString value)).Sound := by
  have digits : (toString value).toList = Nat.toDigits 10 value := Nat.toList_repr
  have decimal := decimal_toDigits value
  rw [← digits] at decimal
  exact .number decimal.numeral

/-- Every spelling of a piece is read as that piece, and what is behind it is left. -/
theorem Piece.SpelledBy.piece? {piece : Piece} {spelling : List Char}
    (spelled : piece.SpelledBy spelling) {rest : List Char}
    (stops : (∃ numeral, piece = .number numeral) → Stops rest) :
    Json.piece? (spelling ++ rest) = some (piece, rest) := by
  cases spelled with
  | mark noNumber noString =>
    cases piece with
    | number numeral => exact absurd rfl (noNumber numeral)
    | string text => exact absurd rfl (noString text)
    | bool value => cases value <;> rfl
    | _ => rfl
  | @number numeral isNumeral =>
    have read := isNumeral.piece? (stops ⟨numeral, rfl⟩)
    rwa [String.ofList_toList] at read
  | string quoted => exact quoted.piece? rest

theorem Piece.SpelledBy.stops {piece : Piece} {spelling : List Char}
    (spelled : piece.SpelledBy spelling) (noNumber : ∀ numeral, piece ≠ .number numeral)
    (rest : List Char) : Stops (spelling ++ rest) := by
  cases spelled with
  | mark _ noString =>
    cases piece with
    | number numeral => exact absurd rfl (noNumber numeral)
    | string text => exact absurd rfl (noString text)
    | bool value => cases value <;> exact stops_cons (by decide) _
    | _ => exact stops_cons (by decide) _
  | number _ => exact absurd rfl (noNumber _)
  | string quoted => cases quoted <;> exact stops_cons (by decide) _

theorem piece?_of_blank {head : Char} (blank : isBlank head = true) (tail : List Char) :
    piece? (head :: tail) = none := by
  simp only [isBlank, Bool.or_eq_true, beq_iff_eq] at blank
  rcases blank with ((rfl | rfl) | rfl) | rfl <;> rfl

theorem pieces?_of_piece? {blanks text behind : List Char} {piece : Piece}
    (blank : ∀ character ∈ blanks, isBlank character = true)
    (read : piece? text = some (piece, behind)) :
    pieces? (blanks ++ text) = (pieces? behind).map (piece :: ·) := by
  cases text with
  | nil => cases read
  | cons head tail =>
    have visible : ¬isBlank head = true := by
      intro hidden
      rw [piece?_of_blank hidden] at read
      cases read
    have trimmed : (blanks ++ head :: tail).dropWhile isBlank = head :: tail := by
      rw [List.dropWhile_append_of_pos blank, List.dropWhile_cons_of_neg visible]
    rw [pieces?]
    split
    · rename_i nothing
      cases trimmed.symm.trans nothing
    · rename_i head' tail' found
      cases trimmed.symm.trans found
      split
      · rename_i failed
        cases read.symm.trans failed
      · rename_i piece' behind' same
        cases read.symm.trans same
        rfl

end Json

end TemplateRecognizer
