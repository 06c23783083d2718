import TemplateRecognizer.Proofs.Lexer.Separation

/-!
# Lexing undoes spelling

Tokens can be written down and read again: where lexemes stand one behind another with blanks
between them, a lexer finds just these lexemes.  A quote by itself cannot be written so, since it
opens a string, and a string that is never closed takes all that follows it.
-/

set_option autoImplicit false

namespace TemplateRecognizer

namespace Lexeme

structure Writable (lexeme : Lexeme) : Prop where
  classified : Classified lexeme
  noQuote : ∀ quote, isQuote quote = true → lexeme.spelling ≠ [quote]

inductive Open : Lexeme → Prop where
  | quoted {quote : Char} {body : List Char} :
      isQuote quote = true → quote ∉ body → Open (verbatim .unknown (quote :: body))

theorem Classified.single {lexeme : Lexeme} (classified : Classified lexeme)
    (unknown : lexeme.kind = .unknown) :
    ∃ character, lexeme.spelling = [character] ∧ isBlank character = false := by
  cases classified with
  | symbol fixed =>
    obtain rfl := unknown
    cases fixed
  | name | integer | decimal | string => cases unknown
  | other visible => exact ⟨_, rfl, visible⟩

theorem Classified.spelling_ne_nil {lexeme : Lexeme} (classified : Classified lexeme) :
    lexeme.spelling ≠ [] := by
  cases classified with
  | symbol fixed => exact symbol_ne_nil fixed
  | name isWord _ =>
    obtain ⟨head, tail, rfl, _⟩ := isWord
    exact List.cons_ne_nil head tail
  | integer isDigits => exact isDigits.1
  | decimal _ _ => simp [verbatim]
  | string _ _ => exact List.cons_ne_nil _ _
  | other => exact List.cons_ne_nil _ _

section

variable {lexeme : Lexeme} {head : Char} {more : List Char}

theorem Classified.first_eq (classified : Classified lexeme)
    (spelled : lexeme.spelling = head :: more) : first head more = lexeme := by
  have candidate : Candidate (head :: more) lexeme :=
    .classified classified (spelled ▸ List.prefix_rfl)
  rcases candidate.rivals with same | shorter
  · exact same.symm
  · have covered := (first_spelling_front head more).length_le
    rw [spelled] at shorter
    omega

theorem Classified.visible (classified : Classified lexeme)
    (spelled : lexeme.spelling = head :: more) : isBlank head = false := by
  by_contra blank
  rw [Bool.not_eq_false] at blank
  -- A blank would be read as unknown, and no unknown lexeme begins with a blank.
  have unknown : (first head more).kind = .unknown := by
    simp only [isBlank, Bool.or_eq_true, beq_iff_eq] at blank
    rcases blank with ((rfl | rfl) | rfl) | rfl <;> rfl
  rw [classified.first_eq spelled] at unknown
  obtain ⟨character, single, visible⟩ := classified.single unknown
  obtain ⟨rfl, _⟩ := List.cons.inj (spelled.symm.trans single)
  rw [visible] at blank
  cases blank

theorem Writable.closed (writable : Writable lexeme) (spelled : lexeme.spelling = head :: more)
    (quotes : isQuote head = true) : head ∈ more := by
  by_contra free
  have read := writable.classified.first_eq spelled
  rw [first_eq_unclosed quotes free] at read
  obtain ⟨character, single, _⟩ := writable.classified.single (read ▸ rfl)
  obtain ⟨rfl, rfl⟩ := List.cons.inj (spelled.symm.trans single)
  exact writable.noQuote head quotes spelled

theorem Writable.first_eq (writable : Writable lexeme) (spelled : lexeme.spelling = head :: more)
    {rest : List Char} (apart : rest = [] ∨ ∃ blank behind, rest = blank :: behind ∧
      isBlank blank = true) : first head (more ++ rest) = lexeme := by
  rcases apart with rfl | ⟨blank, behind, rfl, isBlank⟩
  · rw [List.append_nil]
    exact writable.classified.first_eq spelled
  · rw [first_stop (stops_of_isBlank isBlank) (writable.closed spelled)]
    exact writable.classified.first_eq spelled

/-- Where a string is never closed, all that follows is read with its quote. -/
theorem Open.first_eq (isOpen : Open lexeme) :
    ∃ quote body, lexeme.spelling = quote :: body ∧ isBlank quote = false ∧
      first quote body = lexeme := by
  cases isOpen with
  | @quoted quote body quotes free =>
    refine ⟨quote, body, rfl, ?_, first_eq_unclosed quotes free⟩
    rcases isQuote_iff.mp quotes with rfl | rfl <;> rfl

end

end Lexeme

/-! ## Lexemes with blanks between them -/

structure Spaced where
  blanks : List Char
  lexeme : Lexeme

def Spaced.source (piece : Spaced) : List Char := piece.blanks ++ piece.lexeme.spelling

/-- Holds of lexemes that are written with blanks between them and any blanks around them.  The
last may be a string that is never closed, if nothing follows it. -/
inductive Legible : List Spaced → List Char → Prop where
  | nil {trailing : List Char} : Blank trailing → Legible [] trailing
  | unclosed {piece : Spaced} :
      Blank piece.blanks → piece.lexeme.Open → Legible [piece] []
  | cons {piece : Spaced} {pieces : List Spaced} {trailing : List Char} :
      Blank piece.blanks → piece.lexeme.Writable → (∀ next ∈ pieces.head?, next.blanks ≠ []) →
        Legible pieces trailing → Legible (piece :: pieces) trailing

namespace Legible

variable {piece : Spaced} {pieces : List Spaced} {trailing : List Char}

theorem blank (legible : Legible (piece :: pieces) trailing) : Blank piece.blanks := by
  cases legible with
  | unclosed blank _ => exact blank
  | cons blank _ _ _ => exact blank

theorem begins_blank (legible : Legible pieces trailing)
    (apart : ∀ next ∈ pieces.head?, next.blanks ≠ []) :
    pieces.flatMap Spaced.source ++ trailing = [] ∨
      ∃ blank behind, pieces.flatMap Spaced.source ++ trailing = blank :: behind ∧
        Lexeme.isBlank blank = true := by
  cases pieces with
  | nil =>
    cases legible with
    | nil ended =>
      cases trailing with
      | nil => exact .inl rfl
      | cons blank behind => exact .inr ⟨blank, behind, rfl, ended blank List.mem_cons_self⟩
  | cons next pieces =>
    obtain ⟨blank, blanks, spelled⟩ := List.exists_cons_of_ne_nil (apart next rfl)
    have all := legible.blank
    rw [spelled] at all
    refine .inr ⟨blank, blanks ++ next.lexeme.spelling ++ pieces.flatMap Spaced.source ++ trailing,
      ?_, all blank List.mem_cons_self⟩
    simp [Spaced.source, spelled]

/-- The first lexeme written down is the first one read, whole and with nothing more. -/
theorem exists_foremost (legible : Legible (piece :: pieces) trailing) :
    ∃ head tail,
      piece.lexeme.spelling ++ (pieces.flatMap Spaced.source ++ trailing) = head :: tail ∧
      Lexeme.first head tail = piece.lexeme ∧
      Foremost piece.blanks head tail (pieces.flatMap Spaced.source ++ trailing) := by
  cases legible with
  | unclosed blank isOpen =>
    obtain ⟨quote, body, spelled, visible, read⟩ := isOpen.first_eq
    refine ⟨quote, body, by simp [spelled], read, blank, visible, ?_⟩
    rw [read, spelled]
    simp
  | cons blank writable apart legible =>
    obtain ⟨head, more, spelled⟩ :=
      List.exists_cons_of_ne_nil writable.classified.spelling_ne_nil
    have read := writable.first_eq spelled (legible.begins_blank apart)
    refine ⟨head, more ++ (pieces.flatMap Spaced.source ++ trailing), by simp [spelled], read,
      blank, writable.classified.visible spelled, ?_⟩
    rw [read, spelled]
    rfl

theorem behind (legible : Legible (piece :: pieces) trailing) : Legible pieces trailing := by
  cases legible with
  | unclosed _ _ => exact .nil (fun _ member => nomatch member)
  | cons _ _ _ legible => exact legible

end Legible

theorem Lexer.tokens_of_legible {pieces : List Spaced} {trailing : List Char}
    (legible : Legible pieces trailing) (position : Position) :
    (tokens ⟨pieces.flatMap Spaced.source ++ trailing, position⟩).map
        (fun token => (token.kind, token.text)) =
      pieces.map (fun piece => (piece.lexeme.kind, piece.lexeme.text)) ++ [(.eof, none)] := by
  induction pieces generalizing position with
  | nil =>
    cases legible with
    | nil ended =>
      rw [List.flatMap_nil, List.nil_append, tokens_of_blank ended]
      rfl
  | cons piece pieces inductionHypothesis =>
    obtain ⟨head, tail, spelled, read, foremost⟩ := legible.exists_foremost
    rw [List.flatMap_cons, Spaced.source, List.append_assoc, List.append_assoc, spelled,
      tokens_of_foremost foremost, read, List.map_cons, inductionHypothesis legible.behind]
    rfl

/-- Lexemes that are written down with blanks between them are read again, every one with its
kind and its text, and then the end of input. -/
theorem tokenize_undoes_spelling {pieces : List Spaced} {trailing : List Char} {text : String}
    (legible : Legible pieces trailing)
    (written : text.toList = pieces.flatMap Spaced.source ++ trailing) :
    (tokenize text).map (fun token => (token.kind, token.text)) =
      pieces.map (fun piece => (piece.lexeme.kind, piece.lexeme.text)) ++ [(.eof, none)] := by
  have read := Lexer.tokens_of_legible legible .start
  rw [← written] at read
  exact read

/-- A sign that could go on, a string that holds the other quote, a keyword, and at the end a
string that is never closed. -/
theorem tokenize_undoes_spelling_unclosed_at_end :
    Legible
        [⟨[], ⟨.unknown, some "=", ['=']⟩⟩,
          ⟨['\n'], ⟨.stringConstant, some "'", ['\x22', '\x27', '\x22']⟩⟩,
          ⟨[' '], ⟨.ifKeyword, none, ['i', 'f']⟩⟩,
          ⟨['\t', ' '], ⟨.unknown, some "'a b", ['\x27', 'a', ' ', 'b']⟩⟩] [] ∧
      "=\n\x22'\x22 if\t 'a b".toList =
        ['='] ++ ['\n', '\x22', '\x27', '\x22'] ++ [' ', 'i', 'f'] ++
          ['\t', ' ', '\x27', 'a', ' ', 'b'] ∧
      (tokenize "=\n\x22'\x22 if\t 'a b").map (fun token => (token.kind, token.text)) =
        [(.unknown, some "="), (.stringConstant, some "'"), (.ifKeyword, none),
          (.unknown, some "'a b"), (.eof, none)] := by
  have blank {blanks : List Char} (all : blanks.all Lexeme.isBlank = true) : Blank blanks :=
    List.all_eq_true.mp all
  have sign : Lexeme.Writable ⟨.unknown, some "=", ['=']⟩ := by
    refine ⟨.other rfl rfl rfl ?_, ?_⟩
    · intro kind
      cases kind <;> decide
    · rintro _ quotes ⟨⟩
      cases quotes
  have string : Lexeme.Writable ⟨.stringConstant, some "'", ['\x22', '\x27', '\x22']⟩ :=
    ⟨@Lexeme.Classified.string '\x22' ['\x27'] rfl (by decide), by rintro _ _ ⟨⟩⟩
  have keyword : Lexeme.Writable ⟨.ifKeyword, none, ['i', 'f']⟩ :=
    ⟨@Lexeme.Classified.symbol .ifKeyword "if" rfl, by rintro _ _ ⟨⟩⟩
  have isOpen : Lexeme.Open ⟨.unknown, some "'a b", ['\x27', 'a', ' ', 'b']⟩ :=
    @Lexeme.Open.quoted '\x27' ['a', ' ', 'b'] rfl (by decide)
  suffices legible : Legible _ [] from ⟨legible, rfl, tokenize_undoes_spelling legible rfl⟩
  refine .cons (blank rfl) sign (by simp) ?_
  refine .cons (blank rfl) string (by simp) ?_
  refine .cons (blank rfl) keyword (by simp) ?_
  exact .unclosed (blank rfl) isOpen

end TemplateRecognizer
