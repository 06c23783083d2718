import TemplateRecognizer.Proofs.Lexer.Positions
import TemplateRecognizer.Proofs.Recognizer.Evidence
import TemplateRecognizer.Proofs.Snippet.Rendering

/-!
# The caret under a token

An error of a text is shown with the line of one of its tokens, and with a caret under the first
character of that token.  No line that is shown breaks into two, since an error quotes no text
that could hold a line feed.
-/

set_option autoImplicit false

namespace TemplateRecognizer

theorem Lexeme.ne_lineFeed_of_isWordPart {character : Char} (part : isWordPart character = true) :
    character ≠ '\n' := by
  rintro rfl
  revert part
  decide

theorem namesOneLine_of_failed {text : String} {options : Options} {validator : Validator}
    {error : ParseError} (failed : recognizeWith text options validator = .error error) :
    error.NamesOneLine := by
  have words {name : String}
      (among : NameAmong (TokenSource.token (Lexer.ofString text)) name) : OneLine name := by
    obtain ⟨index, identifier, rfl⟩ := among
    intro member
    have part := Lexer.isWordPart_of_identifier text index identifier '\n' member
    exact Lexeme.ne_lineFeed_of_isWordPart part rfl
  rintro opening closing position rfl
  obtain ⟨first, second⟩ := names_among failed
  exact ⟨words first, words second⟩

/-! ## Under the first character of a token -/

/-- Holds of a token that stands `lead` characters behind the start of a line shown as `shown`:
its first character is there, or the line ends there. -/
structure Token.ShownAt (text : String) (token : Token) (shown : List Char) (lead : Nat) :
    Prop where
  within : lead ≤ shown.length
  ended : token.kind = .eof → shown.length = lead
  visible : token.kind ≠ .eof → ∃ before head lexeme after,
    text.toList = before ++ head :: lexeme ++ after ∧ token.position = .behind before ∧
      token.SpelledBy (head :: lexeme) ∧ shown[lead]? = some head

theorem shownAt_of_lexeme {text : String} {front tail : List Char} {head : Char}
    (split : text.toList = front ++ head :: tail) (nonblank : Lexeme.isBlank head = false) :
    ∃ line behind lead,
      Snippet.IsLine text.toList (Position.behind front).line line behind ∧
      (Position.behind front).column = lead + 1 ∧
      ∀ shown, Snippet.Shows line behind shown →
        ((Lexeme.first head tail).tokenAt (.behind front)).ShownAt text shown lead := by
  obtain ⟨lead, rest, behind, continues, column, isLine⟩ :=
    Position.exists_isLine front (head :: tail)
  rw [← split] at isLine
  -- A character that is not blank ends no line, and is not left out of one.
  have here : (lead ++ rest)[lead.length]? = some head := by
    cases rest with
    | nil =>
      obtain ⟨_, _, _, _, _, boundary⟩ := isLine
      rw [List.nil_append] at continues
      rw [← continues] at boundary
      obtain rfl : head = '\n' := by simpa using boundary
      cases nonblank
    | cons character rest =>
      obtain ⟨rfl, _⟩ := List.cons.inj continues
      simp
  have kept : head ≠ '\r' := by
    rintro rfl
    cases nonblank
  refine ⟨_, behind, lead.length, isLine, column, ?_⟩
  intro shown displayed
  have present := displayed.getElem? here kept
  obtain ⟨more, after, spelled, rfl⟩ := Lexeme.exists_spelling head tail
  refine ⟨?_, ?_, ?_⟩
  · exact Nat.le_of_lt (List.getElem?_eq_some_iff.mp present).1
  · intro ended
    exact absurd ended (Lexeme.first_kind_ne_eof head _)
  · intro _
    refine ⟨front, head, more, after, ?_, rfl, ?_, present⟩
    · rw [split, List.append_assoc, List.cons_append]
    · rw [← spelled]
      exact Lexeme.first_spelled nonblank _ _

/-- A token of a text stands in its line where its column tells. -/
theorem exists_shownAt {text : String} {token : Token} (member : token ∈ tokenize text) :
    ∃ line behind lead, Snippet.IsLine text.toList token.position.line line behind ∧
      token.position.column = lead + 1 ∧
      ∀ shown, Snippet.Shows line behind shown → token.ShownAt text shown lead := by
  obtain ⟨index, inside, rfl⟩ := List.mem_iff_getElem.mp member
  rw [← Lexer.token_eq_getElem text inside]
  rcases Lexer.token_placed_ofString text index with
    ⟨front, head, tail, split, nonblank, answered⟩ | ended
  · rw [answered]
    exact shownAt_of_lexeme split nonblank
  · rw [ended]
    obtain ⟨lead, rest, behind, continues, column, isLine⟩ :=
      Position.exists_isLine text.toList []
    obtain ⟨rfl, rfl⟩ := List.append_eq_nil_iff.mp continues.symm
    rw [List.append_nil, List.append_nil] at isLine
    refine ⟨lead, [], lead.length, isLine, column, ?_⟩
    intro shown displayed
    cases displayed
    exact ⟨Nat.le_refl _, fun _ => rfl, fun visible => absurd rfl visible⟩

/-- An error of a text that has a position is rendered with the line of one token, the only one
at this position, and with a caret under the first character of this token, or behind the line
if the token is the end of input. -/
theorem snippet_points_at_token {text file : String} {options : Options} {validator : Validator}
    {error : ParseError} {position : Position} (plain : '\n' ∉ file.toList)
    (failed : recognizeWith text options validator = .error error)
    (placed : error.position? = some position) :
    ∃ (lead : Nat) (line behind shown : List Char),
      position.column = lead + 1 ∧
      Snippet.IsLine text.toList position.line line behind ∧
      Snippet.Shows line behind shown ∧
      (∃ lines : List (List Char),
        lines =
          [("error[" ++ error.code ++ "]: " ++ error.message).toList,
            ("  --> " ++ file ++ ":" ++ toString position.line ++ ":" ++
              toString position.column).toList,
            "   |".toList,
            List.replicate (3 - (toString position.line).length) ' ' ++
              (toString position.line).toList ++ " | ".toList ++ shown,
            "   | ".toList ++ List.replicate lead ' ' ++ ['^']] ++
          (error.help?.map fun help => ("help: " ++ help).toList).toList ∧
        (error.render file text).toList = lines.flatMap (fun line => line ++ ['\n']) ∧
        ∀ line ∈ lines, '\n' ∉ line) ∧
      ∃ front token back, tokenize text = front ++ token :: back ∧ token.position = position ∧
        (∀ other ∈ front ++ back, other.position ≠ position) ∧
        token.ShownAt text shown lead := by
  obtain ⟨index, rfl⟩ := exists_position failed placed
  have member := Lexer.token_mem_tokenize text index
  obtain ⟨line, behind, lead, isLine, column, points⟩ := exists_shownAt member
  obtain ⟨front, back, split, unique⟩ := tokenize_splits_at_position member
  have lines := ParseError.lines_of_position file text placed
  rw [column, Nat.add_sub_cancel] at lines
  rw [← column] at lines
  refine ⟨lead, line, behind, _, column, isLine, isLine.shows,
    ⟨error.lines file text, lines, ?_, ?_⟩, front, _, back, split, rfl, unique,
    points _ isLine.shows⟩
  · exact String.toList_ofList
  · exact ParseError.lineFeed_notMem_lines plain (namesOneLine_of_failed failed)

/-- A string that runs over the end of its line is pointed at where it begins. -/
theorem snippet_points_at_token_string_over_two_lines :
    ∃ error : ParseError,
      recognizeWith "<p>\r\n\t'a\nb'" {} .acceptAll = .error error ∧
      error.position? = some ⟨2, 2⟩ ∧
      ∃ line behind shown token, Snippet.IsLine "<p>\r\n\t'a\nb'".toList 2 line behind ∧
        Snippet.Shows line behind shown ∧ token ∈ tokenize "<p>\r\n\t'a\nb'" ∧
        token.position = ⟨2, 2⟩ ∧ token.ShownAt "<p>\r\n\t'a\nb'" shown 1 := by
  have course : Course {} (TokenSource.token (Lexer.ofString "<p>\r\n\t'a\nb'"))
      ⟨0, [.phrase .tags], 0⟩ (.error (.unexpectedToken .lessThan .stringConstant ⟨2, 2⟩))
      ⟨3, [], 0⟩ :=
    .advances (.phrase rfl) (.advances (.phrase rfl) (.advances (.token rfl)
      (.advances (.openingName rfl) (.advances (.token rfl) (.advances (.phrase rfl)
        (.halts (.unexpected rfl (by decide))))))))
  have failed : recognizeWith "<p>\r\n\t'a\nb'" {} .acceptAll = _ :=
    congrArg (fun recognition => recognition.verdict)
      (recognizeFrom_of_course rfl course .acceptAll)
  have plain : '\n' ∉ "page.html".toList := by decide
  obtain ⟨lead, line, behind, shown, column, isLine, displayed, _, front, token, back, split,
    placed, _, shownAt⟩ := snippet_points_at_token plain failed rfl
  obtain rfl : lead = 1 := (Nat.succ.inj column).symm
  refine ⟨_, failed, rfl, line, behind, shown, token, isLine, displayed, ?_, placed, shownAt⟩
  rw [split]
  exact List.mem_append_right _ List.mem_cons_self

end TemplateRecognizer
