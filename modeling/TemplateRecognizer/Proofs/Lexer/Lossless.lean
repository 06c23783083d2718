import TemplateRecognizer.Proofs.Lexer.Classes
import Mathlib.Data.List.Induction

/-!
# Lexing loses nothing

A text is the blanks and the lexemes of its tokens, in order and with nothing between them,
and each token alone tells how its lexeme is spelled.  The position of a token is counted
from the characters in front of its lexeme, whatever tokens these belong to.
-/

set_option autoImplicit false

namespace TemplateRecognizer

namespace Position

/-- The position behind all of `before`: its line feeds are counted, and the characters
behind the last of them. -/
def behind (before : List Char) : Position :=
  ⟨1 + before.count '\n', 1 + (before.reverse.takeWhile (· != '\n')).length⟩

theorem after_start (before : List Char) : start.after before = behind before := by
  induction before using List.reverseRecOn with
  | nil => rfl
  | append_singleton before character inductionHypothesis =>
    rw [after_append, inductionHypothesis, after_cons, after_nil]
    by_cases lineFeed : character = '\n'
    · simp [advance, behind, lineFeed]
      omega
    · simp [advance, behind, lineFeed]
      omega

theorem after_behind (before passed : List Char) :
    (behind before).after passed = behind (before ++ passed) := by
  rw [← after_start, ← after_append, after_start]

end Position

/-- `token.SpelledBy lexeme` says that `lexeme` is how `token` is written, which its kind and
its text tell. -/
inductive Token.SpelledBy : Token → List Char → Prop where
  | symbol {kind : Kind} {symbol : String} {position : Position} :
      kind.symbol? = some symbol → SpelledBy ⟨kind, none, position⟩ symbol.toList
  | verbatim {kind : Kind} {text : String} {position : Position} :
      kind = .identifier ∨ kind = .intConstant ∨ kind = .floatConstant ∨ kind = .unknown →
        SpelledBy ⟨kind, some text, position⟩ text.toList
  | quoted {quote : Char} {text : String} {position : Position} :
      Lexeme.isQuote quote = true → quote ∉ text.toList →
        SpelledBy ⟨.stringConstant, some text, position⟩ (quote :: text.toList ++ [quote])

/-! ## Lexemes are spelled by their tokens -/

namespace Lexeme

theorem verbatim_spelled {kind : Kind} (spelling : List Char) (position : Position)
    (kept : kind = .identifier ∨ kind = .intConstant ∨ kind = .floatConstant ∨
      kind = .unknown) :
    ((verbatim kind spelling).tokenAt position).SpelledBy spelling := by
  have spelled : Token.SpelledBy ⟨kind, some (String.ofList spelling), position⟩
      (String.ofList spelling).toList := .verbatim kept
  rwa [String.toList_ofList] at spelled

theorem Candidate.spelled {text : List Char} {lexeme : Lexeme} (candidate : Candidate text lexeme)
    (position : Position) : (lexeme.tokenAt position).SpelledBy lexeme.spelling := by
  cases candidate with
  | unclosed _ _ _ => exact verbatim_spelled _ position (by simp)
  | classified classified _ =>
    cases classified with
    | symbol fixed => exact .symbol fixed
    | name _ _ => exact verbatim_spelled _ position (by simp)
    | integer _ => exact verbatim_spelled _ position (by simp)
    | decimal _ _ => exact verbatim_spelled _ position (by simp)
    | other _ _ _ _ => exact verbatim_spelled _ position (by simp)
    | @string quote body quotes free =>
      have spelled : Token.SpelledBy ⟨.stringConstant, some (String.ofList body), position⟩
          (quote :: (String.ofList body).toList ++ [quote]) :=
        .quoted quotes (by rwa [String.toList_ofList])
      rwa [String.toList_ofList] at spelled

theorem first_spelled {head : Char} (nonblank : isBlank head = false) (tail : List Char)
    (position : Position) :
    ((first head tail).tokenAt position).SpelledBy (first head tail).spelling :=
  (first_candidate nonblank tail).spelled position

end Lexeme

/-! ## The text is what was scanned -/

structure Scanned where
  blanks : List Char
  lexeme : List Char
  token : Token

namespace Scanned

def source (scanned : Scanned) : List Char := scanned.blanks ++ scanned.lexeme

/-- Holds of what was scanned behind the text `before`, if its token tells what was read and
where. -/
structure Faithful (before : List Char) (scanned : Scanned) : Prop where
  blank : Blank scanned.blanks
  present : scanned.lexeme ≠ []
  visible : scanned.token.kind ≠ .eof
  spelled : scanned.token.SpelledBy scanned.lexeme
  placed : scanned.token.position = .behind (before ++ scanned.blanks)

end Scanned

/-- What a lexer scans from behind `before` on. -/
theorem Lexer.tokens_scanned (text : List Char) :
    ∀ before : List Char, ∃ (scanned : List Scanned) (trailing : List Char),
      text = scanned.flatMap Scanned.source ++ trailing ∧
      Lexer.tokens ⟨text, .behind before⟩ =
        scanned.map Scanned.token ++ [.endOfInput (.behind (before ++ text))] ∧
      Blank trailing ∧
      ∀ front piece back, scanned = front ++ piece :: back →
        piece.Faithful (before ++ front.flatMap Scanned.source) := by
  induction text using lexeme_induction with
  | blank text blank =>
    intro before
    refine ⟨[], text, rfl, ?_, blank, ?_⟩
    · rw [tokens_of_blank blank, Position.after_behind]
      rfl
    · intro front piece back split
      simp at split
  | lexeme blanks head tail behind foremost inductionHypothesis =>
    intro before
    let lexeme := Lexeme.first head tail
    let piece : Scanned :=
      ⟨blanks, lexeme.spelling, lexeme.tokenAt (.behind (before ++ blanks))⟩
    have faithful : piece.Faithful before :=
      ⟨foremost.blank, Lexeme.first_spelling_ne_nil head tail, Lexeme.first_kind_ne_eof head tail,
        Lexeme.first_spelled foremost.visible tail _, rfl⟩
    -- What follows is scanned from behind all that was read up to the end of this lexeme.
    obtain ⟨scanned, trailing, split, read, blank, all⟩ :=
      inductionHypothesis (before ++ piece.source)
    refine ⟨piece :: scanned, trailing, ?_, ?_, blank, ?_⟩
    · rw [foremost.covers, List.flatMap_cons, split]
      simp [piece, Scanned.source, lexeme]
    · have covered : before ++ (blanks ++ head :: tail) = before ++ piece.source ++ behind := by
        rw [foremost.covers]
        simp [piece, Scanned.source, lexeme]
      rw [tokens_of_foremost foremost, Position.after_behind, Position.after_behind,
        List.map_cons, List.cons_append, covered]
      exact congrArg _ read
    · intro front other back divided
      cases front with
      | nil =>
        cases divided
        simpa using faithful
      | cons first front =>
        obtain ⟨rfl, rfl⟩ : piece = first ∧ scanned = front ++ other :: back := by
          simpa using divided
        have rest := all front other back rfl
        rwa [List.append_assoc] at rest

/-- A text is the blanks and lexemes of its tokens, which are faithful to it, and its end is
where all of it has been read. -/
theorem tokenize_lossless (text : String) :
    ∃ (scanned : List Scanned) (trailing : List Char),
      text.toList = scanned.flatMap Scanned.source ++ trailing ∧
      tokenize text = scanned.map Scanned.token ++ [.endOfInput (.behind text.toList)] ∧
      Blank trailing ∧
      ∀ front piece back, scanned = front ++ piece :: back →
        piece.Faithful (front.flatMap Scanned.source) := by
  have opening : Lexer.ofString text = ⟨text.toList, .behind []⟩ := rfl
  obtain ⟨scanned, trailing, split, read, blank, faithful⟩ :=
    Lexer.tokens_scanned text.toList []
  refine ⟨scanned, trailing, split, ?_, blank, ?_⟩
  · rw [List.nil_append] at read
    rw [← read, ← opening]
    rfl
  · intro front piece back divided
    have rightly := faithful front piece back divided
    rwa [List.nil_append] at rightly

end TemplateRecognizer
