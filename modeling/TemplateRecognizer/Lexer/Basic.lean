import TemplateRecognizer.Lexer.Lexeme
import TemplateRecognizer.Token.Source

/-!
# The lexer

A lexer is a token source over a text.  It never fails: it passes over blanks,
reads the lexeme behind them, and at the end of the text answers ends of input
forever, all at the position of that end.
-/

set_option autoImplicit false

namespace TemplateRecognizer

/-- The characters not read yet, and the position of the first of them. -/
structure Lexer where
  rest : List Char
  position : Position
deriving DecidableEq, Repr

namespace Lexer

def ofString (text : String) : Lexer := ⟨text.toList, .start⟩

def skip (lexer : Lexer) (count : Nat) : Lexer :=
  ⟨lexer.rest.drop count, lexer.position.after (lexer.rest.take count)⟩

def skipBlanks (lexer : Lexer) : Lexer :=
  lexer.skip (lexer.rest.takeWhile Lexeme.isBlank).length

def next (lexer : Lexer) : Token × Lexer :=
  let ready := lexer.skipBlanks
  match ready.rest with
  | [] => (.endOfInput ready.position, ready)
  | head :: tail =>
    let lexeme := Lexeme.first head tail
    (⟨lexeme.kind, lexeme.text, ready.position⟩, ready.skip lexeme.spelling.length)

theorem length_skip_le (lexer : Lexer) (count : Nat) :
    (lexer.skip count).rest.length ≤ lexer.rest.length := by
  simp [skip]

theorem length_next_lt (lexer : Lexer) (visible : (next lexer).1.kind ≠ .eof) :
    (next lexer).2.rest.length < lexer.rest.length := by
  have shorter := length_skip_le lexer (lexer.rest.takeWhile Lexeme.isBlank).length
  unfold next at visible ⊢
  dsimp only at visible ⊢
  split at visible
  · exact absurd rfl visible
  · rename_i head tail found
    have covered := List.length_pos_iff.mpr (Lexeme.first_spelling_ne_nil head tail)
    have present : lexer.skipBlanks.rest.length = tail.length + 1 := by simp [found]
    have bounded : lexer.skipBlanks.rest.length ≤ lexer.rest.length := shorter
    simp only [skip, List.length_drop, found]
    simp only [List.length_cons]
    omega

theorem length_next_le (lexer : Lexer) : (next lexer).2.rest.length ≤ lexer.rest.length := by
  by_cases visible : (next lexer).1.kind = .eof
  · unfold next at visible ⊢
    dsimp only at visible ⊢
    split at visible
    · rename_i found
      simp [found]
    · exact absurd visible (Lexeme.first_kind_ne_eof _ _)
  · exact Nat.le_of_lt (length_next_lt lexer visible)

instance : FiniteSource Lexer where
  next := next
  left lexer := lexer.rest.length
  left_next_le := length_next_le
  left_next_lt := length_next_lt

end Lexer

/-- The tokens of `text`, closed by one end of input. -/
def tokenize (text : String) : List Token :=
  (FiniteSource.drain (Lexer.ofString text)).1

end TemplateRecognizer
