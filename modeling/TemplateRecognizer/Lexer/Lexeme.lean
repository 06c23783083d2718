import TemplateRecognizer.Token.Kind

/-!
# Lexemes

A lexeme is the run of characters that one token covers.  The lexeme at the
front of a text that does not start with a blank is found by its first
character: a digit starts a number, a letter or an underscore a word, a quote a
string, and any other character stands for itself, alone or as the first half
of `==` or `!=`.  Every text has a lexeme at its front, since what no other
class covers is an unknown lexeme of one character, and a quote that is never
closed makes an unknown lexeme of all that follows.
-/

set_option autoImplicit false

namespace TemplateRecognizer

structure Lexeme where
  kind : Kind
  text : Option String
  spelling : List Char
deriving DecidableEq, Repr

namespace Lexeme

def isBlank (character : Char) : Bool :=
  character == ' ' || character == '\t' || character == '\r' || character == '\n'

/-- Letters are those of the ASCII alphabet. -/
def isWordStart (character : Char) : Bool :=
  character.isAlpha || character == '_'

def isWordPart (character : Char) : Bool :=
  isWordStart character || character.isDigit

def isQuote (character : Char) : Bool :=
  character == '\x22' || character == '\x27'

/-- A lexeme whose token keeps its whole spelling as text. -/
def verbatim (kind : Kind) (spelling : List Char) : Lexeme :=
  ⟨kind, some (String.ofList spelling), spelling⟩

/-- The number at the front of `text`: digits, and a fraction where a point has
a digit behind it.  A point without one is not part of the number. -/
def number (text : List Char) : Lexeme :=
  let whole := text.takeWhile Char.isDigit
  match text.dropWhile Char.isDigit with
  | '.' :: rest =>
    let fraction := rest.takeWhile Char.isDigit
    if fraction.isEmpty then verbatim .intConstant whole
    else verbatim .floatConstant (whole ++ '.' :: fraction)
  | _ => verbatim .intConstant whole

def word (text : List Char) : Lexeme :=
  let spelling := text.takeWhile isWordPart
  match Kind.ofKeyword? (String.ofList spelling) with
  | some kind => ⟨kind, none, spelling⟩
  | none => verbatim .identifier spelling

/-- The string behind the opening `quote`.  It runs to the next such quote, over
line breaks and quotes of the other form. -/
def quoted (quote : Char) (tail : List Char) : Lexeme :=
  let body := tail.takeWhile (· != quote)
  match tail.dropWhile (· != quote) with
  | closing :: _ => ⟨.stringConstant, some (String.ofList body), quote :: body ++ [closing]⟩
  | [] => verbatim .unknown (quote :: tail)

/-- The comparison that `head` begins, or `head` alone as an unknown lexeme. -/
def comparison (kind : Kind) (head : Char) : List Char → Lexeme
  | '=' :: _ => ⟨kind, none, [head, '=']⟩
  | _ => verbatim .unknown [head]

def sign (head : Char) (tail : List Char) : Lexeme :=
  match Kind.ofPunctuation? head with
  | some kind => ⟨kind, none, [head]⟩
  | none =>
    if head = '=' then comparison .equal head tail
    else if head = '!' then comparison .notEqual head tail
    else verbatim .unknown [head]

def first (head : Char) (tail : List Char) : Lexeme :=
  if head.isDigit then number (head :: tail)
  else if isWordStart head then word (head :: tail)
  else if isQuote head then quoted head tail
  else sign head tail

/-! ## A lexeme covers at least the first character -/

theorem verbatim_spelling (kind : Kind) (spelling : List Char) :
    (verbatim kind spelling).spelling = spelling := rfl

theorem number_spelling_ne_nil (head : Char) (tail : List Char) (digit : head.isDigit = true) :
    (number (head :: tail)).spelling ≠ [] := by
  unfold number
  split
  · dsimp only
    split <;> simp [verbatim, digit]
  · simp [verbatim, digit]

theorem word_spelling_ne_nil (head : Char) (tail : List Char)
    (starts : isWordStart head = true) : (word (head :: tail)).spelling ≠ [] := by
  unfold word
  dsimp only
  split <;> simp [verbatim, isWordPart, starts]

theorem quoted_spelling_ne_nil (quote : Char) (tail : List Char) :
    (quoted quote tail).spelling ≠ [] := by
  unfold quoted
  split <;> simp [verbatim]

theorem comparison_spelling_ne_nil (kind : Kind) (head : Char) (tail : List Char) :
    (comparison kind head tail).spelling ≠ [] := by
  unfold comparison
  split <;> simp [verbatim]

theorem sign_spelling_ne_nil (head : Char) (tail : List Char) :
    (sign head tail).spelling ≠ [] := by
  unfold sign
  split
  · simp
  · split
    · exact comparison_spelling_ne_nil _ head tail
    · split
      · exact comparison_spelling_ne_nil _ head tail
      · simp [verbatim]

theorem first_spelling_ne_nil (head : Char) (tail : List Char) :
    (first head tail).spelling ≠ [] := by
  unfold first
  split
  · exact number_spelling_ne_nil head tail ‹_›
  · split
    · exact word_spelling_ne_nil head tail ‹_›
    · split
      · exact quoted_spelling_ne_nil head tail
      · exact sign_spelling_ne_nil head tail

/-! ## A lexeme is spelled by the front of its text -/

theorem number_spelling_front (text : List Char) : (number text).spelling <+: text := by
  have whole : text.takeWhile Char.isDigit <+: text := List.takeWhile_prefix _
  unfold number
  split
  · rename_i rest behind
    dsimp only
    split
    · exact whole
    · refine ⟨rest.dropWhile Char.isDigit, ?_⟩
      rw [verbatim_spelling, List.append_assoc, List.cons_append,
        List.takeWhile_append_dropWhile, ← behind, List.takeWhile_append_dropWhile]
  · exact whole

theorem word_spelling_front (text : List Char) : (word text).spelling <+: text := by
  unfold word
  dsimp only
  split <;> exact List.takeWhile_prefix _

theorem quoted_spelling_front (quote : Char) (tail : List Char) :
    (quoted quote tail).spelling <+: quote :: tail := by
  unfold quoted
  split
  · rename_i closing rest behind
    refine ⟨rest, ?_⟩
    simp only [List.cons_append, List.append_assoc, List.nil_append]
    rw [← behind, List.takeWhile_append_dropWhile]
  · exact List.prefix_rfl

theorem comparison_spelling_front (kind : Kind) (head : Char) (tail : List Char) :
    (comparison kind head tail).spelling <+: head :: tail := by
  unfold comparison
  split <;> simp [verbatim]

theorem sign_spelling_front (head : Char) (tail : List Char) :
    (sign head tail).spelling <+: head :: tail := by
  unfold sign
  split
  · simp
  · split
    · exact comparison_spelling_front _ head tail
    · split
      · exact comparison_spelling_front _ head tail
      · simp [verbatim]

theorem first_spelling_front (head : Char) (tail : List Char) :
    (first head tail).spelling <+: head :: tail := by
  unfold first
  split
  · exact number_spelling_front _
  · split
    · exact word_spelling_front _
    · split
      · exact quoted_spelling_front head tail
      · exact sign_spelling_front head tail

/-! ## No lexeme is read as an end of input -/

theorem ofKeyword?_ne_eof (spelling : String) : Kind.ofKeyword? spelling ≠ some .eof := by
  intro found
  have accepted := List.find?_some found
  simp [Kind.isKeyword, Kind.isTypeKeyword] at accepted

theorem ofPunctuation?_ne_eof (character : Char) : Kind.ofPunctuation? character ≠ some .eof := by
  unfold Kind.ofPunctuation?
  split <;> simp

theorem number_kind_ne_eof (text : List Char) : (number text).kind ≠ .eof := by
  unfold number
  split
  · dsimp only
    split <;> simp [verbatim]
  · simp [verbatim]

theorem word_kind_ne_eof (text : List Char) : (word text).kind ≠ .eof := by
  unfold word
  dsimp only
  split
  · intro same
    rename_i kind reserved
    exact ofKeyword?_ne_eof _ (reserved.trans (congrArg some same))
  · simp [verbatim]

theorem sign_kind_ne_eof (head : Char) (tail : List Char) : (sign head tail).kind ≠ .eof := by
  unfold sign
  split
  · intro same
    rename_i kind found
    exact ofPunctuation?_ne_eof head (found.trans (congrArg some same))
  · unfold comparison
    split
    · split <;> simp [verbatim]
    · split
      · split <;> simp [verbatim]
      · simp [verbatim]

theorem first_kind_ne_eof (head : Char) (tail : List Char) : (first head tail).kind ≠ .eof := by
  unfold first
  split
  · exact number_kind_ne_eof _
  · split
    · exact word_kind_ne_eof _
    · split
      · unfold quoted
        split <;> simp [verbatim]
      · exact sign_kind_ne_eof head tail

end Lexeme

end TemplateRecognizer
