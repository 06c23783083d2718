import TemplateRecognizer.Json.Numeral
import TemplateRecognizer.Json.Quoted

/-!
# The pieces of a JSON text

A JSON text is a sequence of brackets, separators, names and scalars, with any
blanks between them.  This module cuts a text into its pieces and spells pieces
out, and knows nothing of how they fit together.
-/

set_option autoImplicit false

namespace TemplateRecognizer

namespace Json

inductive Piece where
  | openArray
  | closeArray
  | openObject
  | closeObject
  | comma
  | colon
  | null
  | bool (value : Bool)
  | number (numeral : String)
  /-- A string, without a text when one of its escapes names half of a surrogate
  pair and the other half is not there. -/
  | string (text : Option String)
deriving DecidableEq, Repr

/-- How a piece is written.  A string without a text is written as an escape for
which there is none. -/
def Piece.spelling : Piece → List Char
  | openArray => ['[']
  | closeArray => [']']
  | openObject => ['\x7b']
  | closeObject => ['\x7d']
  | comma => [',']
  | colon => [':']
  | null => ['n', 'u', 'l', 'l']
  | bool true => ['t', 'r', 'u', 'e']
  | bool false => ['f', 'a', 'l', 's', 'e']
  | number numeral => numeral.toList
  | string (some text) => quote text
  | string none => ['\x22', '\\', 'u', 'd', '8', '0', '0', '\x22']

def isBlank (character : Char) : Bool :=
  character == ' ' || character == '\t' || character == '\r' || character == '\n'

def piece? : List Char → Option (Piece × List Char)
  | '[' :: rest => some (.openArray, rest)
  | ']' :: rest => some (.closeArray, rest)
  | '\x7b' :: rest => some (.openObject, rest)
  | '\x7d' :: rest => some (.closeObject, rest)
  | ',' :: rest => some (.comma, rest)
  | ':' :: rest => some (.colon, rest)
  | 'n' :: 'u' :: 'l' :: 'l' :: rest => some (.null, rest)
  | 't' :: 'r' :: 'u' :: 'e' :: rest => some (.bool true, rest)
  | 'f' :: 'a' :: 'l' :: 's' :: 'e' :: rest => some (.bool false, rest)
  | '\x22' :: rest =>
    (codes? rest).map fun (codes, behind) => (.string ((decode? codes).map String.ofList), behind)
  | text => (numeral? text).map fun (numeral, behind) => (.number (String.ofList numeral), behind)

/-! ## A piece covers at least one character -/

theorem length_piece?_lt {text : List Char} {piece : Piece} {behind : List Char}
    (read : piece? text = some (piece, behind)) : behind.length < text.length := by
  unfold piece? at read
  split at read
  case h_10 rest =>
    obtain ⟨⟨codes, rest'⟩, readCodes, same⟩ := Option.map_eq_some_iff.mp read
    cases same
    have shorter := length_codes?_lt readCodes
    simp only [List.length_cons]
    omega
  case h_11 =>
    obtain ⟨⟨numeral, rest'⟩, readNumeral, same⟩ := Option.map_eq_some_iff.mp read
    cases same
    exact length_numeral?_lt readNumeral
  all_goals
    cases read
    simp only [List.length_cons]
    omega

def pieces? (text : List Char) : Option (List Piece) :=
  match _trimmed : text.dropWhile isBlank with
  | [] => some []
  | head :: tail =>
    match _read : piece? (head :: tail) with
    | none => none
    | some (piece, behind) => (pieces? behind).map (piece :: ·)
termination_by text.length
decreasing_by
  have covered := length_piece?_lt _read
  have trimmed := (List.dropWhile_sublist (l := text) isBlank).length_le
  rw [_trimmed] at trimmed
  omega

end Json

end TemplateRecognizer
