import Mathlib.Data.List.Forall2
import TemplateRecognizer.Json.Basic

/-!
# JSON texts

What texts write a value is said here apart from how they are read.  The pieces of the value come
in their order, blanks stand between them as one likes, and a piece may have more spellings than
the one that a writer chooses: every character of a string can be given by an escape as well.
-/

set_option autoImplicit false

namespace TemplateRecognizer

namespace Json

/-! ## Numerals -/

/-- Holds of the decimal digits of a number, which has no superfluous zero in front. -/
structure Decimal (digits : List Char) : Prop where
  nonempty : digits ≠ []
  digit : ∀ character ∈ digits, character.isDigit = true
  leading : ∀ tail, digits = '0' :: tail → tail = []

inductive Fraction : List Char → Prop where
  | absent : Fraction []
  | point {digits : List Char} :
      digits ≠ [] → (∀ character ∈ digits, character.isDigit = true) → Fraction ('.' :: digits)

inductive Exponent : List Char → Prop where
  | absent : Exponent []
  | power {letter : Char} {sign digits : List Char} :
      letter ∈ ['e', 'E'] → sign ∈ [[], ['+'], ['-']] →
        digits ≠ [] → (∀ character ∈ digits, character.isDigit = true) →
          Exponent (letter :: (sign ++ digits))

inductive Numeral : List Char → Prop where
  | parts {sign whole fraction exponent : List Char} :
      sign ∈ [[], ['-']] → Decimal whole → Fraction fraction → Exponent exponent →
        Numeral (sign ++ (whole ++ (fraction ++ exponent)))

/-! ## Strings -/

inductive CodeSpelled : Nat → List Char → Prop where
  | plain {character : Char} :
      character ≠ '\x22' → character ≠ '\\' → 32 ≤ character.toNat →
        CodeSpelled character.toNat [character]
  | letter {letter character : Char} :
      escaped? letter = some character → CodeSpelled character.toNat ['\\', letter]
  | numbered {first second third fourth : Char} {code : Nat} :
      hexCode? first second third fourth = some code →
        CodeSpelled code ['\\', 'u', first, second, third, fourth]

/-- `Encodes characters codes` says that codes stand for characters: each for the character of
this number, and two that make a surrogate pair for one character together. -/
inductive Encodes : List Char → List Nat → Prop where
  | nil : Encodes [] []
  | single {character : Char} {characters : List Char} {codes : List Nat} :
      Encodes characters codes → Encodes (character :: characters) (character.toNat :: codes)
  | pair {character : Char} {characters : List Char} {high low : Nat} {codes : List Nat} :
      isHighSurrogate high = true → isLowSurrogate low = true →
        character.toNat = 0x10000 + (high - 0xD800) * 1024 + (low - 0xDC00) →
          Encodes characters codes → Encodes (character :: characters) (high :: low :: codes)

/-- `Quoted text spelling` says that a string may be written as `spelling`.  It has no text if its
codes stand for no characters, which is so where half of a surrogate pair is missing. -/
inductive Quoted : Option String → List Char → Prop where
  | text {characters : List Char} {codes : List Nat} {spellings : List (List Char)} :
      Encodes characters codes → List.Forall₂ CodeSpelled codes spellings →
        Quoted (some (String.ofList characters)) ('\x22' :: spellings.flatten ++ ['\x22'])
  | unpaired {codes : List Nat} {spellings : List (List Char)} :
      (∀ characters, ¬Encodes characters codes) → List.Forall₂ CodeSpelled codes spellings →
        Quoted none ('\x22' :: spellings.flatten ++ ['\x22'])

/-! ## Texts -/

inductive Piece.SpelledBy : Piece → List Char → Prop where
  | mark {piece : Piece} :
      (∀ numeral, piece ≠ .number numeral) → (∀ text, piece ≠ .string text) →
        SpelledBy piece piece.spelling
  | number {numeral : String} :
      Numeral numeral.toList → SpelledBy (.number numeral) numeral.toList
  | string {text : Option String} {spelling : List Char} :
      Quoted text spelling → SpelledBy (.string text) spelling

/-- `Spaced pieces text` says that `text` writes the pieces one behind another, with any blanks
before, between and behind them. -/
inductive Spaced : List Piece → List Char → Prop where
  | done : Spaced [] []
  | blank {character : Char} {pieces : List Piece} {text : List Char} :
      isBlank character = true → Spaced pieces text → Spaced pieces (character :: text)
  | piece {piece : Piece} {pieces : List Piece} {spelling text : List Char} :
      piece.SpelledBy spelling → Spaced pieces text → Spaced (piece :: pieces) (spelling ++ text)

def Written (value : Json) (text : String) : Prop := Spaced value.pieces text.toList

end Json

end TemplateRecognizer
