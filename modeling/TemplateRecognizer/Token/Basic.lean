import TemplateRecognizer.Position
import TemplateRecognizer.Token.Kind

/-!
# Tokens

A token is a kind, the text it was read from where its kind alone does not tell
it, and the position of its first character.
-/

set_option autoImplicit false

namespace TemplateRecognizer

/-- One classified piece of a template. -/
structure Token where
  kind : Kind
  text : Option String
  position : Position
deriving DecidableEq, Repr

namespace Token

def endOfInput (position : Position) : Token := ⟨.eof, none, position⟩

instance : Inhabited Token := ⟨endOfInput .start⟩

def isEof (token : Token) : Bool := token.kind == .eof

/-- The text of a token, where an absent text counts as empty. -/
def textOrEmpty (token : Token) : String := token.text.getD ""

/-- How a token is shown to an author: as written if that is known, else by its
fixed spelling, else by what it is. -/
def display (token : Token) : String :=
  match token.text, token.kind.symbol? with
  | some text, _ => text
  | none, some symbol => symbol
  | none, none => if token.isEof then "end of input" else token.kind.name

end Token

end TemplateRecognizer
