/-!
# Positions in a text

A position names one character of a text by its line and its column.  Both are
counted from one, and a column counts characters, not bytes.  Only a line feed
ends a line: a carriage return is a character like any other.
-/

set_option autoImplicit false

namespace TemplateRecognizer

/-- A line and a column, both counted from one. -/
structure Position where
  line : Nat
  column : Nat
deriving DecidableEq, Repr

namespace Position

def start : Position := ⟨1, 1⟩

instance : Inhabited Position := ⟨start⟩

def advance (position : Position) (character : Char) : Position :=
  if character = '\n' then ⟨position.line + 1, 1⟩
  else ⟨position.line, position.column + 1⟩

def after (position : Position) (text : List Char) : Position :=
  text.foldl advance position

def toText (position : Position) : String :=
  toString position.line ++ ":" ++ toString position.column

@[simp] theorem after_nil (position : Position) : position.after [] = position := rfl

@[simp] theorem after_cons (position : Position) (character : Char) (text : List Char) :
    position.after (character :: text) = (position.advance character).after text := rfl

theorem after_append (position : Position) (front back : List Char) :
    position.after (front ++ back) = (position.after front).after back := by
  simp [after, List.foldl_append]

end Position

end TemplateRecognizer
