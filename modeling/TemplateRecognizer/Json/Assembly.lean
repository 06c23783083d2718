import TemplateRecognizer.Json.Basic

/-!
# Assembling JSON values

Pieces are put together one by one.  Arrays and objects that are still open are
kept in a list, so that no depth of nesting is too deep, and what may come next
is said by one of six expectations.  Assembling is strict: the pieces must make
up one value, and nothing may be left over.
-/

set_option autoImplicit false

namespace TemplateRecognizer

namespace Json

/-- An array or an object that is still open, with what it holds so far, last
first. -/
inductive Frame where
  | array (items : List Json)
  | member (members : List (Option String × Json)) (name : Option String)

inductive Expected where
  | value
  | itemOrClose
  /-- The first member of an object, or its end. -/
  | memberOrClose
  | member (members : List (Option String × Json))
  | colon (members : List (Option String × Json)) (name : Option String)
  | separator (value : Json)

def begins (frames : List Frame) : Piece → Option (Expected × List Frame)
  | .null => some (.separator .null, frames)
  | .bool value => some (.separator (.bool value), frames)
  | .number numeral => some (.separator (.number numeral), frames)
  | .string text => some (.separator (.string text), frames)
  | .openArray => some (.itemOrClose, frames)
  | .openObject => some (.memberOrClose, frames)
  | _ => none

def continues (value : Json) : List Frame → Piece → Option (Expected × List Frame)
  | .array items :: frames, .comma => some (.value, .array (value :: items) :: frames)
  | .array items :: frames, .closeArray =>
    some (.separator (.array (value :: items).reverse), frames)
  | .member members name :: frames, .comma => some (.member ((name, value) :: members), frames)
  | .member members name :: frames, .closeObject =>
    some (.separator (.object ((name, value) :: members).reverse), frames)
  | _, _ => none

/-- What a piece leads to, if it may come next. -/
def accept (piece : Piece) (expected : Expected) (frames : List Frame) :
    Option (Expected × List Frame) :=
  match expected with
  | .value => begins frames piece
  | .itemOrClose =>
    if piece = .closeArray then some (.separator (.array []), frames)
    else begins (.array [] :: frames) piece
  | .memberOrClose => match piece with
    | .closeObject => some (.separator (.object []), frames)
    | .string name => some (.colon [] name, frames)
    | _ => none
  | .member members => match piece with
    | .string name => some (.colon members name, frames)
    | _ => none
  | .colon members name =>
    if piece = .colon then some (.value, .member members name :: frames) else none
  | .separator value => continues value frames piece

/-- The value that is complete when `pieces` have been put behind what was read. -/
def assemble : List Piece → Expected → List Frame → Option Json
  | [], .separator value, [] => some value
  | [], _, _ => none
  | piece :: rest, expected, frames =>
    match accept piece expected frames with
    | some (next, inside) => assemble rest next inside
    | none => none

def read? (text : String) : Option Json :=
  match pieces? text.toList with
  | some pieces => assemble pieces .value []
  | none => none

end Json

end TemplateRecognizer
