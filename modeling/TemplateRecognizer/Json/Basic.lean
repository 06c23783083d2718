import TemplateRecognizer.Json.Piece

/-!
# JSON values

A value keeps what a text says, and judges nothing: members stay in order, also
where a name is repeated, and a number stays the numeral it was written as.
This module holds the values and the pieces they are written by.
-/

set_option autoImplicit false

namespace TemplateRecognizer

inductive Json where
  | null
  | bool (value : Bool)
  | number (numeral : String)
  /-- A string, without a text when half of a surrogate pair is missing. -/
  | string (text : Option String)
  | array (items : List Json)
  | object (members : List (Option String × Json))
deriving Inhabited

namespace Json

mutual

def pieces : Json → List Piece
  | null => [.null]
  | bool value => [.bool value]
  | number numeral => [.number numeral]
  | string text => [.string text]
  | array [] => [.openArray, .closeArray]
  | array (item :: items) => .openArray :: pieces item ++ furtherItems items
  | object [] => [.openObject, .closeObject]
  | object ((name, value) :: members) =>
    .openObject :: .string name :: .colon :: pieces value ++ furtherMembers members

/-- The pieces of the items behind the first one, up to the end of their array. -/
def furtherItems : List Json → List Piece
  | [] => [.closeArray]
  | item :: items => .comma :: pieces item ++ furtherItems items

def furtherMembers : List (Option String × Json) → List Piece
  | [] => [.closeObject]
  | (name, value) :: members =>
    .comma :: .string name :: .colon :: pieces value ++ furtherMembers members

end

def write (value : Json) : String :=
  String.ofList (value.pieces.flatMap Piece.spelling)

def ofString (text : String) : Json := string (some text)

/-- The number, written without sign, fraction or exponent. -/
def ofNat (value : Nat) : Json := number (toString value)

def record (members : List (String × Json)) : Json :=
  object (members.map fun (name, value) => (some name, value))

end Json

end TemplateRecognizer
