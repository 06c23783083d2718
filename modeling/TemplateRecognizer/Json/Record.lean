import TemplateRecognizer.Json.Assembly

/-!
# Records, names and words in JSON

A record of known fields is an object, whose members may come in any order and
among members of other names, or an array of the values in the order of the
fields.  A field that is given twice is an error, and a member of another name
is passed over, whatever its value.

One of a closed set of names is a string, or an object whose only member has
that name and the value null.
-/

set_option autoImplicit false

namespace TemplateRecognizer

namespace Json

/-- The value of the field `name`, if it is given, and nothing at all if it is
given more than once. -/
def field? (members : List (Option String × Json)) (name : String) : Option (Option Json) :=
  match members.filter fun member => member.1 == some name with
  | [] => some none
  | [member] => some (some member.2)
  | _ => none

def fieldsOf? (members : List (Option String × Json)) : List String → Option (List (Option Json))
  | [] => some []
  | name :: names => do
    let value ← field? members name
    let values ← fieldsOf? members names
    some (value :: values)

/-- The values of the fields `names`, in that order, where a field that is not
given has none.  Every member name of a record must have a text. -/
def fields? (names : List String) : Json → Option (List (Option Json))
  | object members =>
    if members.all fun member => member.1.isSome then fieldsOf? members names else none
  | array items =>
    if items.length ≤ names.length then
      some (items.map some ++ List.replicate (names.length - items.length) none)
    else none
  | _ => none

/-- The name that a value gives, in either form. -/
def name? : Json → Option String
  | string text => text
  | object [(name, null)] => name
  | _ => none

def bool? : Json → Option Bool
  | bool value => some value
  | _ => none

def optionalText? : Json → Option (Option String)
  | null => some none
  | string (some text) => some (some text)
  | _ => none

def digitsValue (digits : List Char) : Nat :=
  digits.foldl (fun value digit => value * 10 + (digit.toNat - 48)) 0

/-- The number that a value is, if it is written by digits alone and fits into
64 bits. -/
def word? : Json → Option Nat
  | number numeral =>
    let digits := numeral.toList
    if digits.all Char.isDigit ∧ digitsValue digits < UInt64.size then some (digitsValue digits)
    else none
  | _ => none

def load? {α : Type} (decode : Json → Option α) (text : String) : Option α :=
  (read? text).bind decode

end Json

end TemplateRecognizer
