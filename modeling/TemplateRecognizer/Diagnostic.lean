import TemplateRecognizer.Json.Basic
import TemplateRecognizer.ParseError

/-!
# Diagnostics

An error as tools take it: a record of what it says, with the name of the file
it was met in.  What an error does not say is left out of the stored form.
-/

set_option autoImplicit false

namespace TemplateRecognizer

structure Diagnostic where
  code : String
  message : String
  file : String
  line : Option Nat
  column : Option Nat
  help : Option String
deriving DecidableEq, Repr

namespace Diagnostic

def ofError (error : ParseError) (file : String) : Diagnostic where
  code := error.code
  message := error.message
  file := file
  line := error.position?.map Position.line
  column := error.position?.map Position.column
  help := error.help?

/-- A member, unless it has no value. -/
def member {α : Type} (name : String) (encode : α → Json) : Option α → List (String × Json)
  | some value => [(name, encode value)]
  | none => []

def toJson (diagnostic : Diagnostic) : Json :=
  .record
    ([("code", .ofString diagnostic.code), ("message", .ofString diagnostic.message),
      ("file", .ofString diagnostic.file)]
      ++ member "line" .ofNat diagnostic.line
      ++ member "column" .ofNat diagnostic.column
      ++ member "help" .ofString diagnostic.help)

def store (diagnostic : Diagnostic) : String := diagnostic.toJson.write

end Diagnostic

end TemplateRecognizer
