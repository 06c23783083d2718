import TemplateRecognizer.Construct
import TemplateRecognizer.Token.Basic

/-!
# Parse errors

A recognition ends at the first defect it meets, so there is at most one error.
This module holds the causes, and what each of them says: its code, its
message, its position where it has one, and a hint to the author.
-/

set_option autoImplicit false

namespace TemplateRecognizer

inductive ParseError where
  | unexpectedToken (expected found : Kind) (position : Position)
  /-- An opening brace was followed by nothing that begins a statement. -/
  | unrecognizedStatement
  /-- The first token begins neither a block nor a template. -/
  | noRootProduction (found : Kind) (position : Position)
  | mismatchedTag (opening closing : String) (position : Position)
  | nestingTooDeep (limit : Nat) (position : Position)
  | rejectedConstruct (construct : Construct)
deriving DecidableEq, Repr

namespace ParseError

def code : ParseError → String
  | unexpectedToken .. => "E_SYNTAX"
  | unrecognizedStatement => "E_STATEMENT"
  | noRootProduction .. => "E_ROOT"
  | mismatchedTag .. => "E_TAG"
  | nestingTooDeep .. => "E_DEPTH"
  | rejectedConstruct _ => "E_SEMANTIC"

def position? : ParseError → Option Position
  | unexpectedToken _ _ position => some position
  | noRootProduction _ position => some position
  | mismatchedTag _ _ position => some position
  | nestingTooDeep _ position => some position
  | unrecognizedStatement | rejectedConstruct _ => none

def whereAt (position : Position) : String :=
  " at line " ++ toString position.line ++ ", column " ++ toString position.column

def message : ParseError → String
  | unexpectedToken expected found position =>
    "syntax error: expected token " ++ expected.name ++ " but found " ++ found.name
      ++ whereAt position
  | unrecognizedStatement => "syntax error: unrecognized statement"
  | noRootProduction found position =>
    "syntax error: no applicable root production for " ++ found.name ++ whereAt position
  | mismatchedTag opening closing position =>
    "syntax error: closing tag `" ++ closing ++ "` does not match `" ++ opening ++ "`"
      ++ whereAt position
  | nestingTooDeep limit position =>
    "syntax error: nesting deeper than " ++ toString limit ++ " levels" ++ whereAt position
  | rejectedConstruct construct =>
    "semantic error: `" ++ construct.tag ++ "` rejected by the validator"

/-- What the author may do about it, where that is known. -/
def help? : ParseError → Option String
  | unexpectedToken expected _ _ =>
    expected.symbol?.map fun symbol => "insert `" ++ symbol ++ "` here"
  | unrecognizedStatement =>
    some "statements start with `\x7b\x7b`, `\x7b%` or `\x7b-%`"
  | noRootProduction .. => some "a template starts with `<` and a block with `[`"
  | mismatchedTag opening _ _ => some ("close the element with `</" ++ opening ++ ">`")
  | nestingTooDeep .. | rejectedConstruct _ => none

/-- Holds of the errors that come from the validator, and not from the grammar. -/
def isSemantic : ParseError → Bool
  | rejectedConstruct _ => true
  | _ => false

def isSyntax (error : ParseError) : Bool := !error.isSemantic

end ParseError

end TemplateRecognizer
