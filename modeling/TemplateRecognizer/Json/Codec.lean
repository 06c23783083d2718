import TemplateRecognizer.Construct
import TemplateRecognizer.Json.Record
import TemplateRecognizer.Options
import TemplateRecognizer.Token.Stream

/-!
# Stored forms

How kinds, constructs, positions, tokens, token streams and options are stored
as JSON, and how they are loaded.  Storing writes fields in a fixed order and
leaves out an absent text.  Loading accepts every form of a record, and takes
the default for each option that is not given.
-/

set_option autoImplicit false

namespace TemplateRecognizer

namespace Kind

def toJson (kind : Kind) : Json := .ofString kind.name

def ofJson? (value : Json) : Option Kind := value.name?.bind ofName?

end Kind

namespace Construct

def toJson (construct : Construct) : Json := .ofString construct.tag

def ofJson? (value : Json) : Option Construct := value.name?.bind ofTag?

end Construct

namespace Position

def toJson (position : Position) : Json :=
  .record [("line", .ofNat position.line), ("column", .ofNat position.column)]

/-- Neither part has a default. -/
def ofJson? (value : Json) : Option Position :=
  match value.fields? ["line", "column"] with
  | some [some line, some column] => do
    let line ← line.word?
    let column ← column.word?
    some ⟨line, column⟩
  | _ => none

end Position

namespace Token

def toJson (token : Token) : Json :=
  let text := match token.text with
    | some text => [("text", .ofString text)]
    | none => []
  .record ([("kind", token.kind.toJson)] ++ text ++ [("span", token.position.toJson)])

/-- Only the text may be left out.  It is kept with any kind. -/
def ofJson? (value : Json) : Option Token :=
  match value.fields? ["kind", "text", "span"] with
  | some [some kind, text, some position] => do
    let kind ← Kind.ofJson? kind
    let text ← match text with
      | some text => text.optionalText?
      | none => some none
    let position ← Position.ofJson? position
    some ⟨kind, text, position⟩
  | _ => none

def listOfJson? : List Json → Option (List Token)
  | [] => some []
  | value :: values => do
    let token ← ofJson? value
    let tokens ← listOfJson? values
    some (token :: tokens)

end Token

namespace TokenStream

def toJson (stream : TokenStream) : Json := .array (stream.tokens.map Token.toJson)

/-- Loads a stream of which no token has been handed out. -/
def ofJson? : Json → Option TokenStream
  | .array values => (Token.listOfJson? values).map ofList
  | _ => none

def store (stream : TokenStream) : String := stream.toJson.write

def load? (text : String) : Option TokenStream := Json.load? ofJson? text

end TokenStream

namespace Options

def toJson (options : Options) : Json :=
  .record
    [("strict_tag_names", .bool options.strictTagNames),
      ("require_end_of_input", .bool options.requireEndOfInput),
      ("max_depth", .ofNat options.maxDepth)]

/-- What a field gives when it is loaded by `decode`, or `absent` when it is not
given. -/
def given {α : Type} (decode : Json → Option α) (absent : α) : Option Json → Option α
  | some value => decode value
  | none => some absent

def ofJson? (value : Json) : Option Options :=
  match value.fields? ["strict_tag_names", "require_end_of_input", "max_depth"] with
  | some [strictTagNames, requireEndOfInput, maxDepth] => do
    let defaults : Options := {}
    let strictTagNames ← given Json.bool? defaults.strictTagNames strictTagNames
    let requireEndOfInput ← given Json.bool? defaults.requireEndOfInput requireEndOfInput
    let maxDepth ← given Json.word? defaults.maxDepth maxDepth
    some ⟨strictTagNames, requireEndOfInput, maxDepth⟩
  | _ => none

def store (options : Options) : String := options.toJson.write

def load? (text : String) : Option Options := Json.load? ofJson? text

end Options

end TemplateRecognizer
