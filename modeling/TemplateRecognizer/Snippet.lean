import TemplateRecognizer.ParseError

/-!
# Snippets

An error is shown to an author with the line it was met in, and a caret for its
column in the line below.  Lines of the source end at line feeds, and a
carriage return right before one belongs to the line break.
-/

set_option autoImplicit false

namespace TemplateRecognizer

namespace Snippet

def dropLines : Nat → List Char → List Char
  | 0, text => text
  | _ + 1, [] => []
  | count + 1, character :: rest =>
    if character = '\n' then dropLines count rest else dropLines (count + 1) rest

def dropReturn (line : List Char) : List Char :=
  if line.getLast? = some '\r' then line.dropLast else line

/-- The first line of `text`.  A carriage return belongs to the line break when
it stands right before a line feed, and to the line everywhere else. -/
def firstLine (text : List Char) : List Char :=
  let line := text.takeWhile (· != '\n')
  match text.dropWhile (· != '\n') with
  | [] => line
  | _ :: _ => dropReturn line

/-- The line of this number, counted from one.  It is empty if there is none, and
number zero is the first line too. -/
def sourceLine (source : String) (number : Nat) : List Char :=
  firstLine (dropLines (number - 1) source.toList)

/-- A number, filled up with blanks in front to three characters. -/
def lineNumber (number : Nat) : List Char :=
  let digits := (toString number).toList
  List.replicate (3 - digits.length) ' ' ++ digits

/-- The gutter of a line that shows no text of the source. -/
def gutter : List Char := [' ', ' ', ' ', '|']

def shownLine (source : String) (position : Position) : List Char :=
  lineNumber position.line ++ [' ', '|', ' '] ++ sourceLine source position.line

/-- A caret under a column.  Column zero is shown as column one. -/
def caretLine (position : Position) : List Char :=
  gutter ++ ' ' :: List.replicate (position.column - 1) ' ' ++ ['^']

end Snippet

namespace ParseError

def lines (error : ParseError) (file source : String) : List (List Char) :=
  let header := "error[" ++ error.code ++ "]: " ++ error.message
  let place := match error.position? with
    | some position =>
      [("  --> " ++ file ++ ":" ++ position.toText).toList, Snippet.gutter,
        Snippet.shownLine source position, Snippet.caretLine position]
    | none => [("  --> " ++ file).toList]
  let help := match error.help? with
    | some help => [("help: " ++ help).toList]
    | none => []
  header.toList :: place ++ help

/-- The text by which an error is shown.  Every line ends with a line feed. -/
def render (error : ParseError) (file source : String) : String :=
  String.ofList ((error.lines file source).flatMap fun line => line ++ ['\n'])

end ParseError

end TemplateRecognizer
