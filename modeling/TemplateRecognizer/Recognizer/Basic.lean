import TemplateRecognizer.Lexer.Basic
import TemplateRecognizer.Recognizer.Machine

/-!
# Recognizing templates and blocks

The first token decides: an opening bracket begins a block, on which only the
validator has a say, and a less-than sign begins a template.  A recognition
answers a verdict and builds nothing from the text, but it also says how many
tokens it pulled, which constructs it asked the validator about, and what it
left behind: its lookahead and the source.
-/

set_option autoImplicit false

namespace TemplateRecognizer

structure Report where
  verdict : Except ParseError Unit
  /-- The number of tokens pulled, the lookahead among them. -/
  pulled : Nat
  /-- The names put to the validator, in order. -/
  asked : List String

namespace Report

def accepted (report : Report) : Bool :=
  match report.verdict with
  | .ok () => true
  | .error _ => false

end Report

/-- A report, and what was left when its verdict was reached. -/
structure Recognition (σ : Type) extends Report where
  /-- The last token pulled.  It has not been taken. -/
  lookahead : Token
  source : σ

namespace Recognition

variable {σ : Type}

def atFirst (verdict : Except ParseError Unit) (asked : List String) (first : Token)
    (source : σ) : Recognition σ where
  verdict := verdict
  pulled := 1
  asked := asked
  lookahead := first
  source := source

/-- Holds an accepted text to the end of its input, if the options ask for it. -/
def checkEnd (options : Options) (recognition : Recognition σ) : Recognition σ :=
  if recognition.accepted && options.requireEndOfInput && !recognition.lookahead.isEof then
    let found := recognition.lookahead
    { recognition with verdict := .error (.unexpectedToken .eof found.kind found.position) }
  else recognition

end Recognition

namespace Machine

variable {σ : Type} [TokenSource σ]

/-- A machine over `source` that has pulled its first token, and waits for
`pending` outside any level. -/
def start (source : σ) (pending : List Symbol) : Machine σ :=
  ⟨pending, 0, (TokenSource.next source).1, (TokenSource.next source).2, 1⟩

end Machine

section

variable {σ : Type} [FiniteSource σ]

def recognizeBlock (validator : Validator) (first : Token) (source : σ) : Recognition σ :=
  let name := Construct.block.tag
  let verdict := if validator name then .ok () else .error (.rejectedConstruct .block)
  .atFirst verdict [name] first source

def recognizeTemplate (options : Options) (source : σ) : Recognition σ :=
  let halted := (Machine.start source [.phrase .tags]).run options
  ⟨⟨halted.1, halted.2.pulled, []⟩, halted.2.lookahead, halted.2.source⟩

def recognizeFrom (source : σ) (options : Options) (validator : Validator) : Recognition σ :=
  let first := (TokenSource.next source).1
  let behind := (TokenSource.next source).2
  let recognition := match first.kind with
    | .openBracket => recognizeBlock validator first behind
    | .lessThan => recognizeTemplate options source
    | found => .atFirst (.error (.noRootProduction found first.position)) [] first behind
  recognition.checkEnd options

end

def recognizeWith (text : String) (options : Options) (validator : Validator) :
    Except ParseError Unit :=
  (recognizeFrom (Lexer.ofString text) options validator).verdict

/-- Recognizes a text by the bare grammar, letting every construct stand. -/
def recognize (text : String) : Except ParseError Unit :=
  recognizeWith text {} .acceptAll

end TemplateRecognizer
