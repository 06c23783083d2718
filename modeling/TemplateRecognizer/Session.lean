import TemplateRecognizer.Json.Codec
import TemplateRecognizer.Recognizer.Basic

/-!
# Sessions

A session keeps one scanner and answers requests on it: for single tokens, for
recognitions that borrow the scanner and leave it where they stopped, and for
the storing and loading of token streams.  A scanner is a lexer or a token
stream, and only a stream can be counted, stored and put aside.
-/

set_option autoImplicit false

namespace TemplateRecognizer

inductive Scanner where
  | lexer (lexer : Lexer)
  | stream (stream : TokenStream)
deriving DecidableEq, Repr

namespace Scanner

def next : Scanner → Token × Scanner
  | lexer state => (state.next.1, lexer state.next.2)
  | stream state => (state.next.1, stream state.next.2)

def left : Scanner → Nat
  | lexer state => FiniteSource.left state
  | stream state => FiniteSource.left state

instance : FiniteSource Scanner where
  next := next
  left := left
  left_next_le scanner := by
    cases scanner with
    | lexer state => exact FiniteSource.left_next_le state
    | stream state => exact FiniteSource.left_next_le state
  left_next_lt scanner visible := by
    cases scanner with
    | lexer state => exact FiniteSource.left_next_lt state visible
    | stream state => exact FiniteSource.left_next_lt state visible

end Scanner

inductive Supply where
  /-- Read from a text as they are asked for. -/
  | text (text : String)
  /-- Read from a text beforehand. -/
  | tokenized (text : String)
  | stored (json : String)
  | tokens (tokens : List Token)
deriving DecidableEq, Repr

/-- A scanner, the text that errors are shown in, and a stream put aside. -/
structure Session where
  scanner : Scanner
  source : String
  saved : Option TokenStream
deriving DecidableEq, Repr

inductive Request where
  | next
  | drain
  | prime
  | parse (options : Options) (validator : Validator)
  | load (supply : Supply)
  | remaining
  | store
  | reload
  | save
  | restore

inductive Reply where
  | token (token : Token)
  | tokens (tokens : List Token)
  | report (report : Report)
  | loaded
  | count (count : Nat)
  | text (text : String)
  | unreadable
  /-- A request that this session cannot meet. -/
  | refused

namespace Supply

/-- A scanner over a supply, and the text it was read from as far as known. -/
def start? : Supply → Option (Scanner × String)
  | .text source => some (.lexer (.ofString source), source)
  | .tokenized source => some (.stream (.ofList (tokenize source)), source)
  | .stored json => (TokenStream.load? json).map fun stream => (.stream stream, "")
  | .tokens list => some (.stream (.ofList list), "")

end Supply

namespace Session

def start? (supply : Supply) : Option Session :=
  supply.start?.map fun (scanner, source) => ⟨scanner, source, none⟩

/-- Goes on with `stream`, and answers how many tokens it holds. -/
def continueWith (session : Session) (stream : TokenStream) : Reply × Session :=
  (.count stream.remaining, { session with scanner := .stream stream })

def answer (session : Session) : Request → Reply × Session
  | .next | .prime =>
    let taken := TokenSource.next session.scanner
    (.token taken.1, { session with scanner := taken.2 })
  | .drain =>
    let drained := FiniteSource.drain session.scanner
    (.tokens drained.1, { session with scanner := drained.2 })
  | .parse options validator =>
    let recognition := recognizeFrom session.scanner options validator
    (.report recognition.toReport, { session with scanner := recognition.source })
  | .load supply =>
    match supply.start? with
    | some (scanner, source) => (.loaded, { session with scanner, source })
    | none => (.unreadable, session)
  | .remaining => match session.scanner with
    | .stream stream => (.count stream.remaining, session)
    | .lexer _ => (.refused, session)
  | .store => match session.scanner with
    | .stream stream => (.text stream.store, session)
    | .lexer _ => (.refused, session)
  | .reload => match session.scanner with
    | .stream stream => match TokenStream.load? stream.store with
      | some reloaded => session.continueWith reloaded
      | none => (.unreadable, session)
    | .lexer _ => (.refused, session)
  | .save => match session.scanner with
    | .stream stream => (.count stream.remaining, { session with saved := some stream })
    | .lexer _ => (.refused, session)
  | .restore => match session.saved with
    | some stream => session.continueWith stream
    | none => (.refused, session)

def answerAll (session : Session) : List Request → List Reply
  | [] => []
  | request :: requests =>
    let answered := session.answer request
    answered.1 :: answered.2.answerAll requests

end Session

end TemplateRecognizer
