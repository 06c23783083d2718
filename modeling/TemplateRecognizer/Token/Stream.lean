import TemplateRecognizer.Token.Source

/-!
# Token streams

A token stream is a finite list of tokens to be handed out in order.  Behind
the last one it answers ends of input at the position of the token it handed
out last, or at the start of a text if it never had one.
-/

set_option autoImplicit false

namespace TemplateRecognizer

/-- The tokens still to come, and the position of the one handed out last. -/
structure TokenStream where
  tokens : List Token
  last : Position
deriving DecidableEq, Repr

namespace TokenStream

def ofList (tokens : List Token) : TokenStream := ⟨tokens, .start⟩

instance : Inhabited TokenStream := ⟨ofList []⟩

def remaining (stream : TokenStream) : Nat := stream.tokens.length

def next (stream : TokenStream) : Token × TokenStream :=
  match stream.tokens with
  | [] => (.endOfInput stream.last, stream)
  | token :: rest => (token, ⟨rest, token.position⟩)

@[simp] theorem next_nil (last : Position) :
    next ⟨[], last⟩ = (.endOfInput last, ⟨[], last⟩) := rfl

@[simp] theorem next_cons (token : Token) (rest : List Token) (last : Position) :
    next ⟨token :: rest, last⟩ = (token, ⟨rest, token.position⟩) := rfl

theorem remaining_next (stream : TokenStream) :
    (next stream).2.remaining = stream.remaining - 1 := by
  obtain ⟨tokens, last⟩ := stream
  cases tokens with
  | nil => rfl
  | cons token rest => simp [next, remaining]

instance : FiniteSource TokenStream where
  next := next
  left := remaining
  left_next_le stream := by
    rw [remaining_next]
    exact Nat.sub_le ..
  left_next_lt stream visible := by
    obtain ⟨tokens, last⟩ := stream
    cases tokens with
    | nil => exact absurd rfl visible
    | cons token rest => simp [next, remaining]

end TokenStream

end TemplateRecognizer
