import TemplateRecognizer.Token.Basic

/-!
# Token sources

A token source hands out tokens one at a time and never runs dry: behind its
last token it answers ends of input.  A finite source promises one thing more,
that a token which is no end of input was taken from something finite, so that
reading up to the first end of input always stops.
-/

set_option autoImplicit false

namespace TemplateRecognizer

/-- A state from which tokens can be taken one by one. -/
class TokenSource (σ : Type) where
  next : σ → Token × σ

namespace TokenSource

variable {σ : Type} [TokenSource σ]

def skip : Nat → σ → σ
  | 0, source => source
  | count + 1, source => skip count (next source).2

def upcoming : Nat → σ → List Token
  | 0, _ => []
  | count + 1, source => (next source).1 :: upcoming count (next source).2

@[simp] theorem length_upcoming (count : Nat) (source : σ) :
    (upcoming count source).length = count := by
  induction count generalizing source with
  | zero => rfl
  | succ count inductionHypothesis => simp [upcoming, inductionHypothesis]

theorem skip_add (first second : Nat) (source : σ) :
    skip (first + second) source = skip second (skip first source) := by
  induction first generalizing source with
  | zero => rw [Nat.zero_add]; rfl
  | succ first inductionHypothesis =>
    rw [Nat.succ_add]
    exact inductionHypothesis (next source).2

theorem upcoming_add (first second : Nat) (source : σ) :
    upcoming (first + second) source =
      upcoming first source ++ upcoming second (skip first source) := by
  induction first generalizing source with
  | zero => rw [Nat.zero_add]; rfl
  | succ first inductionHypothesis =>
    rw [Nat.succ_add]
    simp [upcoming, skip, inductionHypothesis]

end TokenSource

/-- A source that answers nothing but ends of input from some token on. -/
class FiniteSource (σ : Type) extends TokenSource σ where
  /-- A bound on the tokens still to come that are no end of input. -/
  left : σ → Nat
  left_next_le : ∀ source, left (next source).2 ≤ left source
  left_next_lt : ∀ source, (next source).1.kind ≠ .eof → left (next source).2 < left source

namespace FiniteSource

variable {σ : Type} [FiniteSource σ]

/-- Every token up to and including the first end of input, and the source
behind that end. -/
def drain (source : σ) : List Token × σ :=
  let token := (TokenSource.next source).1
  let behind := (TokenSource.next source).2
  if token.kind = .eof then ([token], behind)
  else
    let rest := drain behind
    (token :: rest.1, rest.2)
termination_by left source
decreasing_by exact left_next_lt source ‹_›

end FiniteSource

end TemplateRecognizer
