import TemplateRecognizer.Proofs.Recognizer.Locality
import TemplateRecognizer.Session

/-!
# Every token is handed out once

Whoever borrows a scanner takes tokens off its front and leaves the rest.  A recognition is
no exception: it takes what it matches and one token of lookahead, which is lost to whoever
comes next.  So the tokens that successive users take, one user's behind the other's, are the
next tokens of the scanner that they share.
-/

set_option autoImplicit false

namespace TemplateRecognizer

/-- What one use of a scanner answers, which tokens it used, and which it pulled and threw
away. -/
structure Service where
  reply : Reply
  used : List Token
  lost : List Token

namespace Service

def pulled (service : Service) : List Token := service.used ++ service.lost

end Service

/-- `Serves source requests services final` says that a scanner of state `source`, borrowed for
one request after another, is left as `final`. -/
inductive Serves {σ : Type} [TokenSource σ] :
    σ → List Request → List Service → σ → Prop where
  | nothing {source : σ} : Serves source [] [] source
  | next {source final : σ} {requests : List Request} {services : List Service} :
      Serves (TokenSource.next source).2 requests services final →
        Serves source (.next :: requests)
          (⟨.token (TokenSource.next source).1, [(TokenSource.next source).1], []⟩ :: services)
          final
  | prime {source final : σ} {requests : List Request} {services : List Service} :
      Serves (TokenSource.next source).2 requests services final →
        Serves source (.prime :: requests)
          (⟨.token (TokenSource.next source).1, [], [(TokenSource.next source).1]⟩ :: services)
          final
  | parse {source final : σ} {requests : List Request} {services : List Service}
      {options : Options} {validator : Validator} {tokens : List Token}
      {recognition : Recognition σ} :
      Recognizes options validator source tokens recognition →
        Serves recognition.source requests services final →
          Serves source (.parse options validator :: requests)
            (⟨.report recognition.toReport, tokens, [recognition.lookahead]⟩ :: services) final

namespace Serves

variable {σ : Type} [TokenSource σ] {source final : σ} {requests : List Request}
  {services : List Service}

theorem joined {first : List Token} {others : List Service} {middle : σ}
    (taken : first = TokenSource.upcoming first.length source)
    (left : middle = TokenSource.skip first.length source)
    (rest : others.flatMap Service.pulled =
        TokenSource.upcoming (others.flatMap Service.pulled).length middle ∧
      final = TokenSource.skip (others.flatMap Service.pulled).length middle) :
    first ++ others.flatMap Service.pulled =
        TokenSource.upcoming (first ++ others.flatMap Service.pulled).length source ∧
      final = TokenSource.skip (first ++ others.flatMap Service.pulled).length source := by
  rw [List.length_append, TokenSource.upcoming_add, TokenSource.skip_add, ← taken, ← left]
  exact ⟨congrArg (first ++ ·) rest.1, rest.2⟩

theorem in_order (serves : Serves source requests services final) :
    services.flatMap Service.pulled =
        TokenSource.upcoming (services.flatMap Service.pulled).length source ∧
      final = TokenSource.skip (services.flatMap Service.pulled).length source := by
  induction serves with
  | nothing => exact ⟨rfl, rfl⟩
  | next _ inductionHypothesis => exact joined rfl rfl inductionHypothesis
  | prime _ inductionHypothesis => exact joined rfl rfl inductionHypothesis
  | parse recognizes _ inductionHypothesis =>
    obtain ⟨left, taken⟩ := recognizes.pulls
    have count := congrArg List.length taken
    rw [TokenSource.length_upcoming] at count
    rw [← count] at left taken
    exact joined taken left inductionHypothesis

end Serves

def Request.Borrows : Request → Prop
  | .next | .prime | .parse _ _ => True
  | _ => False

theorem Session.exists_serves (requests : List Request) :
    ∀ session : Session, (∀ request ∈ requests, request.Borrows) →
      ∃ services final, Serves session.scanner requests services final ∧
        services.map Service.reply = session.answerAll requests := by
  induction requests with
  | nil =>
    intro session _
    exact ⟨[], session.scanner, .nothing, rfl⟩
  | cons request requests inductionHypothesis =>
    intro session borrow
    obtain ⟨services, final, serves, replies⟩ := inductionHypothesis (session.answer request).2
      fun later member => borrow later (List.mem_cons_of_mem request member)
    have borrows := borrow request List.mem_cons_self
    rw [answerAll, ← replies]
    cases request with
    | next => exact ⟨_, final, .next serves, rfl⟩
    | prime => exact ⟨_, final, .prime serves, rfl⟩
    | parse options validator =>
      obtain ⟨tokens, recognizes⟩ := exists_recognizes session.scanner options validator
      exact ⟨_, final, .parse recognizes serves, rfl⟩
    | _ => cases borrows

/-- Pulls are accounted for exactly.  A recognition that ends has matched all the tokens it
pulled but the last, leaves the source behind them, and ends alike wherever the same tokens
come next; those that are run on finite sources do end.  And whatever a scanner is borrowed
for, each of its tokens is handed out once, in order. -/
theorem pulls_are_accounted_for :
    (∀ {σ : Type} [TokenSource σ] (source : σ) (options : Options) (validator : Validator)
        (tokens : List Token) (recognition : Recognition σ),
      Recognizes options validator source tokens recognition →
        recognition.source = TokenSource.skip recognition.pulled source ∧
        tokens ++ [recognition.lookahead] = TokenSource.upcoming recognition.pulled source ∧
        ∀ {τ : Type} [TokenSource τ] (other : τ),
          TokenSource.upcoming recognition.pulled source =
              TokenSource.upcoming recognition.pulled other →
            ∀ others another, Recognizes options validator other others another ↔
              others = tokens ∧
              another = ⟨recognition.toReport, recognition.lookahead,
                TokenSource.skip recognition.pulled other⟩) ∧
    (∀ {σ : Type} [FiniteSource σ] (source : σ) (options : Options) (validator : Validator),
      ∃ tokens, Recognizes options validator source tokens
        (recognizeFrom source options validator)) ∧
    (∀ {σ : Type} [TokenSource σ] (source final : σ) (requests : List Request)
        (services : List Service), Serves source requests services final →
      let pulled := services.flatMap Service.pulled
      pulled = TokenSource.upcoming pulled.length source ∧
        final = TokenSource.skip pulled.length source) ∧
    ∀ (session : Session) (requests : List Request),
      (∀ request ∈ requests, request.Borrows) →
        ∃ services final, Serves session.scanner requests services final ∧
          services.map Service.reply = session.answerAll requests := by
  refine ⟨?_, exists_recognizes, ?_, fun session requests => Session.exists_serves requests session⟩
  · intro σ _ source options validator tokens recognition recognizes
    obtain ⟨left, taken⟩ := recognizes.pulls
    refine ⟨left, taken, ?_⟩
    intro τ _ other same others another
    have ends := recognizes.elsewhere other (TokenSource.token_eq_of_upcoming_eq same)
    constructor
    · exact ends.unique
    · rintro ⟨rfl, rfl⟩
      exact ends
  · intro σ _ source final requests services serves
    exact serves.in_order

/-- The name of a closing tag is matched before it is refused. -/
theorem pulls_are_accounted_for_mismatched_tag :
    ∃ (stream : TokenStream) (tokens : List Token) (recognition : Recognition TokenStream),
      stream.tokens.map Token.kind =
        [.lessThan, .identifier, .greaterThan, .lessThan, .slash, .identifier, .greaterThan] ∧
      Recognizes ⟨true, false, 64⟩ .acceptAll stream tokens recognition ∧
      recognition.verdict = .error (.mismatchedTag "a" "b" ⟨1, 6⟩) ∧
      tokens ++ [recognition.lookahead] = stream.tokens ∧
      recognition.source = TokenSource.skip 7 stream := by
  let options : Options := ⟨true, false, 64⟩
  let stream := TokenStream.ofList [⟨.lessThan, none, ⟨1, 1⟩⟩, ⟨.identifier, some "a", ⟨1, 2⟩⟩,
    ⟨.greaterThan, none, ⟨1, 3⟩⟩, ⟨.lessThan, none, ⟨1, 4⟩⟩, ⟨.slash, none, ⟨1, 5⟩⟩,
    ⟨.identifier, some "b", ⟨1, 6⟩⟩, ⟨.greaterThan, none, ⟨1, 7⟩⟩]
  have course : Course options (TokenSource.token stream) ⟨0, [.phrase .tags], 0⟩
      (.error (.mismatchedTag "a" "b" ⟨1, 6⟩)) ⟨6, [], 0⟩ :=
    .advances (.phrase rfl) (.advances (.phrase rfl) (.advances (.token rfl)
      (.advances (.openingName rfl) (.advances (.token rfl) (.advances (.phrase rfl)
        (.advances (.token rfl) (.advances (.token rfl)
          (.halts (.mismatched rfl rfl (by decide))))))))))
  have recognizes : Recognizes options .acceptAll stream _ _ := .of_course rfl course
  obtain ⟨left, taken, _⟩ :=
    pulls_are_accounted_for.1 stream options .acceptAll _ _ recognizes
  exact ⟨stream, _, _, rfl, recognizes, rfl, taken, left⟩

end TemplateRecognizer
