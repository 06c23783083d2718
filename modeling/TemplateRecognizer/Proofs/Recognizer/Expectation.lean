import TemplateRecognizer.Proofs.Recognizer.Refusal

/-!
# What was expected depends only on what was consumed

Two texts that begin alike and are refused at their first difference are refused for the same
reason: each refusal is the one that the end of the input would have met in this place.
-/

set_option autoImplicit false

namespace TemplateRecognizer

section

variable {found other middle : Token}

theorem ParseError.SameAt.join {error error' atMiddle : ParseError}
    (first : error.SameAt found middle atMiddle) (second : error'.SameAt other middle atMiddle) :
    error.SameAt found other error' := by
  cases first with
  | unexpectedToken =>
    cases second
    exact .unexpectedToken
  | unrecognizedStatement =>
    cases second
    exact .unrecognizedStatement
  | mismatchedTag =>
    cases second
    exact .mismatchedTag

theorem SameVerdictAt.join {verdict verdict' atMiddle : Except ParseError Unit}
    (first : SameVerdictAt found middle verdict atMiddle)
    (second : SameVerdictAt other middle verdict' atMiddle) :
    SameVerdictAt found other verdict verdict' := by
  cases first with
  | accepted =>
    cases second
    exact .accepted
  | refused same =>
    cases second with
    | refused same' => exact .refused (same.join same')

end

/-- Courses that end in front of their first difference, but not for want of depth, end alike. -/
theorem Course.sameVerdictAt {options : Options} {tokens others : Nat → Token}
    {stage final final' : Stage} {verdict verdict' : Except ParseError Unit}
    (course : Course options tokens stage verdict final)
    (course' : Course options others stage verdict' final') (place : final'.taken = final.taken)
    (same : ∀ index < final.taken, tokens index = others index) (shallow : Shallow verdict)
    (shallow' : Shallow verdict') :
    SameVerdictAt (tokens final.taken) (others final.taken) verdict verdict' := by
  obtain ⟨atMiddle, ended, alike⟩ := course.at_cutOff shallow
  obtain ⟨atMiddle', ended', alike'⟩ := course'.at_cutOff shallow'
  rw [place, ← cutOff_congr same] at ended' alike'
  obtain ⟨rfl, _⟩ := ended.unique ended'
  exact alike.join alike'

section

variable {σ τ : Type} [FiniteSource σ] [FiniteSource τ] {options : Options} {validator : Validator}
  {source : σ} {other : τ} {count : Nat} {error error' : ParseError}

theorem sameAt_of_recognizeFrom (opens : (TokenSource.token source 0).kind = .lessThan)
    (opens' : (TokenSource.token other 0).kind = .lessThan)
    (same : ∀ index < count, TokenSource.token source index = TokenSource.token other index)
    (failed : (recognizeFrom source options validator).verdict = .error error)
    (failed' : (recognizeFrom other options validator).verdict = .error error')
    (pulled : (recognizeFrom source options validator).pulled = count + 1)
    (pulled' : (recognizeFrom other options validator).pulled = count + 1)
    (shallow : ∀ limit position, error ≠ .nestingTooDeep limit position)
    (shallow' : ∀ limit position, error' ≠ .nestingTooDeep limit position) :
    error.SameAt (TokenSource.token source count) (TokenSource.token other count) error' := by
  obtain ⟨verdict, final, course⟩ := Course.exists_of_source options source ⟨0, [.phrase .tags], 0⟩
  obtain ⟨verdict', final', course'⟩ :=
    Course.exists_of_source options other ⟨0, [.phrase .tags], 0⟩
  rw [recognizeFrom_of_course opens course, Recognition.pulled_checkEnd] at pulled
  rw [recognizeFrom_of_course opens' course', Recognition.pulled_checkEnd] at pulled'
  obtain rfl : final.taken = count := Nat.succ.inj pulled
  have place : final'.taken = final.taken := Nat.succ.inj pulled'
  have alike := course.sameVerdictAt course' place same
    (course.shallow_of_recognizeFrom opens failed shallow)
    (course'.shallow_of_recognizeFrom opens' failed' shallow')
  have refused' := course'.error_of_recognizeFrom opens' failed'
  rw [place] at refused'
  rcases course.error_of_recognizeFrom opens failed with rfl | ⟨rfl, rfl⟩
  · cases alike with
    | refused same =>
      obtain reached | ⟨accepted, _⟩ := refused'
      · cases reached
        exact same
      · cases accepted
  · cases alike
    obtain reached | ⟨_, rfl⟩ := refused'
    · cases reached
    · exact .unexpectedToken

end

/-- What was expected depends only on what was consumed.  If two texts begin with the same tokens
and both are refused for the next one, but not for want of depth, then for the same reason.  The
errors differ in nothing but the kind and the position of the token that was found. -/
theorem expectation_depends_on_consumed {tokens : List Token} {first second : Token}
    {options : Options} {validator : Validator} {error error' : ParseError}
    (opens : tokens.head?.map Token.kind = some .lessThan)
    (failed : (recognizeFrom (TokenStream.ofList (tokens ++ [first])) options validator).verdict =
      .error error)
    (failed' : (recognizeFrom (TokenStream.ofList (tokens ++ [second])) options validator).verdict =
      .error error')
    (pulled : (recognizeFrom (TokenStream.ofList (tokens ++ [first])) options validator).pulled =
      tokens.length + 1)
    (pulled' : (recognizeFrom (TokenStream.ofList (tokens ++ [second])) options validator).pulled =
      tokens.length + 1)
    (shallow : ∀ limit position, error ≠ .nestingTooDeep limit position)
    (shallow' : ∀ limit position, error' ≠ .nestingTooDeep limit position) :
    error.SameAt first second error' := by
  have begins (last : Token) : (TokenSource.token (TokenStream.ofList (tokens ++ [last])) 0).kind =
      .lessThan := by
    cases tokens with
    | nil => cases opens
    | cons sign rest => exact Option.some.inj opens
  have same : ∀ index < tokens.length,
      TokenSource.token (TokenStream.ofList (tokens ++ [first])) index =
        TokenSource.token (TokenStream.ofList (tokens ++ [second])) index := by
    intro index inside
    exact (TokenStream.token_append_left tokens [first] .start inside).trans
      (TokenStream.token_append_left tokens [second] .start inside).symm
  have refused := sameAt_of_recognizeFrom (begins first) (begins second) same failed failed' pulled
    pulled' shallow shallow'
  rwa [TokenStream.ofList, TokenStream.ofList, TokenStream.token_append_cons,
    TokenStream.token_append_cons] at refused

theorem expectation_depends_on_consumed_missing_value :
    let place := Position.mk 1 6
    let tokens : List Token := [⟨.lessThan, none, ⟨1, 1⟩⟩, ⟨.identifier, some "p", ⟨1, 2⟩⟩,
      ⟨.greaterThan, none, ⟨1, 3⟩⟩, ⟨.openBrace, none, ⟨1, 4⟩⟩, ⟨.openBrace, none, ⟨1, 5⟩⟩]
    let refusal := fun last : Token =>
      (recognizeFrom (TokenStream.ofList (tokens ++ [last])) .strict .acceptAll).verdict
    refusal ⟨.closeBrace, none, place⟩ =
        .error (.unexpectedToken .identifier .closeBrace place) ∧
      refusal (.endOfInput place) = .error (.unexpectedToken .identifier .eof place) ∧
      ParseError.SameAt ⟨.closeBrace, none, place⟩ (.endOfInput place)
        (.unexpectedToken .identifier .closeBrace place)
        (.unexpectedToken .identifier .eof place) := by
  intro place tokens refusal
  have reported (last : Token) (ahead : last.kind = .closeBrace ∨ last.kind = .eof) :
      recognizeFrom (TokenStream.ofList (tokens ++ [last])) .strict .acceptAll =
        ⟨⟨.error (.unexpectedToken .identifier last.kind last.position), 6, []⟩, last,
          TokenSource.skip 6 (TokenStream.ofList (tokens ++ [last]))⟩ := by
    have course : Course .strict (TokenSource.token (TokenStream.ofList (tokens ++ [last])))
        ⟨0, [.phrase .tags], 0⟩
        (.error (.unexpectedToken .identifier last.kind last.position)) ⟨5, [], 0⟩ := by
      have other : last.kind ≠ .identifier := by
        rcases ahead with same | same <;> simp [same]
      obtain ⟨kind, text, position⟩ := last
      rcases ahead with rfl | rfl
      all_goals exact .advances (.phrase rfl) (.advances (.phrase rfl) (.advances (.token rfl)
        (.advances (.openingName rfl) (.advances (.token rfl) (.advances (.phrase rfl)
          (.advances (.phrase rfl) (.advances (.token rfl) (.advances (.phrase rfl)
            (.advances (.token rfl) (.advances (.phrase rfl) (.advances (.phrase rfl)
              (.advances (.phrase rfl) (.advances (.phrase rfl) (.advances (.phrase rfl)
                (.halts (.unexpected rfl other))))))))))))))))
    have whole := recognizeFrom_of_course rfl course .acceptAll
    rwa [Recognition.checkEnd_of_error rfl] at whole
  have first := reported ⟨.closeBrace, none, place⟩ (.inl rfl)
  have second := reported (.endOfInput place) (.inr rfl)
  have failed : refusal ⟨.closeBrace, none, place⟩ = _ := congrArg (·.verdict) first
  have failed' : refusal (.endOfInput place) = _ := congrArg (·.verdict) second
  refine ⟨failed, failed', ?_⟩
  exact expectation_depends_on_consumed rfl failed failed' (congrArg (·.pulled) first)
    (congrArg (·.pulled) second) (by simp) (by simp)

end TemplateRecognizer
