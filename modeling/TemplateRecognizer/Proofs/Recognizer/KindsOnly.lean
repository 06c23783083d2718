import TemplateRecognizer.Proofs.Recognizer.Correspondence

/-!
# Decisions see kinds only

A recognition decides by the kinds of tokens, and if it is to compare names, by which of them
are equal.  Positions and texts find their way into errors alone.
-/

set_option autoImplicit false

namespace TemplateRecognizer

def SameKinds (tokens others : Nat → Token) : Prop :=
  ∀ index, (tokens index).kind = (others index).kind

section

variable {σ τ : Type} {options : Options}

theorem CorrespondingVerdicts.checkEnd {tokens others : Nat → Token} {taken : Nat}
    {recognition : Recognition σ} {another : Recognition τ}
    (alike : CorrespondingVerdicts tokens others (taken + 1) recognition.verdict another.verdict)
    (ahead : recognition.lookahead = tokens taken) (ahead' : another.lookahead = others taken)
    (same : (tokens taken).kind = (others taken).kind) :
    CorrespondingVerdicts tokens others (taken + 1) (recognition.checkEnd options).verdict
      (another.checkEnd options).verdict := by
  generalize reached : recognition.verdict = verdict at alike
  generalize reached' : another.verdict = verdict' at alike
  cases alike with
  | refused corresponds =>
    rw [Recognition.checkEnd_of_error reached, Recognition.checkEnd_of_error reached', reached,
      reached']
    exact .refused corresponds
  | accepted =>
    by_cases required : options.requireEndOfInput = true
    · rw [Recognition.verdict_checkEnd_of_ok reached required,
        Recognition.verdict_checkEnd_of_ok reached' required, ahead, ahead', same]
      split
      · exact .accepted
      · exact .refused .unexpectedToken
    · rw [Bool.not_eq_true] at required
      rw [Recognition.checkEnd_of_optional required, Recognition.checkEnd_of_optional required,
        reached, reached']
      exact .accepted

theorem recognizeAtOnce_corresponds {tokens others : Nat → Token} (validator : Validator)
    (behind : σ) (behind' : τ) (same : (tokens 0).kind = (others 0).kind) :
    (recognizeAtOnce validator (others 0) behind').asked =
        (recognizeAtOnce validator (tokens 0) behind).asked ∧
      CorrespondingVerdicts tokens others 1 (recognizeAtOnce validator (tokens 0) behind).verdict
        (recognizeAtOnce validator (others 0) behind').verdict := by
  unfold recognizeAtOnce
  rw [same]
  by_cases block : (others 0).kind = .openBracket
  · rw [if_pos block, if_pos block]
    refine ⟨rfl, ?_⟩
    dsimp only [recognizeBlock, Recognition.atFirst]
    split
    · exact .accepted
    · exact .refused .rejectedConstruct
  · rw [if_neg block, if_neg block]
    exact ⟨rfl, .refused .noRootProduction⟩

variable [FiniteSource σ] [FiniteSource τ] {source : σ} {other : τ}

theorem recognizeFrom_corresponds (validator : Validator)
    (kinds : SameKinds (TokenSource.token source) (TokenSource.token other))
    (names : options.strictTagNames = true →
      SameNames (TokenSource.token source) (TokenSource.token other)) :
    (recognizeFrom other options validator).pulled =
        (recognizeFrom source options validator).pulled ∧
      (recognizeFrom other options validator).asked =
        (recognizeFrom source options validator).asked ∧
      CorrespondingVerdicts (TokenSource.token source) (TokenSource.token other)
        (recognizeFrom source options validator).pulled
        (recognizeFrom source options validator).verdict
        (recognizeFrom other options validator).verdict := by
  have first := kinds 0
  by_cases opens : (TokenSource.token source 0).kind = .lessThan
  · obtain ⟨verdict, final, course⟩ :=
      Course.exists_of_source options source ⟨0, [.phrase .tags], 0⟩
    obtain ⟨verdict', final', course', place, alike⟩ :=
      course.corresponds (fun index _ => kinds index) names (Stage.corresponds_start _ _)
    rw [recognizeFrom_of_course opens course,
      recognizeFrom_of_course (first.symm.trans opens) course', place]
    simp only [Recognition.pulled_checkEnd, Recognition.asked_checkEnd, true_and]
    exact alike.checkEnd rfl rfl (kinds final.taken)
  · obtain ⟨asked, alike⟩ := recognizeAtOnce_corresponds validator (TokenSource.skip 1 source)
      (TokenSource.skip 1 other) first
    rw [recognizeFrom_of_noTemplate options opens,
      recognizeFrom_of_noTemplate options (first ▸ opens)]
    simp only [Recognition.pulled_checkEnd, Recognition.asked_checkEnd, pulled_recognizeAtOnce,
      true_and]
    refine ⟨asked, alike.checkEnd ?_ ?_ first⟩
    · rw [recognizeAtOnce_eq]
    · rw [recognizeAtOnce_eq]

end

theorem SameKinds.of_streams {stream other : TokenStream}
    (kinds : stream.tokens.map Token.kind = other.tokens.map Token.kind) :
    SameKinds (TokenSource.token stream) (TokenSource.token other) := by
  intro index
  rw [TokenStream.kind_token, TokenStream.kind_token, kinds]

/-- Grammar decisions see kinds only.  Recognitions of two streams that hold tokens of the same
kinds agree but for the positions and the names that an error quotes, and these are quoted from
the same places.  Where names are compared, their texts matter as far as they are equal. -/
theorem decisions_see_kinds_only (stream other : TokenStream) (options : Options)
    (validator : Validator)
    (kinds : stream.tokens.map Token.kind = other.tokens.map Token.kind)
    (names : options.strictTagNames = true →
      SameNames (TokenSource.token stream) (TokenSource.token other)) :
    let recognition := recognizeFrom stream options validator
    let another := recognizeFrom other options validator
    another.pulled = recognition.pulled ∧
      another.asked = recognition.asked ∧
      CorrespondingVerdicts (TokenSource.token stream) (TokenSource.token other)
        recognition.pulled recognition.verdict another.verdict :=
  recognizeFrom_corresponds validator (.of_streams kinds) names

theorem decisions_see_kinds_only_renamed_tags :
    ∃ stream other : TokenStream,
      stream.tokens.map Token.kind =
        [.lessThan, .identifier, .greaterThan, .lessThan, .slash, .identifier, .greaterThan] ∧
      SameNames (TokenSource.token stream) (TokenSource.token other) ∧
      (∀ index < 7, (TokenSource.token stream index).position ≠
        (TokenSource.token other index).position) ∧
      CorrespondingVerdicts (TokenSource.token stream) (TokenSource.token other)
        (recognizeFrom stream ⟨true, false, 64⟩ .acceptAll).pulled
        (recognizeFrom stream ⟨true, false, 64⟩ .acceptAll).verdict
        (recognizeFrom other ⟨true, false, 64⟩ .acceptAll).verdict := by
  let stream := TokenStream.ofList [⟨.lessThan, none, ⟨1, 1⟩⟩, ⟨.identifier, some "a", ⟨1, 2⟩⟩,
    ⟨.greaterThan, none, ⟨1, 3⟩⟩, ⟨.lessThan, none, ⟨1, 4⟩⟩, ⟨.slash, none, ⟨1, 5⟩⟩,
    ⟨.identifier, some "b", ⟨1, 6⟩⟩, ⟨.greaterThan, none, ⟨1, 7⟩⟩]
  let other := TokenStream.ofList [⟨.lessThan, none, ⟨2, 1⟩⟩, ⟨.identifier, some "li", ⟨2, 2⟩⟩,
    ⟨.greaterThan, none, ⟨2, 4⟩⟩, ⟨.lessThan, none, ⟨3, 1⟩⟩, ⟨.slash, none, ⟨3, 2⟩⟩,
    ⟨.identifier, none, ⟨3, 3⟩⟩, ⟨.greaterThan, none, ⟨3, 4⟩⟩]
  have named : ∀ index, (TokenSource.token stream index).kind = .identifier → index < 7 := by
    intro index name
    by_contra beyond
    rw [TokenStream.kind_token, List.getD_eq_getElem?_getD,
      List.getElem?_eq_none (Nat.le_of_not_lt beyond)] at name
    cases name
  have names : SameNames (TokenSource.token stream) (TokenSource.token other) := by
    have here : ∀ first < 7, ∀ second < 7,
        (TokenSource.token stream first).kind = .identifier →
        (TokenSource.token stream second).kind = .identifier →
        ((TokenSource.token stream first).textOrEmpty =
            (TokenSource.token stream second).textOrEmpty ↔
          (TokenSource.token other first).textOrEmpty =
            (TokenSource.token other second).textOrEmpty) := by decide
    intro first second name name'
    exact here first (named first name) second (named second name') name name'
  have alike :=
    decisions_see_kinds_only stream other ⟨true, false, 64⟩ .acceptAll rfl fun _ => names
  exact ⟨stream, other, rfl, names, by decide, alike.2.2⟩

end TemplateRecognizer
