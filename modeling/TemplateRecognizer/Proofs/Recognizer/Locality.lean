import TemplateRecognizer.Proofs.Recognizer.Ending
import TemplateRecognizer.Proofs.Token.Sequence

/-!
# A recognition depends on the tokens it pulls

What a recognition reports is decided by the tokens it pulled, and it leaves its source
behind just these.  No matter how another source is built, a recognition of it reports the
same if these tokens are the same.
-/

set_option autoImplicit false

namespace TemplateRecognizer

section

variable {options : Options} {tokens others : Nat → Token} {stage next final : Stage}
  {verdict : Except ParseError Unit}

theorem Stage.Advances.congr (advances : stage.Advances options tokens next)
    (same : tokens stage.taken = others stage.taken) : stage.Advances options others next := by
  cases advances with
  | token kind => exact .token (same ▸ kind)
  | openingName kind =>
    dsimp only at same
    rw [same]
    exact .openingName (same ▸ kind)
  | closingName kind fits => exact .closingName (same ▸ kind) (same ▸ fits)
  | enter shallow => exact .enter shallow
  | leave => exact .leave
  | phrase predicted => exact .phrase (same ▸ predicted)

theorem Stage.Halts.congr (halts : stage.Halts options tokens verdict final)
    (same : tokens stage.taken = others stage.taken) :
    stage.Halts options others verdict final := by
  cases halts with
  | done => exact .done
  | unexpected awaited wrong =>
    dsimp only at same
    rw [same]
    exact .unexpected awaited (same ▸ wrong)
  | mismatched strict kind different =>
    dsimp only at same
    rw [same]
    exact .mismatched strict (same ▸ kind) (same ▸ different)
  | tooDeep deep =>
    dsimp only at same
    rw [same]
    exact .tooDeep deep
  | unrecognized refused => exact .unrecognized (same ▸ refused)

/-- A course is the same over all sequences that agree up to the token it ends at. -/
theorem Course.congr (course : Course options tokens stage verdict final)
    (same : ∀ index ≤ final.taken, tokens index = others index) :
    Course options others stage verdict final := by
  induction course with
  | halts halts => exact .halts (halts.congr (same _ halts.taken_le))
  | advances advances course inductionHypothesis =>
    have within := Nat.le_trans advances.taken_le course.taken_le
    exact .advances (advances.congr (same _ within)) (inductionHypothesis same)

end

theorem Recognition.exists_checkEnd (options : Options) (report : Report) (lookahead : Token) :
    ∃ checked : Report, checked.pulled = report.pulled ∧
      ∀ {σ : Type} (source : σ),
        Recognition.checkEnd options ⟨report, lookahead, source⟩ =
          ⟨checked, lookahead, source⟩ := by
  refine ⟨(Recognition.checkEnd options ⟨report, lookahead, ()⟩).toReport, ?_, ?_⟩
  · exact Recognition.pulled_checkEnd _
  · intro σ source
    unfold Recognition.checkEnd
    dsimp only
    split <;> rfl

theorem Recognizes.elsewhere {σ τ : Type} [TokenSource σ] [TokenSource τ] {options : Options}
    {validator : Validator} {source : σ} {tokens : List Token} {recognition : Recognition σ}
    (recognizes : Recognizes options validator source tokens recognition) (other : τ)
    (same : ∀ index < recognition.pulled,
      TokenSource.token source index = TokenSource.token other index) :
    Recognizes options validator other tokens
      ⟨recognition.toReport, recognition.lookahead,
        TokenSource.skip recognition.pulled other⟩ := by
  rcases recognizes.decided with ⟨noTemplate, rfl, rfl⟩ | ⟨opens, verdict, final, course, rfl, rfl⟩
  · -- How many tokens `same` is about is known only when the report is.
    rw [recognizeAtOnce_eq] at same ⊢
    obtain ⟨report, pulled, checked⟩ := Recognition.exists_checkEnd options
      (recognizeAtOnce validator (TokenSource.token source 0) ()).toReport
      (TokenSource.token source 0)
    rw [checked] at same ⊢
    rw [pulled_recognizeAtOnce] at pulled
    dsimp only at same ⊢
    rw [pulled] at same ⊢
    have first : TokenSource.token source 0 = TokenSource.token other 0 := same 0 Nat.one_pos
    rw [← checked, ← recognizeAtOnce_eq, first]
    exact .atOnce (first ▸ noTemplate)
  · obtain ⟨report, pulled, checked⟩ := Recognition.exists_checkEnd options
      ⟨verdict, final.taken + 1, []⟩ (TokenSource.token source final.taken)
    rw [checked] at same ⊢
    dsimp only at same pulled ⊢
    rw [pulled] at same ⊢
    have first : TokenSource.token source 0 = TokenSource.token other 0 := same 0 (by omega)
    have another : Course options (TokenSource.token other) ⟨0, [.phrase .tags], 0⟩ verdict
        final := course.congr fun index within => same index (by omega)
    have matched : between (TokenSource.token source) 0 final.taken =
        between (TokenSource.token other) 0 final.taken :=
      between_congr fun index within => same index (by omega)
    rw [← checked, matched, same final.taken (by omega)]
    exact .of_course (first ▸ opens) another

/-- What a recognition reports is reported of every source that begins with the tokens it
pulled, and each is left behind these. -/
theorem recognizeFrom_local {σ : Type} [FiniteSource σ] (source : σ) (options : Options)
    (validator : Validator) :
    ∃ (report : Report) (lookahead : Token),
      ∀ {τ : Type} [FiniteSource τ] (other : τ),
        (∀ index < report.pulled, TokenSource.token source index = TokenSource.token other index) →
          recognizeFrom other options validator =
            ⟨report, lookahead, TokenSource.skip report.pulled other⟩ := by
  obtain ⟨tokens, recognizes⟩ := exists_recognizes source options validator
  refine ⟨(recognizeFrom source options validator).toReport,
    (recognizeFrom source options validator).lookahead, ?_⟩
  intro τ _ other same
  obtain ⟨others, run⟩ := exists_recognizes other options validator
  exact ((recognizes.elsewhere other same).unique run).2

theorem Agree.recognizeFrom {σ τ : Type} [FiniteSource σ] [FiniteSource τ] {source : σ}
    {other : τ} (agree : Agree source other) (options : Options) (validator : Validator) :
    (recognizeFrom source options validator).toReport =
        (TemplateRecognizer.recognizeFrom other options validator).toReport ∧
      Agree (TemplateRecognizer.recognizeFrom source options validator).source
        (TemplateRecognizer.recognizeFrom other options validator).source := by
  obtain ⟨report, lookahead, reported⟩ := recognizeFrom_local source options validator
  rw [reported source fun _ _ => rfl, reported other fun index _ => agree index]
  exact ⟨rfl, agree.skip report.pulled⟩

end TemplateRecognizer
