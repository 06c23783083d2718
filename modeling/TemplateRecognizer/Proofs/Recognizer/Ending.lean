import TemplateRecognizer.Proofs.Recognizer.Course

/-!
# Recognitions that end

On a source that never ends a recognition may not end either, and where it does is a matter
of the tokens.  This module says of any source which recognitions end, how, and what they have
matched by then.  On a finite source these are the recognitions that are run.

Whatever a recognition comes to, it has pulled one token more than it matched.
-/

set_option autoImplicit false

namespace TemplateRecognizer

/-! ## Machines that halt -/

namespace Machine

variable {σ : Type} [TokenSource σ]

/-- The lookahead, if the machine waits for a token of its kind. -/
def matched (machine : Machine σ) : List Token :=
  match machine.pending with
  | symbol :: _ =>
    if symbol.awaited? = some machine.lookahead.kind then [machine.lookahead] else []
  | [] => []

/-- `Ends options machine tokens verdict final` says that a machine halts with `verdict` as
`final`, and that `tokens` are what it has matched by then. -/
inductive Ends (options : Options) :
    Machine σ → List Token → Except ParseError Unit → Machine σ → Prop where
  | halted {machine final : Machine σ} {verdict : Except ParseError Unit} :
      step options machine = .halted verdict final →
        Ends options machine machine.matched verdict final
  | moved {machine next final : Machine σ} {tokens : List Token}
      {verdict : Except ParseError Unit} :
      step options machine = .moved next → Ends options next tokens verdict final →
        Ends options machine (machine.matched ++ tokens) verdict final

end Machine

section

variable {σ : Type} [TokenSource σ] {options : Options} {source : σ} {stage next final : Stage}
  {verdict : Except ParseError Unit}

theorem Stage.Advances.matched
    (advances : stage.Advances options (TokenSource.token source) next) :
    (stage.machine source).matched =
      between (TokenSource.token source) stage.taken next.taken := by
  cases advances with
  | token same =>
    rw [between_succ]
    exact if_pos (congrArg some same.symm)
  | openingName same =>
    rw [between_succ]
    exact if_pos (congrArg some same.symm)
  | closingName same _ =>
    rw [between_succ]
    exact if_pos (congrArg some same.symm)
  | _ =>
    rw [between_self]
    rfl

theorem Stage.Halts.matched
    (halts : stage.Halts options (TokenSource.token source) verdict final) :
    (stage.machine source).matched =
      between (TokenSource.token source) stage.taken final.taken := by
  cases halts with
  | unexpected awaited wrong =>
    rw [abandon, between_self]
    refine if_neg ?_
    rw [awaited, Option.some.injEq]
    exact Ne.symm wrong
  | mismatched _ same _ =>
    rw [abandon, between_succ]
    exact if_pos (congrArg some same.symm)
  | _ =>
    simp only [abandon, between_self]
    rfl

/-- The machine at a stage halts as the course of the stage does, and has matched the tokens
between its two ends. -/
theorem Course.ends (course : Course options (TokenSource.token source) stage verdict final) :
    Machine.Ends options (stage.machine source)
      (between (TokenSource.token source) stage.taken final.taken) verdict
      (final.machine source) := by
  induction course with
  | halts halts =>
    rw [← halts.matched]
    exact .halted halts.step_machine
  | advances advances course inductionHypothesis =>
    rw [← between_append _ advances.taken_le course.taken_le, ← advances.matched]
    exact .moved advances.step_machine inductionHypothesis

theorem Machine.Ends.exists_course {machine last : Machine σ} {tokens : List Token}
    (ends : Ends options machine tokens verdict last) :
    ∀ stage : Stage, machine = stage.machine source →
      ∃ final, Course options (TokenSource.token source) stage verdict final ∧
        last = final.machine source ∧
        tokens = between (TokenSource.token source) stage.taken final.taken := by
  induction ends with
  | halted halted =>
    rintro stage rfl
    rcases stage.advances_or_halts options (TokenSource.token source) with
      ⟨next, advances⟩ | ⟨reached, final, halts⟩
    · cases advances.step_machine.symm.trans halted
    · cases halts.step_machine.symm.trans halted
      exact ⟨final, .halts halts, rfl, halts.matched⟩
  | moved moved _ inductionHypothesis =>
    rintro stage rfl
    rcases stage.advances_or_halts options (TokenSource.token source) with
      ⟨next, advances⟩ | ⟨reached, final, halts⟩
    · cases advances.step_machine.symm.trans moved
      obtain ⟨final, course, rfl, rfl⟩ := inductionHypothesis next rfl
      refine ⟨final, .advances advances course, rfl, ?_⟩
      rw [advances.matched]
      exact between_append _ advances.taken_le course.taken_le
    · cases halts.step_machine.symm.trans moved

end

/-! ## Recognitions that end -/

/-- `Recognizes options validator source tokens recognition` says that a recognition of what
`source` hands out ends as `recognition`, and that `tokens` are what it has matched. -/
inductive Recognizes {σ : Type} [TokenSource σ] (options : Options) (validator : Validator)
    (source : σ) : List Token → Recognition σ → Prop where
  | atOnce :
      (TokenSource.token source 0).kind ≠ .lessThan →
        Recognizes options validator source []
          ((recognizeAtOnce validator (TokenSource.token source 0)
            (TokenSource.skip 1 source)).checkEnd options)
  | template {tokens : List Token} {verdict : Except ParseError Unit} {final : Machine σ} :
      (TokenSource.token source 0).kind = .lessThan →
        Machine.Ends options (Machine.start source [.phrase .tags]) tokens verdict final →
          Recognizes options validator source tokens
            (Recognition.checkEnd options
              ⟨⟨verdict, final.pulled, []⟩, final.lookahead, final.source⟩)

section

variable {σ : Type} [TokenSource σ] {options : Options} {validator : Validator} {source : σ}
  {tokens : List Token} {recognition : Recognition σ}

theorem Recognizes.of_course {verdict : Except ParseError Unit} {final : Stage}
    (opens : (TokenSource.token source 0).kind = .lessThan)
    (course : Course options (TokenSource.token source) ⟨0, [.phrase .tags], 0⟩ verdict final) :
    Recognizes options validator source (between (TokenSource.token source) 0 final.taken)
      (Recognition.checkEnd options ⟨⟨verdict, final.taken + 1, []⟩,
        TokenSource.token source final.taken, TokenSource.skip (final.taken + 1) source⟩) :=
  .template opens course.ends

theorem Recognizes.decided (recognizes : Recognizes options validator source tokens recognition) :
    ((TokenSource.token source 0).kind ≠ .lessThan ∧ tokens = [] ∧
      recognition = (recognizeAtOnce validator (TokenSource.token source 0)
        (TokenSource.skip 1 source)).checkEnd options) ∨
    (TokenSource.token source 0).kind = .lessThan ∧
      ∃ verdict final,
        Course options (TokenSource.token source) ⟨0, [.phrase .tags], 0⟩ verdict final ∧
        tokens = between (TokenSource.token source) 0 final.taken ∧
        recognition = Recognition.checkEnd options ⟨⟨verdict, final.taken + 1, []⟩,
          TokenSource.token source final.taken, TokenSource.skip (final.taken + 1) source⟩ := by
  cases recognizes with
  | atOnce other => exact .inl ⟨other, rfl, rfl⟩
  | template opens ends =>
    obtain ⟨final, course, rfl, rfl⟩ := ends.exists_course ⟨0, [.phrase .tags], 0⟩ rfl
    exact .inr ⟨opens, _, final, course, rfl, rfl⟩

/-- A recognition has matched all the tokens it pulled but the last, and left its source
behind them. -/
theorem Recognizes.pulls (recognizes : Recognizes options validator source tokens recognition) :
    recognition.source = TokenSource.skip recognition.pulled source ∧
      tokens ++ [recognition.lookahead] = TokenSource.upcoming recognition.pulled source := by
  rcases recognizes.decided with ⟨_, rfl, rfl⟩ | ⟨_, verdict, final, _, rfl, rfl⟩
  · rw [Recognition.pulled_checkEnd, pulled_recognizeAtOnce, Recognition.source_checkEnd,
      Recognition.lookahead_checkEnd, recognizeAtOnce_eq]
    exact ⟨rfl, rfl⟩
  · rw [Recognition.pulled_checkEnd, Recognition.source_checkEnd, Recognition.lookahead_checkEnd,
      TokenSource.upcoming_succ, TokenSource.upcoming_eq_between]
    exact ⟨rfl, rfl⟩

theorem Recognizes.unique {others : List Token} {another : Recognition σ}
    (recognizes : Recognizes options validator source tokens recognition)
    (again : Recognizes options validator source others another) :
    others = tokens ∧ another = recognition := by
  rcases recognizes.decided with ⟨noTemplate, rfl, rfl⟩ | ⟨opens, verdict, final, course, rfl, rfl⟩
  · rcases again.decided with ⟨_, rfl, rfl⟩ | ⟨opens, _⟩
    · exact ⟨rfl, rfl⟩
    · exact absurd opens noTemplate
  · rcases again.decided with ⟨noTemplate, _⟩ | ⟨_, other, last, course', rfl, rfl⟩
    · exact absurd opens noTemplate
    · obtain ⟨rfl, rfl⟩ := course.unique course'
      exact ⟨rfl, rfl⟩

end

theorem exists_recognizes {σ : Type} [FiniteSource σ] (source : σ) (options : Options)
    (validator : Validator) :
    ∃ tokens, Recognizes options validator source tokens
      (recognizeFrom source options validator) := by
  by_cases opens : (TokenSource.token source 0).kind = .lessThan
  · obtain ⟨verdict, final, course⟩ :=
      Course.exists_of_source options source ⟨0, [.phrase .tags], 0⟩
    rw [recognizeFrom_of_course opens course]
    exact ⟨_, .of_course opens course⟩
  · rw [recognizeFrom_of_noTemplate options opens]
    exact ⟨[], .atOnce opens⟩

end TemplateRecognizer
