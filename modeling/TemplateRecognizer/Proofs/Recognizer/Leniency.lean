import TemplateRecognizer.Proofs.Recognizer.Course

/-!
# Recognitions under more lenient options

Options never add a move.  Whatever a recognition does under tighter options it does under
more lenient ones too, up to the first place where the tighter options end it by themselves:
at one level too many, or at a closing tag of another name.
-/

set_option autoImplicit false

namespace TemplateRecognizer

/-- `options.Tighter others` says that `options` let nothing pass that `others` do not. -/
structure Options.Tighter (options others : Options) : Prop where
  depth : options.maxDepth ≤ others.maxDepth
  names : others.strictTagNames = true → options.strictTagNames = true

inductive Options.Excludes (options others : Options) : ParseError → Prop
  | tooDeep {position : Position} :
      options.maxDepth < others.maxDepth →
        Excludes options others (.nestingTooDeep options.maxDepth position)
  | mismatched {opening closing : String} {position : Position} :
      options.strictTagNames = true → others.strictTagNames = false →
        Excludes options others (.mismatchedTag opening closing position)

section

variable {options others : Options} {tokens : Nat → Token} {stage next final : Stage}
  {verdict : Except ParseError Unit}

theorem Stage.Advances.relax (advances : stage.Advances options tokens next)
    (tighter : options.Tighter others) : stage.Advances others tokens next := by
  cases advances with
  | token same => exact .token same
  | openingName same => exact .openingName same
  | closingName same fits => exact .closingName same fun strict => fits (tighter.names strict)
  | enter shallow => exact .enter (Nat.lt_of_lt_of_le shallow tighter.depth)
  | leave => exact .leave
  | phrase predicted => exact .phrase predicted

theorem Stage.Halts.relax (halts : stage.Halts options tokens verdict final)
    (tighter : options.Tighter others) :
    stage.Halts others tokens verdict final ∨
      ∃ error, verdict = .error error ∧ options.Excludes others error ∧
        ∀ {other : Except ParseError Unit} {last : Stage},
          Course others tokens stage other last → final.taken ≤ last.taken := by
  cases halts with
  | done => exact .inl .done
  | unexpected awaited wrong => exact .inl (.unexpected awaited wrong)
  | @mismatched taken depth rest opening strict same different =>
    by_cases strictToo : others.strictTagNames = true
    · exact .inl (.mismatched strictToo same different)
    · rw [Bool.not_eq_true] at strictToo
      -- The name is taken before it is refused; whoever lets it stand takes it as well.
      refine .inr ⟨_, rfl, .mismatched strict strictToo, ?_⟩
      intro other last course
      have advances : (Stage.mk taken (.closingName opening :: rest) depth).Advances others tokens
          ⟨taken + 1, rest, depth⟩ :=
        .closingName same fun absurdly => by simp [strictToo] at absurdly
      exact (course.of_advances advances).taken_le
  | @tooDeep taken depth rest deep =>
    by_cases same : options.maxDepth = others.maxDepth
    · rw [same] at deep ⊢
      exact .inl (.tooDeep deep)
    · have deeper : options.maxDepth < others.maxDepth := Nat.lt_of_le_of_ne tighter.depth same
      exact .inr ⟨_, rfl, .tooDeep deeper, fun course => course.taken_le⟩
  | unrecognized refused => exact .inl (.unrecognized refused)

/-- A course under tighter options is one under the others, unless the tighter ones end it
by themselves; and then it ends no later. -/
theorem Course.relax (course : Course options tokens stage verdict final)
    (tighter : options.Tighter others) :
    Course others tokens stage verdict final ∨
      ∃ error, verdict = .error error ∧ options.Excludes others error ∧
        ∀ {other : Except ParseError Unit} {last : Stage},
          Course others tokens stage other last → final.taken ≤ last.taken := by
  induction course with
  | halts halts =>
    rcases halts.relax tighter with same | excluded
    · exact .inl (.halts same)
    · exact .inr excluded
  | advances advances _ inductionHypothesis =>
    have another := advances.relax tighter
    rcases inductionHypothesis with same | ⟨error, failed, excludes, later⟩
    · exact .inl (.advances another same)
    · exact .inr ⟨error, failed, excludes, fun course => later (course.of_advances another)⟩

end

end TemplateRecognizer
