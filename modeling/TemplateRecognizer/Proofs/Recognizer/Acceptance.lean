import TemplateRecognizer.Proofs.Grammar.Coverage
import TemplateRecognizer.Proofs.Recognizer.Reading

/-!
# What is accepted

A recognition accepts exactly what the grammar derives.  What is derived is
read, and what a course has read, put before anything that the stage at its end
stands for, is covered by the stage it began at.
-/

set_option autoImplicit false

namespace TemplateRecognizer

/-! ## What was read is covered -/

/-- What one step reads, put before anything the next stage stands for, is what
the stage stands for. -/
theorem Stage.Advances.covers {options : Options} {tokens : Nat → Token} {stage next : Stage}
    (advances : stage.Advances options tokens next) :
    ∃ read, KindsAt tokens stage.taken read ∧ next.taken = stage.taken + read.length ∧
      ∀ limit kinds, options.maxDepth ≤ limit → Covers limit next.depth next.pending kinds →
        Covers limit stage.depth stage.pending (read ++ kinds) := by
  cases advances with
  | @token taken depth rest kind visible same =>
    exact ⟨[kind], by simpa using same, rfl, fun limit kinds _ covered => ⟨kinds, rfl, covered⟩⟩
  | openingName same =>
    exact ⟨[.identifier], by simpa using same, rfl, fun limit kinds _ => covers_openingName⟩
  | closingName same _ =>
    exact ⟨[.identifier], by simpa using same, rfl,
      fun limit kinds _ covered => ⟨kinds, rfl, covered⟩⟩
  | enter shallow =>
    exact ⟨[], trivial, rfl,
      fun limit kinds enough covered => ⟨Nat.lt_of_lt_of_le shallow enough, covered⟩⟩
  | leave => exact ⟨[], trivial, rfl, fun limit kinds _ covered => covered⟩
  | phrase predicted =>
    exact ⟨[], trivial, rfl, fun limit kinds _ => covers_phrase predicted⟩

theorem Course.exists_end {options : Options} {tokens : Nat → Token} {stage final : Stage}
    {verdict : Except ParseError Unit} (course : Course options tokens stage verdict final) :
    ∃ (last : Stage) (read : List Kind), last.Halts options tokens verdict final ∧
      KindsAt tokens stage.taken read ∧
      last.taken = stage.taken + read.length ∧
      ∀ limit kinds, options.maxDepth ≤ limit → Covers limit last.depth last.pending kinds →
        Covers limit stage.depth stage.pending (read ++ kinds) := by
  induction course with
  | @halts stage final verdict halts =>
    exact ⟨stage, [], halts, trivial, rfl, fun limit kinds _ covered => covered⟩
  | advances advances _ inductionHypothesis =>
    obtain ⟨first, hereFirst, movedFirst, coversFirst⟩ := advances.covers
    obtain ⟨last, read, halts, here, moved, covers⟩ := inductionHypothesis
    refine ⟨last, first ++ read, halts, ?_, ?_, ?_⟩
    · rw [kindsAt_append, ← movedFirst]
      exact ⟨hereFirst, here⟩
    · rw [moved, movedFirst, List.length_append, Nat.add_assoc]
    · intro limit kinds enough covered
      rw [List.append_assoc]
      exact coversFirst limit _ enough (covers limit kinds enough covered)

/-! ## Templates -/

section Templates

variable {σ : Type} [FiniteSource σ] {options : Options} {source : σ}

/-- Says that the next `count` tokens of `source` are a template that opens at
most `levels` levels inside one another, and that no further tag follows it. -/
def TemplateAhead (source : σ) (levels count : Nat) : Prop :=
  Derives .template levels ((TokenSource.upcoming count source).map Token.kind) ∧
    (TokenSource.token source count).kind ≠ .lessThan

theorem Derives.exists_eq_cons_of_template {levels : Nat} {kinds : List Kind}
    (derived : Derives .template levels kinds) : ∃ rest, kinds = .lessThan :: rest := by
  generalize same : Category.template = category at derived
  induction derived with
  | oneTag tag _ => exact tag.exists_eq_cons_of_tag
  | anotherTag _ _ tags _ =>
    obtain ⟨rest, rfl⟩ := tags same
    exact ⟨_, rfl⟩
  | _ => cases same

theorem TemplateAhead.course (permissive : options.strictTagNames = false) {count : Nat}
    (ahead : TemplateAhead source options.maxDepth count) :
    (TokenSource.token source 0).kind = .lessThan ∧
      Course options (TokenSource.token source) ⟨0, [.phrase .tags], 0⟩ (.ok ())
        ⟨count, [], 0⟩ := by
  obtain ⟨derived, ended⟩ := ahead
  have here := kindsAt_upcoming source count
  have opens : (TokenSource.token source 0).kind = .lessThan := by
    obtain ⟨rest, same⟩ := derived.exists_eq_cons_of_template
    rw [same] at here
    exact here.1
  have reads : Category.template.Reads options (TokenSource.token source) options.maxDepth _ :=
    derived.reads permissive
  refine ⟨opens, .advances (.furtherTag opens) ?_⟩
  refine reads.closed here (by simp) ?_ (Nat.le_of_eq (Nat.zero_add _)) (.halts .done)
  simpa [Category.binding, Category.extending] using ended

/-- Holds of the stages of a template: tags are waited for last of all, or nothing
is and no further tag follows. -/
def Stage.Rooted (tokens : Nat → Token) (stage : Stage) : Prop :=
  (∃ front, stage.pending = front ++ [.phrase .tags]) ∨
    stage.pending = [] ∧ (tokens stage.taken).kind ≠ .lessThan

theorem Stage.Rooted.advances {tokens : Nat → Token} {stage next : Stage}
    (rooted : stage.Rooted tokens) (advances : stage.Advances options tokens next) :
    next.Rooted tokens := by
  have behind {symbol : Symbol} {taken depth : Nat} {rest : List Symbol}
      (rooted : Rooted tokens ⟨taken, symbol :: rest, depth⟩) :
      (symbol = .phrase .tags ∧ rest = []) ∨ ∃ front, rest = front ++ [.phrase .tags] := by
    rcases rooted with ⟨front, same⟩ | ⟨ended, _⟩
    · cases front with
      | nil =>
        cases same
        exact .inl ⟨rfl, rfl⟩
      | cons _ front =>
        cases same
        exact .inr ⟨front, rfl⟩
    · cases ended
  cases advances with
  | token _ => exact .inl ((behind rooted).resolve_left (by simp))
  | openingName _ =>
    obtain ⟨front, rfl⟩ := (behind rooted).resolve_left (by simp)
    exact .inl ⟨_, (List.append_assoc ..).symm⟩
  | closingName _ _ => exact .inl ((behind rooted).resolve_left (by simp))
  | enter _ => exact .inl ((behind rooted).resolve_left (by simp))
  | leave => exact .inl ((behind rooted).resolve_left (by simp))
  | phrase predicted =>
    rcases behind rooted with ⟨same, rfl⟩ | ⟨front, rfl⟩
    · cases same
      simp only [Phrase.expand] at predicted
      split at predicted
      · cases predicted
        exact .inl ⟨[.phrase .tag], rfl⟩
      · rename_i other
        cases predicted
        exact .inr ⟨rfl, other⟩
    · exact .inl ⟨_, (List.append_assoc ..).symm⟩

theorem Course.rooted {tokens : Nat → Token} {stage final : Stage}
    {verdict : Except ParseError Unit} (course : Course options tokens stage verdict final)
    (rooted : stage.Rooted tokens) (accepted : verdict = .ok ()) :
    (tokens final.taken).kind ≠ .lessThan := by
  induction course with
  | halts halts =>
    cases halts with
    | done => exact (rooted.resolve_left fun ⟨_, same⟩ => by simp at same).2
    | _ => cases accepted
  | advances advances _ inductionHypothesis =>
    exact inductionHypothesis (rooted.advances advances) accepted

/-- What a recognition has read of a template, put before anything that is still
waited for at its end, is a template. -/
theorem Course.exists_end_of_template {verdict : Except ParseError Unit} {final : Stage}
    (opens : (TokenSource.token source 0).kind = .lessThan)
    (course : Course options (TokenSource.token source) ⟨0, [.phrase .tags], 0⟩ verdict final) :
    ∃ last : Stage, last.Halts options (TokenSource.token source) verdict final ∧
      ∀ limit kinds, options.maxDepth ≤ limit → Covers limit last.depth last.pending kinds →
        Derives .template limit
          ((TokenSource.upcoming last.taken source).map Token.kind ++ kinds) := by
  -- `tags` may be empty and a template may not, so that the first tag is split off.
  obtain ⟨last, read, halts, here, moved, covers⟩ :=
    (course.of_advances (.furtherTag opens)).exists_end
  refine ⟨last, halts, ?_⟩
  intro limit kinds enough covered
  obtain ⟨tag, _, split, derivedTag, tags, _, rfl, extended, rfl⟩ :=
    covers limit kinds enough covered
  have counted : last.taken = read.length := by
    rw [moved]
    exact Nat.zero_add _
  have same : (TokenSource.upcoming last.taken source).map Token.kind = read :=
    (kindsAt_upcoming source _).eq_of_length_eq here (by simp [counted])
  rw [same, split, List.append_nil]
  exact extended tag (.oneTag derivedTag)

/-- A course that accepts has read a template, and ends before a token that opens
no further tag. -/
theorem Course.templateAhead {final : Stage}
    (opens : (TokenSource.token source 0).kind = .lessThan)
    (course : Course options (TokenSource.token source) ⟨0, [.phrase .tags], 0⟩ (.ok ()) final) :
    TemplateAhead source options.maxDepth final.taken := by
  refine ⟨?_, course.rooted (.inl ⟨[], rfl⟩) rfl⟩
  obtain ⟨last, halts, derives⟩ := course.exists_end_of_template opens
  cases halts with
  | done =>
    have derived := derives options.maxDepth [] (Nat.le_refl _) rfl
    rwa [List.append_nil] at derived

theorem TemplateAhead.pos {levels count : Nat} (ahead : TemplateAhead source levels count) :
    0 < count := by
  obtain ⟨rest, same⟩ := ahead.1.exists_eq_cons_of_template
  have counted : ((TokenSource.upcoming count source).map Token.kind).length = count := by simp
  rw [same, List.length_cons] at counted
  omega

theorem TemplateAhead.recognizeFrom_eq {levels count : Nat}
    (ahead : TemplateAhead source levels count) (validator : Validator) :
    recognizeFrom source ⟨false, false, levels⟩ validator =
      ⟨⟨.ok (), count + 1, []⟩, TokenSource.token source count,
        TokenSource.skip (count + 1) source⟩ := by
  have course := TemplateAhead.course (rfl : (Options.mk false false levels).strictTagNames = false)
    ahead
  rw [recognizeFrom_of_course course.1 course.2, Recognition.checkEnd_of_optional rfl]

omit [FiniteSource σ] in
theorem accepted_recognizeBlock (validator : Validator) (first : Token) :
    (recognizeBlock validator first source).accepted = validator "block" := by
  have name : Construct.block.tag = "block" := rfl
  simp only [recognizeBlock, name]
  cases validator "block" with
  | true => rfl
  | false => rfl

end Templates

/-- With both checks off, a recognition accepts the blocks that the validator lets
stand and the templates of the grammar.  A template is read up to its only end,
and the validator is asked about nothing but a block. -/
theorem accepts_exactly_grammar {σ : Type} [FiniteSource σ] (source : σ) (maxDepth : Nat)
    (validator : Validator) :
    let options : Options := ⟨false, false, maxDepth⟩
    let recognition := recognizeFrom source options validator
    let first := (TokenSource.token source 0).kind
    (recognition.accepted = true ↔
      (first = .openBracket ∧ validator "block" = true) ∨
        ∃ count, 0 < count ∧ TemplateAhead source maxDepth count) ∧
    (∀ count, TemplateAhead source maxDepth count →
      recognition.pulled = count + 1 ∧ recognition.lookahead = TokenSource.token source count ∧
        recognition.source = TokenSource.skip (count + 1) source ∧
        ∀ other, TemplateAhead source maxDepth other → other = count) ∧
    recognition.asked = (if first = .openBracket then ["block"] else []) ∧
    (first ≠ .openBracket → ∀ other, recognizeFrom source options other = recognition) := by
  intro options recognition first
  have optional : options.requireEndOfInput = false := rfl
  have opening : ∀ count, TemplateAhead source maxDepth count → first = .lessThan := by
    intro count ahead
    exact (TemplateAhead.course (rfl : options.strictTagNames = false) ahead).1
  have only : ∀ count, TemplateAhead source maxDepth count →
      recognition.pulled = count + 1 ∧ recognition.lookahead = TokenSource.token source count ∧
        recognition.source = TokenSource.skip (count + 1) source ∧
        ∀ other, TemplateAhead source maxDepth other → other = count := by
    intro count ahead
    have reported := ahead.recognizeFrom_eq validator
    change recognition = _ at reported
    refine ⟨by rw [reported], by rw [reported], by rw [reported], ?_⟩
    intro other another
    have pulled := congrArg (fun recognition => recognition.pulled)
      (reported.symm.trans (another.recognizeFrom_eq validator))
    exact (Nat.succ.inj pulled).symm
  by_cases block : first = .openBracket
  · have reported := recognizeFrom_of_openBracket options block validator
    rw [Recognition.checkEnd_of_optional optional] at reported
    change recognition = _ at reported
    refine ⟨?_, only, ?_, fun noBlock => absurd block noBlock⟩
    · rw [reported, accepted_recognizeBlock]
      constructor
      · intro accepted
        exact .inl ⟨block, accepted⟩
      · rintro (⟨_, accepted⟩ | ⟨count, _, ahead⟩)
        · exact accepted
        · cases block.symm.trans (opening count ahead)
    · rw [if_pos block, reported]
      rfl
  · rw [if_neg block]
    by_cases opens : first = .lessThan
    · obtain ⟨verdict, final, course⟩ :=
        Course.exists_of_source options source ⟨0, [.phrase .tags], 0⟩
      have reported := recognizeFrom_of_course opens course
      rw [Recognition.checkEnd_of_optional optional] at reported
      have here : recognition = _ := reported validator
      refine ⟨?_, only, by rw [here], fun _ other => (reported other).trans here.symm⟩
      constructor
      · intro accepted
        rw [here] at accepted
        cases verdict with
        | error error => cases accepted
        | ok _ =>
          have ahead : TemplateAhead source maxDepth final.taken := course.templateAhead opens
          exact .inr ⟨final.taken, ahead.pos, ahead⟩
      · rintro (⟨block', _⟩ | ⟨count, _, ahead⟩)
        · exact absurd block' block
        · have read : recognition = _ := ahead.recognizeFrom_eq validator
          rw [read]
          rfl
    · have reported := recognizeFrom_of_noRoot options block opens
      have here : recognition = _ := reported validator
      refine ⟨?_, only, by rw [here]; rfl, fun _ other => (reported other).trans here.symm⟩
      constructor
      · intro accepted
        rw [here] at accepted
        cases accepted
      · rintro (⟨block', _⟩ | ⟨count, _, ahead⟩)
        · exact absurd block' block
        · exact absurd (opening count ahead) opens

end TemplateRecognizer
