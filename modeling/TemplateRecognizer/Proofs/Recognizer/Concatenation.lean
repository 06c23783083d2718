import TemplateRecognizer.Proofs.Lexer.Concatenation
import TemplateRecognizer.Proofs.Recognizer.Correspondence
import TemplateRecognizer.Proofs.Recognizer.Levels
import TemplateRecognizer.Proofs.Recognizer.Locality

/-!
# Recognizing texts put together

A template is a row of tags, and a recognition that has reached the end of one stands where it
stood at its start: it waits for further tags, outside of every level.  So what is put behind an
accepted text is recognized as if it stood alone, its tokens being the same but for their
positions.
-/

set_option autoImplicit false

namespace TemplateRecognizer

section

variable {options : Options} {tokens others : Nat → Token} {stage next final last : Stage}
  {verdict reached : Except ParseError Unit}

/-! ## Between the tags of a template -/

def Symbol.EndsTag : Symbol → Prop
  | .phrase .tag | .openingName | .token .greaterThan _ => True
  | _ => False

theorem Symbol.EndsTag.kind_eq {kind : Kind} {visible : kind ≠ .eof}
    (ends : (Symbol.token kind visible).EndsTag) : kind = .greaterThan := by
  cases kind <;> first | rfl | cases ends

/-- Holds of the stages at which a tag of the outermost template is not complete. -/
def Stage.InTag (stage : Stage) : Prop :=
  ∃ front symbol, stage.pending = front ++ [symbol, .phrase .tags] ∧ symbol.EndsTag

/-- Inside a tag a recognition stays inside, or takes the greater-than sign that ends it. -/
theorem Stage.InTag.advances (inTag : stage.InTag) (advances : stage.Advances options tokens next) :
    next.InTag ∨
      next.pending = [.phrase .tags] ∧ next.taken = stage.taken + 1 ∧
        (tokens stage.taken).kind = .greaterThan := by
  obtain ⟨front, symbol, waiting, ends⟩ := inTag
  cases front with
  | nil =>
    cases advances with
    | token same =>
      cases waiting
      exact .inr ⟨rfl, rfl, same.trans ends.kind_eq⟩
    | openingName _ =>
      cases waiting
      exact .inl ⟨(Symbol.afterOpeningName _).dropLast, .token .greaterThan, rfl, trivial⟩
    | @phrase taken depth rest expansion phrase predicted =>
      cases waiting
      cases phrase with
      | tag =>
        cases predicted
        exact .inl ⟨[.token .lessThan], .openingName, rfl, trivial⟩
      | _ => cases ends
    | _ =>
      cases waiting
      cases ends
  | cons first front =>
    cases advances with
    | phrase _ =>
      cases waiting
      exact .inl ⟨_, symbol, (List.append_assoc ..).symm, ends⟩
    | openingName _ =>
      cases waiting
      exact .inl ⟨_, symbol, (List.append_assoc ..).symm, ends⟩
    | _ =>
      cases waiting
      exact .inl ⟨front, symbol, rfl, ends⟩

theorem Phrase.expand_tags_of_ne {ahead : Kind} (other : ahead ≠ .lessThan) :
    Phrase.tags.expand ahead = some [] := by
  cases ahead <;> first | rfl | exact absurd rfl other

theorem Stage.Advances.between_tags (advances : stage.Advances options tokens next)
    (waiting : stage.pending = [.phrase .tags]) :
    next.InTag ∨ next.pending = [] ∧ next.taken = stage.taken ∧ next.depth = stage.depth := by
  cases advances with
  | @phrase taken depth rest expansion phrase predicted =>
    cases waiting
    by_cases opens : (tokens taken).kind = .lessThan
    · rw [opens] at predicted
      cases predicted
      exact .inl ⟨[], .phrase .tag, rfl, trivial⟩
    · cases (Phrase.expand_tags_of_ne opens).symm.trans predicted
      exact .inr ⟨rfl, rfl, rfl⟩
  | _ => cases waiting

theorem Course.final_eq_of_closed (course : Course options tokens stage verdict final)
    (closed : stage.pending = []) : final = stage := by
  obtain ⟨taken, pending, depth⟩ := stage
  cases closed
  exact (course.of_halts .done).2

theorem Stage.InTag.not_halts (inTag : stage.InTag) :
    ¬ stage.Halts options tokens (.ok ()) final := by
  obtain ⟨front, symbol, waiting, _⟩ := inTag
  intro halts
  cases halts
  cases front <;> cases waiting

theorem Course.taken_lt (course : Course options tokens stage verdict final)
    (accepted : verdict = .ok ()) (inTag : stage.InTag) : stage.taken < final.taken := by
  induction course with
  | halts halts =>
    subst accepted
    exact absurd halts inTag.not_halts
  | advances advances course inductionHypothesis =>
    rcases inTag.advances advances with further | ⟨_, taken, _⟩
    · exact Nat.lt_of_le_of_lt advances.taken_le (inductionHypothesis accepted further)
    · have behind := course.taken_le
      omega

theorem Course.exists_closing (course : Course options tokens stage verdict final)
    (accepted : verdict = .ok ())
    (standing : stage.InTag ∨ stage.pending = [.phrase .tags] ∧
      ∃ closing, stage.taken = closing + 1 ∧ (tokens closing).kind = .greaterThan) :
    ∃ closing, final.taken = closing + 1 ∧ (tokens closing).kind = .greaterThan := by
  induction course with
  | @halts stage final verdict halts =>
    subst accepted
    rcases standing with inTag | ⟨waiting, _⟩
    · exact absurd halts inTag.not_halts
    · cases halts
      cases waiting
  | @advances stage next final verdict advances course inductionHypothesis =>
    rcases standing with inTag | ⟨waiting, closing⟩
    · rcases inTag.advances advances with further | ⟨waiting, taken, closes⟩
      · exact inductionHypothesis accepted (.inl further)
      · exact inductionHypothesis accepted (.inr ⟨waiting, stage.taken, taken, closes⟩)
    · rcases advances.between_tags waiting with further | ⟨closed, taken, _⟩
      · exact inductionHypothesis accepted (.inl further)
      · rw [course.final_eq_of_closed closed, taken]
        exact closing

/-- A course that has accepted tags goes on with what stands behind them, whatever that is. -/
theorem Course.goes_on (course : Course options tokens stage verdict final)
    (accepted : verdict = .ok ())
    (standing : stage.InTag ∨ stage.pending = [.phrase .tags])
    (same : ∀ index < final.taken, tokens index = others index)
    (further : Course options others ⟨final.taken, [.phrase .tags], final.depth⟩ reached last) :
    Course options others stage reached last := by
  induction course with
  | @halts stage final verdict halts =>
    subst accepted
    rcases standing with inTag | waiting
    · exact absurd halts inTag.not_halts
    · cases halts
      cases waiting
  | @advances stage next final verdict advances course inductionHypothesis =>
    rcases standing with inTag | waiting
    · have within := (Course.advances advances course).taken_lt accepted inTag
      refine .advances (advances.congr (same _ within)) ?_
      apply inductionHypothesis accepted _ same further
      exact (inTag.advances advances).imp id And.left
    · rcases advances.between_tags waiting with inTag | ⟨closed, taken, depth⟩
      · have within := Nat.lt_of_le_of_lt advances.taken_le (course.taken_lt accepted inTag)
        exact .advances (advances.congr (same _ within))
          (inductionHypothesis accepted (.inl inTag) same further)
      · -- The tags end here, and so this is where the other course goes on.
        rw [course.final_eq_of_closed closed, taken, depth, ← waiting] at further
        exact further

/-! ## Courses further on -/

def Stage.later (count : Nat) (stage : Stage) : Stage :=
  ⟨count + stage.taken, stage.pending, stage.depth⟩

theorem Stage.Advances.later {count : Nat}
    (advances : stage.Advances options (fun index => tokens (count + index)) next) :
    (stage.later count).Advances options tokens (next.later count) := by
  cases advances with
  | token same => exact .token same
  | openingName same => exact .openingName same
  | closingName same fits => exact .closingName same fits
  | enter shallow => exact .enter shallow
  | leave => exact .leave
  | phrase predicted => exact .phrase predicted

theorem Stage.Halts.later {count : Nat}
    (halts : stage.Halts options (fun index => tokens (count + index)) verdict final) :
    (stage.later count).Halts options tokens verdict (final.later count) := by
  cases halts with
  | done => exact .done
  | unexpected awaited wrong => exact .unexpected awaited wrong
  | mismatched strict same different => exact .mismatched strict same different
  | tooDeep deep => exact .tooDeep deep
  | unrecognized refused => exact .unrecognized refused

/-- What stands behind `count` tokens is recognized as if it stood alone. -/
theorem Course.later {count : Nat}
    (course : Course options (fun index => tokens (count + index)) stage verdict final) :
    Course options tokens (stage.later count) verdict (final.later count) := by
  induction course with
  | halts halts => exact .halts halts.later
  | advances advances _ inductionHypothesis => exact .advances advances.later inductionHypothesis

/-! ## Templates up to the end of input -/

/-- Says that `tokens` are tags, none or more, and the end of input behind them. -/
def TagsToEnd (options : Options) (tokens : Nat → Token) : Prop :=
  ∃ final, Course options tokens ⟨0, [.phrase .tags], 0⟩ (.ok ()) final ∧
    (tokens final.taken).kind = .eof

theorem TagsToEnd.congr (tags : TagsToEnd options tokens)
    (same : ∀ index, (tokens index).kind = (others index).kind ∧
      (tokens index).text = (others index).text) : TagsToEnd options others := by
  obtain ⟨final, course, ended⟩ := tags
  have names : SameNames tokens others := by
    intro first second _ _
    simp only [Token.textOrEmpty, (same _).2]
  obtain ⟨_, last, another, taken, verdicts⟩ := course.corresponds
    (fun index _ => (same index).1) (fun _ => names) (Stage.corresponds_start _ _)
  cases verdicts
  refine ⟨last, another, ?_⟩
  rw [taken, ← (same _).1]
  exact ended

/-- Behind tags there are tags up to the end just if there are when these stand alone. -/
theorem Course.tagsToEnd_iff {σ : Type} [FiniteSource σ] {front source : σ}
    (course : Course options (TokenSource.token front) ⟨0, [.phrase .tags], 0⟩ (.ok ()) final)
    (same : ∀ index < final.taken, TokenSource.token front index = others index)
    (behind : ∀ index, others (final.taken + index) = TokenSource.token source index) :
    TagsToEnd options others ↔ TagsToEnd options (TokenSource.token source) := by
  have outside : final.depth = 0 := by
    have kept := Machine.depth_run options (Stage.machine front ⟨0, [.phrase .tags], 0⟩)
      (by simp [Stage.machine, Symbol.staysLevel]) (Nat.zero_le _)
    rwa [course.run_machine] at kept
  have extended {reached : Except ParseError Unit} {last : Stage}
      (further : Course options (TokenSource.token source) ⟨0, [.phrase .tags], 0⟩ reached last) :
      Course options others ⟨0, [.phrase .tags], 0⟩ reached (last.later final.taken) := by
    rw [← funext behind] at further
    apply course.goes_on rfl (.inr rfl) same
    rw [outside]
    exact further.later
  constructor
  · rintro ⟨whole, wholeCourse, ended⟩
    obtain ⟨verdict, last, further⟩ :=
      Course.exists_of_source options source ⟨0, [.phrase .tags], 0⟩
    obtain ⟨rfl, rfl⟩ := wholeCourse.unique (extended further)
    exact ⟨last, further, behind last.taken ▸ ended⟩
  · rintro ⟨last, further, ended⟩
    exact ⟨last.later final.taken, extended further, (behind last.taken).symm ▸ ended⟩

end

section

variable {options : Options}

theorem tagsToEnd_iff (required : options.requireEndOfInput = true) (text : String)
    (validator : Validator) :
    TagsToEnd options (TokenSource.token (Lexer.ofString text)) ↔
      recognizeWith text options validator = .ok () ∨ Blank text.toList := by
  rw [recognizeWith, recognizeFrom_eq_ok_iff required, ← Lexer.ended_iff_blank]
  constructor
  · rintro ⟨final, course, ended⟩
    by_cases opens : (TokenSource.token (Lexer.ofString text) 0).kind = .lessThan
    · exact .inl ⟨opens, final, course, ended⟩
    · -- Without a tag the course is over before it has taken anything.
      have finished := course.of_advances (.phrase (Phrase.expand_tags_of_ne opens))
      rw [finished.final_eq_of_closed rfl] at ended
      exact .inr ended
  · rintro (⟨_, tags⟩ | ended)
    · exact tags
    · have nothing : Phrase.tags.expand (TokenSource.token (Lexer.ofString text) 0).kind =
          some [] := by
        rw [ended]
        rfl
      exact ⟨⟨0, [], 0⟩, .advances (.phrase nothing) (.halts .done), ended⟩

/-- Where the input must end, a text that is put behind an accepted one is accepted with it just
if it is accepted alone, or holds nothing but blanks. -/
theorem append_accepted_iff {front back : String} {validator : Validator}
    (required : options.requireEndOfInput = true)
    (accepted : recognizeWith front options validator = .ok ()) :
    recognizeWith (front ++ back) options validator = .ok () ↔
      recognizeWith back options validator = .ok () ∨
        ∀ character ∈ back.toList, character ∈ [' ', '\t', '\r', '\n'] := by
  have blank_iff : (∀ character ∈ back.toList, character ∈ [' ', '\t', '\r', '\n']) ↔
      Blank back.toList := by
    simp [Blank, Lexeme.isBlank, or_assoc]
  obtain ⟨opens, final, course, ended⟩ := (recognizeFrom_eq_ok_iff required validator).mp accepted
  obtain ⟨closing, taken, closes⟩ := (course.of_advances (.furtherTag opens)).exists_closing rfl
    (.inl ⟨[], .phrase .tag, rfl, trivial⟩)
  rw [taken] at ended
  obtain ⟨same, behind⟩ :=
    Lexer.token_append front.toList back.toList .start closing closes ended
  rw [← taken] at behind
  rw [← String.toList_append] at same behind
  have whole : TagsToEnd options (TokenSource.token (Lexer.ofString (front ++ back))) ↔
      TagsToEnd options (TokenSource.token
        (Lexer.mk back.toList (Position.start.after front.toList))) := by
    refine course.tagsToEnd_iff (fun index within => ?_) behind
    exact (same index (by omega)).symm
  have moved : TagsToEnd options (TokenSource.token
        (Lexer.mk back.toList (Position.start.after front.toList))) ↔
      TagsToEnd options (TokenSource.token (Lexer.ofString back)) :=
    ⟨fun tags => tags.congr (Lexer.token_moved back.toList _ _),
      fun tags => tags.congr (Lexer.token_moved back.toList _ _)⟩
  rw [blank_iff, ← tagsToEnd_iff required, ← moved, ← whole, recognizeWith,
    recognizeFrom_eq_ok_iff required]
  exact and_iff_right (same 0 (Nat.zero_le closing) ▸ opens)

/-- Behind a tag the same tag is accepted again, and a list, which could begin a block, is not. -/
theorem append_accepted_iff_tag_and_list :
    recognizeWith "<p></p>\n" .strict .acceptAll = .ok () ∧
      recognizeWith ("<p></p>\n" ++ "<p></p>\n") .strict .acceptAll = .ok () ∧
      recognizeWith ("<p></p>\n" ++ "[1]") .strict .acceptAll ≠ .ok () := by
  have course : Course .strict (TokenSource.token (Lexer.ofString "<p></p>\n"))
      ⟨0, [.phrase .tags], 0⟩ (.ok ()) ⟨7, [], 0⟩ :=
    .advances (.phrase rfl) (.advances (.phrase rfl) (.advances (.token rfl)
      (.advances (.openingName rfl) (.advances (.token rfl) (.advances (.phrase rfl)
        (.advances (.token rfl) (.advances (.token rfl)
          (.advances (.closingName rfl fun _ => rfl) (.advances (.token rfl)
            (.advances (.phrase rfl) (.halts .done)))))))))))
  have accepted : recognizeWith "<p></p>\n" .strict .acceptAll = .ok () :=
    (recognizeFrom_eq_ok_iff rfl .acceptAll).mpr ⟨rfl, _, course, rfl⟩
  refine ⟨accepted, (append_accepted_iff rfl accepted).mpr (.inl accepted), ?_⟩
  intro both
  rcases (append_accepted_iff rfl accepted).mp both with alone | blank
  · cases ((recognizeFrom_eq_ok_iff rfl .acceptAll).mp alone).1
  · exact absurd (blank '1' (by decide)) (by decide)

end

end TemplateRecognizer
