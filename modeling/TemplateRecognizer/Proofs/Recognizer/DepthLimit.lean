import Mathlib.Data.Nat.Find
import TemplateRecognizer.Proofs.Grammar.Pending
import TemplateRecognizer.Proofs.Recognizer.Leniency

/-!
# The depth limit is a cut-off

Every level that a recognition opens begins with a token, and so as many levels as there are
tokens are always enough.  Below the number of levels that a text needs, a recognition ends
where it would open one too many, and from this number on the limit makes no difference.
-/

set_option autoImplicit false

namespace TemplateRecognizer

/-! ## Levels are backed by tokens -/

/-- Moves between having and not having taken a token that backs no open level. -/
def Symbol.Backs : Symbol → Bool → Bool → Prop
  | .token _ _, _, spare | .openingName, _, spare | .closingName _, _, spare
  | .phrase .tag, _, spare => spare = true
  | .enter, before, spare => before = true ∧ spare = false
  | .leave, before, spare | .phrase _, before, spare => before = true ∧ spare = true

theorem Phrase.leads_backs {phrase : Phrase} {ahead : Kind} {expansion : List Symbol}
    {before after : Bool} (backs : (Symbol.phrase phrase).Backs before after)
    (predicted : phrase.expand ahead = some expansion) :
    Leads Symbol.Backs expansion before after := by
  cases phrase
  case tag =>
    cases predicted
    exact ⟨true, rfl, true, rfl, backs.symm⟩
  all_goals
    obtain ⟨rfl, rfl⟩ := backs
    simp only [expand] at predicted
    first
      | (split at predicted <;> cases predicted <;> simp [Leads, Symbol.Backs])
      | (cases predicted; simp [Leads, Symbol.Backs])

/-- Holds of the stages at which every open level began with a token of its own, and one
token more was taken before another level opens. -/
def Stage.Backed (stage : Stage) : Prop :=
  ∃ spare finish, Leads Symbol.Backs stage.pending spare finish ∧
    stage.depth + spare.toNat ≤ stage.taken

section

variable {options : Options} {tokens : Nat → Token} {stage next final : Stage}
  {verdict : Except ParseError Unit}

theorem Stage.Backed.advances (backed : stage.Backed)
    (advances : stage.Advances options tokens next) : next.Backed := by
  obtain ⟨spare, finish, leads, enough⟩ := backed
  have taken : stage.depth + 1 ≤ stage.taken + 1 := by omega
  cases advances with
  | token _ =>
    obtain ⟨_, rfl, rest⟩ := leads
    exact ⟨true, finish, rest, taken⟩
  | openingName _ =>
    obtain ⟨_, rfl, rest⟩ := leads
    refine ⟨true, finish, ?_, taken⟩
    exact ⟨_, rfl, _, ⟨rfl, rfl⟩, _, rfl, _, rfl, _, rfl, _, rfl, rest⟩
  | closingName _ _ =>
    obtain ⟨_, rfl, rest⟩ := leads
    exact ⟨true, finish, rest, taken⟩
  | enter _ =>
    obtain ⟨_, ⟨rfl, rfl⟩, rest⟩ := leads
    exact ⟨false, finish, rest, enough⟩
  | leave =>
    obtain ⟨_, ⟨rfl, rfl⟩, rest⟩ := leads
    refine ⟨true, finish, rest, ?_⟩
    dsimp only at enough ⊢
    omega
  | phrase predicted =>
    obtain ⟨_, backs, rest⟩ := leads
    exact ⟨spare, finish, (Phrase.leads_backs backs predicted).append rest, enough⟩

/-- A recognition stopped by the depth limit has taken more tokens than it opened levels. -/
theorem Course.lt_taken_of_tooDeep {limit : Nat} {position : Position}
    (course : Course options tokens stage verdict final) (backed : stage.Backed)
    (deep : verdict = .error (.nestingTooDeep limit position)) :
    limit = options.maxDepth ∧ limit < final.taken := by
  induction course with
  | halts halts =>
    cases halts with
    | tooDeep reached =>
      cases deep
      obtain ⟨_, _, ⟨_, ⟨rfl, _⟩, _⟩, enough⟩ := backed
      exact ⟨rfl, Nat.lt_of_lt_of_le (Nat.lt_succ_of_le reached) enough⟩
    | _ => cases deep
  | advances advances _ inductionHypothesis =>
    exact inductionHypothesis (backed.advances advances) deep

theorem Stage.Advances.taken_eq_or (advances : stage.Advances options tokens next) :
    next.taken = stage.taken ∨
      next.taken = stage.taken + 1 ∧ (tokens stage.taken).kind ≠ .eof := by
  cases advances with
  | @token _ _ _ kind visible same => exact .inr ⟨rfl, same ▸ visible⟩
  | openingName same => exact .inr ⟨rfl, by simp [same]⟩
  | closingName same _ => exact .inr ⟨rfl, by simp [same]⟩
  | _ => exact .inl rfl

theorem Course.taken_le_of_ended {count : Nat}
    (course : Course options tokens stage verdict final) (ended : (tokens count).kind = .eof)
    (before : stage.taken ≤ count) : final.taken ≤ count := by
  induction course with
  | halts halts =>
    cases halts with
    | @mismatched taken _ _ _ _ same _ =>
      have other : taken ≠ count := by
        rintro rfl
        simp [same] at ended
      dsimp only [Stage.abandon] at before ⊢
      omega
    | _ => exact before
  | @advances stage next final verdict advances _ inductionHypothesis =>
    apply inductionHypothesis
    rcases advances.taken_eq_or with same | ⟨further, visible⟩
    · omega
    · have other : stage.taken ≠ count := by
        rintro same
        exact visible (same ▸ ended)
      omega

end

/-! ## Two limits -/

def Options.withDepth (options : Options) (maxDepth : Nat) : Options := { options with maxDepth }

theorem Options.withDepth_tighter (options : Options) {few many : Nat} (fewer : few ≤ many) :
    (options.withDepth few).Tighter (options.withDepth many) :=
  ⟨fewer, fun strict => strict⟩

theorem Course.withDepth_le {options : Options} {tokens : Nat → Token} {stage final : Stage}
    {verdict : Except ParseError Unit} {few many : Nat} (fewer : few ≤ many)
    (course : Course (options.withDepth few) tokens stage verdict final) :
    Course (options.withDepth many) tokens stage verdict final ∨
      (∃ position, verdict = .error (.nestingTooDeep few position)) ∧
        ∀ {other : Except ParseError Unit} {last : Stage},
          Course (options.withDepth many) tokens stage other last → final.taken ≤ last.taken := by
  rcases course.relax (options.withDepth_tighter fewer) with same | ⟨error, failed, excludes, later⟩
  · exact .inl same
  · cases excludes with
    | tooDeep _ => exact .inr ⟨⟨_, failed⟩, later⟩
    | mismatched strict permissive => cases strict.symm.trans permissive

theorem Recognition.tooDeep_checkEnd {σ : Type} {options : Options} {limit : Nat}
    {position : Position} (recognition : Recognition σ) :
    (recognition.checkEnd options).verdict = .error (.nestingTooDeep limit position) ↔
      recognition.verdict = .error (.nestingTooDeep limit position) := by
  cases reached : recognition.verdict with
  | error error => rw [checkEnd_of_error reached, reached]
  | ok _ =>
    constructor
    · intro deep
      cases (error_of_checkEnd reached deep).2.2
    · intro deep
      cases deep

theorem Recognition.not_tooDeep_atOnce {σ : Type} (validator : Validator) (first : Token)
    (behind : σ) (limit : Nat) (position : Position) :
    (recognizeAtOnce validator first behind).verdict ≠ .error (.nestingTooDeep limit position) := by
  intro deep
  rcases error_of_recognizeAtOnce deep with ⟨_, other⟩ | ⟨_, other⟩
  · cases other
  · cases other

section

variable {σ : Type} [FiniteSource σ] {source : σ} {options : Options} {validator : Validator}

/-- Under a greater limit a recognition is the same, or the smaller limit stopped it, and
then no later. -/
theorem recognizeFrom_withDepth_le {few many : Nat} (fewer : few ≤ many) :
    recognizeFrom source (options.withDepth many) validator =
        recognizeFrom source (options.withDepth few) validator ∨
      (∃ position, (recognizeFrom source (options.withDepth few) validator).verdict =
          .error (.nestingTooDeep few position)) ∧
        (recognizeFrom source (options.withDepth few) validator).pulled ≤
          (recognizeFrom source (options.withDepth many) validator).pulled := by
  have congruent {recognition : Recognition σ} :
      recognition.checkEnd (options.withDepth many) =
        recognition.checkEnd (options.withDepth few) := Recognition.checkEnd_congr rfl recognition
  by_cases opens : (TokenSource.token source 0).kind = .lessThan
  · obtain ⟨verdict, final, course⟩ :=
      Course.exists_of_source (options.withDepth few) source ⟨0, [.phrase .tags], 0⟩
    obtain ⟨other, last, another⟩ :=
      Course.exists_of_source (options.withDepth many) source ⟨0, [.phrase .tags], 0⟩
    rcases course.withDepth_le fewer with same | ⟨⟨position, rfl⟩, later⟩
    · refine .inl ?_
      rw [recognizeFrom_of_course opens same, recognizeFrom_of_course opens course, congruent]
    · refine .inr ⟨⟨position, ?_⟩, ?_⟩
      · rw [recognizeFrom_of_course opens course, Recognition.tooDeep_checkEnd]
      · rw [recognizeFrom_of_course opens course, recognizeFrom_of_course opens another,
          Recognition.pulled_checkEnd, Recognition.pulled_checkEnd]
        exact Nat.succ_le_succ (later another)
  · refine .inl ?_
    rw [recognizeFrom_of_noTemplate _ opens, recognizeFrom_of_noTemplate _ opens, congruent]

/-- A limit stops only what has more tokens than the limit allows levels. -/
theorem lt_of_tooDeep {maxDepth limit count : Nat} {position : Position}
    (deep : (recognizeFrom source (options.withDepth maxDepth) validator).verdict =
      .error (.nestingTooDeep limit position))
    (ended : (TokenSource.token source count).kind = .eof) :
    limit = maxDepth ∧ maxDepth < count := by
  by_cases opens : (TokenSource.token source 0).kind = .lessThan
  · obtain ⟨verdict, final, course⟩ :=
      Course.exists_of_source (options.withDepth maxDepth) source ⟨0, [.phrase .tags], 0⟩
    rw [recognizeFrom_of_course opens course, Recognition.tooDeep_checkEnd] at deep
    -- `tags` stands behind a token that was taken, and none was before the first tag.
    have backed : (Stage.mk 0 [.phrase .tag, .phrase .tags] 0).Backed :=
      ⟨false, true, ⟨true, rfl, true, ⟨rfl, rfl⟩, rfl⟩, Nat.le_refl _⟩
    obtain ⟨same, beyond⟩ :=
      (course.of_advances (.furtherTag opens)).lt_taken_of_tooDeep backed deep
    have bound := course.taken_le_of_ended ended (Nat.zero_le _)
    change limit = maxDepth at same
    omega
  · rw [recognizeFrom_of_noTemplate _ opens, Recognition.tooDeep_checkEnd] at deep
    exact absurd deep (Recognition.not_tooDeep_atOnce validator _ _ limit position)

end

/-! ## The threshold -/

/-- The depth limit is a pure cut-off: behind a threshold it makes no difference, and before
it the limit itself is what a recognition reports.  No text needs more levels than it has
tokens before its end, and a greater limit never stops a recognition earlier. -/
theorem depth_limit_is_cut_off {σ : Type} [FiniteSource σ] (source : σ) (options : Options)
    (validator : Validator) :
    let run := fun maxDepth => recognizeFrom source (options.withDepth maxDepth) validator
    ∃ threshold settled,
      threshold ≤ FiniteSource.left source ∧
      (∀ count, (TokenSource.token source count).kind = .eof → threshold ≤ count) ∧
      (∀ maxDepth, threshold ≤ maxDepth → run maxDepth = settled) ∧
      (∀ limit position, settled.verdict ≠ .error (.nestingTooDeep limit position)) ∧
      (∀ maxDepth < threshold, ∃ position,
        (run maxDepth).verdict = .error (.nestingTooDeep maxDepth position)) ∧
      (∀ few many, few ≤ many → (run few).pulled ≤ (run many).pulled) ∧
      ∀ few many, few ≤ many →
        (∀ limit position, (run few).verdict ≠ .error (.nestingTooDeep limit position)) →
          run many = run few := by
  classical
  intro run
  obtain ⟨last, within, atLast⟩ := FiniteSource.exists_ended source
  have enough : ∀ count, (TokenSource.token source count).kind = .eof →
      ∀ limit position, (run count).verdict ≠ .error (.nestingTooDeep limit position) := by
    intro count ended limit position deep
    exact Nat.lt_irrefl count (lt_of_tooDeep deep ended).2
  have compared : ∀ few many, few ≤ many → run many = run few ∨
      (∃ position, (run few).verdict = .error (.nestingTooDeep few position)) ∧
        (run few).pulled ≤ (run many).pulled :=
    fun few many fewer => recognizeFrom_withDepth_le fewer
  have settles : ∀ few many, few ≤ many →
      (∀ limit position, (run few).verdict ≠ .error (.nestingTooDeep limit position)) →
        run many = run few := by
    intro few many fewer shallow
    rcases compared few many fewer with same | ⟨⟨position, deep⟩, _⟩
    · exact same
    · exact absurd deep (shallow few position)
  have sufficient : ∃ maxDepth, ∀ limit position,
      (run maxDepth).verdict ≠ .error (.nestingTooDeep limit position) := ⟨last, enough last atLast⟩
  have least : ∀ count, (TokenSource.token source count).kind = .eof →
      Nat.find sufficient ≤ count :=
    fun count ended => Nat.find_min' sufficient (enough count ended)
  refine ⟨Nat.find sufficient, run (Nat.find sufficient), ?_, least, ?_, Nat.find_spec sufficient,
    ?_, ?_, settles⟩
  · exact Nat.le_trans (least last atLast) within
  · intro maxDepth more
    exact settles _ _ more (Nat.find_spec sufficient)
  · intro maxDepth fewer
    have stopped := Nat.find_min sufficient fewer
    push Not at stopped
    obtain ⟨limit, position, deep⟩ := stopped
    obtain ⟨rfl, _⟩ := lt_of_tooDeep deep atLast
    exact ⟨position, deep⟩
  · intro few many fewer
    rcases compared few many fewer with same | ⟨_, earlier⟩
    · rw [same]
    · exact earlier

end TemplateRecognizer
