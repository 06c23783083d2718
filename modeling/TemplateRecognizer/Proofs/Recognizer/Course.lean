import TemplateRecognizer.Proofs.Token.Sequence
import TemplateRecognizer.Recognizer.Basic

/-!
# Courses of a recognition

A recognizing machine never looks back: over one source its whole state is told
by how many tokens it has taken, what it waits for and how many levels are open.
Such a triple is a stage here, and a stage moves by the token ahead alone.  The
course of a recognition is the relation between a stage, the verdict and the
stage at which the verdict was reached.  It mentions no source but only the
sequence of tokens handed out, so that two sources with one sequence have the
same courses.
-/

set_option autoImplicit false

namespace TemplateRecognizer

def KindsAt (tokens : Nat → Token) : Nat → List Kind → Prop
  | _, [] => True
  | first, kind :: rest => (tokens first).kind = kind ∧ KindsAt tokens (first + 1) rest

@[simp] theorem kindsAt_nil (tokens : Nat → Token) (first : Nat) : KindsAt tokens first [] :=
  trivial

@[simp] theorem kindsAt_cons (tokens : Nat → Token) (first : Nat) (kind : Kind) (rest : List Kind) :
    KindsAt tokens first (kind :: rest) ↔
      (tokens first).kind = kind ∧ KindsAt tokens (first + 1) rest := Iff.rfl

theorem kindsAt_append (tokens : Nat → Token) (first : Nat) (front back : List Kind) :
    KindsAt tokens first (front ++ back) ↔
      KindsAt tokens first front ∧ KindsAt tokens (first + front.length) back := by
  induction front generalizing first with
  | nil => simp
  | cons kind front inductionHypothesis =>
    rw [List.cons_append, kindsAt_cons, inductionHypothesis, kindsAt_cons, List.length_cons,
      and_assoc, Nat.add_assoc, Nat.add_comm 1]

theorem kindsAt_upcoming {σ : Type} [TokenSource σ] (source : σ) (count : Nat) :
    KindsAt (TokenSource.token source) 0 ((TokenSource.upcoming count source).map Token.kind) := by
  induction count with
  | zero => exact trivial
  | succ count inductionHypothesis =>
    rw [TokenSource.upcoming_succ, List.map_append, kindsAt_append]
    exact ⟨inductionHypothesis, by simp⟩

theorem KindsAt.kind_eq {tokens : Nat → Token} {first : Nat} {kinds : List Kind}
    (here : KindsAt tokens first kinds) (index : Nat) (inside : index < kinds.length) :
    (tokens (first + index)).kind = kinds[index] := by
  induction kinds generalizing first index with
  | nil => exact absurd inside (Nat.not_lt_zero index)
  | cons kind rest inductionHypothesis =>
    cases index with
    | zero => exact here.1
    | succ index =>
      have further := inductionHypothesis here.2 index (Nat.lt_of_succ_lt_succ inside)
      rwa [Nat.add_assoc, Nat.add_comm 1] at further

theorem KindsAt.eq_of_length_eq {tokens : Nat → Token} {first : Nat} {kinds others : List Kind}
    (here : KindsAt tokens first kinds) (there : KindsAt tokens first others)
    (same : kinds.length = others.length) : kinds = others := by
  induction kinds generalizing first others with
  | nil => exact (List.length_eq_zero_iff.mp same.symm).symm
  | cons kind kinds inductionHypothesis =>
    cases others with
    | nil => simp at same
    | cons other others =>
      have heads : kind = other := here.1.symm.trans there.1
      have tails : kinds = others := inductionHypothesis here.2 there.2 (by simpa using same)
      rw [heads, tails]

/-! ## Stages -/

structure Stage where
  taken : Nat
  pending : List Symbol
  depth : Nat
deriving DecidableEq, Repr

def Symbol.awaited? : Symbol → Option Kind
  | .token kind _ => some kind
  | .openingName | .closingName _ => some .identifier
  | _ => none

namespace Stage

def machine {σ : Type} [TokenSource σ] (source : σ) (stage : Stage) : Machine σ where
  pending := stage.pending
  depth := stage.depth
  lookahead := TokenSource.token source stage.taken
  source := TokenSource.skip (stage.taken + 1) source
  pulled := stage.taken + 1

def abandon (stage : Stage) : Stage :=
  ⟨stage.taken, [], stage.depth - openLevels stage.pending⟩

/-- `Advances options tokens stage next` says that a recognition goes on from
`stage` to `next` in one step. -/
inductive Advances (options : Options) (tokens : Nat → Token) : Stage → Stage → Prop where
  | token {taken depth : Nat} {rest : List Symbol} {kind : Kind} {visible : kind ≠ .eof} :
      (tokens taken).kind = kind →
        Advances options tokens ⟨taken, .token kind visible :: rest, depth⟩
          ⟨taken + 1, rest, depth⟩
  | openingName {taken depth : Nat} {rest : List Symbol} :
      (tokens taken).kind = .identifier →
        Advances options tokens ⟨taken, .openingName :: rest, depth⟩
          ⟨taken + 1, Symbol.afterOpeningName (tokens taken).textOrEmpty ++ rest, depth⟩
  | closingName {taken depth : Nat} {rest : List Symbol} {opening : String} :
      (tokens taken).kind = .identifier →
        (options.strictTagNames = true → opening = (tokens taken).textOrEmpty) →
          Advances options tokens ⟨taken, .closingName opening :: rest, depth⟩
            ⟨taken + 1, rest, depth⟩
  | enter {taken depth : Nat} {rest : List Symbol} :
      depth < options.maxDepth →
        Advances options tokens ⟨taken, .enter :: rest, depth⟩ ⟨taken, rest, depth + 1⟩
  | leave {taken depth : Nat} {rest : List Symbol} :
      Advances options tokens ⟨taken, .leave :: rest, depth⟩ ⟨taken, rest, depth - 1⟩
  | phrase {taken depth : Nat} {rest expansion : List Symbol} {phrase : Phrase} :
      phrase.expand (tokens taken).kind = some expansion →
        Advances options tokens ⟨taken, .phrase phrase :: rest, depth⟩
          ⟨taken, expansion ++ rest, depth⟩

/-- `Halts options tokens stage verdict final` says that a recognition ends at
`stage` with `verdict`, and stands at `final` then. -/
inductive Halts (options : Options) (tokens : Nat → Token) :
    Stage → Except ParseError Unit → Stage → Prop where
  | done {taken depth : Nat} :
      Halts options tokens ⟨taken, [], depth⟩ (.ok ()) ⟨taken, [], depth⟩
  | unexpected {taken depth : Nat} {rest : List Symbol} {symbol : Symbol} {expected : Kind} :
      symbol.awaited? = some expected → (tokens taken).kind ≠ expected →
        Halts options tokens ⟨taken, symbol :: rest, depth⟩
          (.error (.unexpectedToken expected (tokens taken).kind (tokens taken).position))
          (abandon ⟨taken, symbol :: rest, depth⟩)
  | mismatched {taken depth : Nat} {rest : List Symbol} {opening : String} :
      options.strictTagNames = true → (tokens taken).kind = .identifier →
        opening ≠ (tokens taken).textOrEmpty →
          Halts options tokens ⟨taken, .closingName opening :: rest, depth⟩
            (.error (.mismatchedTag opening (tokens taken).textOrEmpty (tokens taken).position))
            (abandon ⟨taken + 1, rest, depth⟩)
  | tooDeep {taken depth : Nat} {rest : List Symbol} :
      options.maxDepth ≤ depth →
        Halts options tokens ⟨taken, .enter :: rest, depth⟩
          (.error (.nestingTooDeep options.maxDepth (tokens taken).position))
          (abandon ⟨taken, .enter :: rest, depth⟩)
  | unrecognized {taken depth : Nat} {rest : List Symbol} {phrase : Phrase} :
      phrase.expand (tokens taken).kind = none →
        Halts options tokens ⟨taken, .phrase phrase :: rest, depth⟩
          (.error .unrecognizedStatement) (abandon ⟨taken, .phrase phrase :: rest, depth⟩)

theorem Advances.furtherTag {options : Options} {tokens : Nat → Token} {taken depth : Nat}
    {rest : List Symbol} (opens : (tokens taken).kind = .lessThan) :
    Advances options tokens ⟨taken, .phrase .tags :: rest, depth⟩
      ⟨taken, .phrase .tag :: .phrase .tags :: rest, depth⟩ := by
  have another : Phrase.tags.expand (tokens taken).kind = some [.phrase .tag, .phrase .tags] := by
    rw [opens]
    rfl
  exact .phrase another

theorem advances_or_halts (options : Options) (tokens : Nat → Token) (stage : Stage) :
    (∃ next, Advances options tokens stage next) ∨
      ∃ verdict final, Halts options tokens stage verdict final := by
  obtain ⟨taken, pending, depth⟩ := stage
  cases pending with
  | nil => exact .inr ⟨_, _, .done⟩
  | cons symbol rest =>
    cases symbol with
    | token kind visible =>
      by_cases same : (tokens taken).kind = kind
      · exact .inl ⟨_, .token same⟩
      · exact .inr ⟨_, _, .unexpected rfl same⟩
    | openingName =>
      by_cases same : (tokens taken).kind = .identifier
      · exact .inl ⟨_, .openingName same⟩
      · exact .inr ⟨_, _, .unexpected rfl same⟩
    | closingName opening =>
      by_cases same : (tokens taken).kind = .identifier
      · by_cases fits : options.strictTagNames = true → opening = (tokens taken).textOrEmpty
        · exact .inl ⟨_, .closingName same fits⟩
        · rw [Classical.not_imp] at fits
          exact .inr ⟨_, _, .mismatched fits.1 same fits.2⟩
      · exact .inr ⟨_, _, .unexpected rfl same⟩
    | enter =>
      by_cases shallow : depth < options.maxDepth
      · exact .inl ⟨_, .enter shallow⟩
      · exact .inr ⟨_, _, .tooDeep (Nat.le_of_not_lt shallow)⟩
    | leave => exact .inl ⟨_, .leave⟩
    | phrase phrase =>
      cases predicted : phrase.expand (tokens taken).kind with
      | some expansion => exact .inl ⟨_, .phrase predicted⟩
      | none => exact .inr ⟨_, _, .unrecognized predicted⟩

section Determined

variable {options : Options} {tokens : Nat → Token} {stage next final : Stage}
  {verdict : Except ParseError Unit}

theorem Advances.unique {other : Stage} (advances : stage.Advances options tokens next)
    (another : stage.Advances options tokens other) : next = other := by
  cases advances with
  | token _ => cases another; rfl
  | openingName _ => cases another; rfl
  | closingName _ _ => cases another; rfl
  | enter _ => cases another; rfl
  | leave => cases another; rfl
  | phrase predicted =>
    cases another with
    | phrase predicted' =>
      cases predicted.symm.trans predicted'
      rfl

theorem Advances.not_halts (advances : stage.Advances options tokens next) :
    ¬ stage.Halts options tokens verdict final := by
  intro halts
  cases advances with
  | token same =>
    cases halts with
    | unexpected awaited other =>
      cases awaited
      exact other same
  | openingName same =>
    cases halts with
    | unexpected awaited other =>
      cases awaited
      exact other same
  | closingName same fits =>
    cases halts with
    | unexpected awaited other =>
      cases awaited
      exact other same
    | mismatched strict _ other => exact other (fits strict)
  | enter shallow =>
    cases halts with
    | unexpected awaited _ => cases awaited
    | tooDeep deep => exact Nat.not_lt.mpr deep shallow
  | leave =>
    cases halts with
    | unexpected awaited _ => cases awaited
  | phrase predicted =>
    cases halts with
    | unexpected awaited _ => cases awaited
    | unrecognized refused => cases predicted.symm.trans refused

theorem Halts.unique {otherFinal : Stage} {other : Except ParseError Unit}
    (halts : stage.Halts options tokens verdict final)
    (another : stage.Halts options tokens other otherFinal) :
    verdict = other ∧ final = otherFinal := by
  cases halts with
  | done =>
    cases another
    exact ⟨rfl, rfl⟩
  | unexpected awaited wrong =>
    cases another with
    | unexpected awaited' _ =>
      cases awaited.symm.trans awaited'
      exact ⟨rfl, rfl⟩
    | mismatched _ same _ =>
      cases awaited
      exact absurd same wrong
    | tooDeep _ => cases awaited
    | unrecognized _ => cases awaited
  | mismatched _ same _ =>
    cases another with
    | unexpected awaited wrong =>
      cases awaited
      exact absurd same wrong
    | mismatched _ _ _ => exact ⟨rfl, rfl⟩
  | tooDeep _ =>
    cases another with
    | unexpected awaited _ => cases awaited
    | tooDeep _ => exact ⟨rfl, rfl⟩
  | unrecognized _ =>
    cases another with
    | unexpected awaited _ => cases awaited
    | unrecognized _ => exact ⟨rfl, rfl⟩

theorem Advances.taken_le (advances : stage.Advances options tokens next) :
    stage.taken ≤ next.taken := by
  cases advances <;> simp

theorem Halts.taken_le (halts : stage.Halts options tokens verdict final) :
    stage.taken ≤ final.taken := by
  cases halts <;> simp [abandon]

end Determined

section Machine

variable {σ : Type} [TokenSource σ] {options : Options} {source : σ} {stage : Stage}

theorem machine_take (source : σ) (stage : Stage) (pending : List Symbol) :
    (stage.machine source).take pending =
      (Stage.mk (stage.taken + 1) pending stage.depth).machine source := by
  simp only [Machine.take, machine, TokenSource.token, TokenSource.skip_succ (stage.taken + 1)]

theorem Advances.step_machine {next : Stage}
    (advances : Advances options (TokenSource.token source) stage next) :
    Machine.step options (stage.machine source) = .moved (next.machine source) := by
  cases advances with
  | token same =>
    rw [← machine_take source ⟨_, _, _⟩]
    exact if_pos same
  | openingName same =>
    rw [← machine_take source ⟨_, _, _⟩]
    exact if_pos same
  | @closingName taken depth rest opening same fits =>
    have accepted : ¬ (options.strictTagNames &&
        opening != (TokenSource.token source taken).textOrEmpty) = true := by
      rw [Bool.and_eq_true, bne_iff_ne]
      exact fun mismatch => mismatch.2 (fits mismatch.1)
    rw [← machine_take source ⟨_, _, _⟩]
    exact (if_pos same).trans (if_neg accepted)
  | enter shallow => exact if_pos shallow
  | leave => rfl
  | phrase predicted => simp only [Machine.step, Machine.perform, machine, predicted]

theorem Halts.step_machine {final : Stage} {verdict : Except ParseError Unit}
    (halts : Halts options (TokenSource.token source) stage verdict final) :
    Machine.step options (stage.machine source) = .halted verdict (final.machine source) := by
  cases halts with
  | done => rfl
  | @unexpected taken depth rest symbol expected awaited other =>
    cases symbol with
    | token kind visible =>
      cases awaited
      exact if_neg other
    | openingName =>
      cases awaited
      exact if_neg other
    | closingName opening =>
      cases awaited
      exact if_neg other
    | _ => cases awaited
  | @mismatched taken depth rest opening strict same other =>
    have refused : (options.strictTagNames &&
        opening != (TokenSource.token source taken).textOrEmpty) = true := by
      rw [Bool.and_eq_true, bne_iff_ne]
      exact ⟨strict, other⟩
    have taking := machine_take source ⟨taken, .closingName opening :: rest, depth⟩ rest
    refine (if_pos same).trans ((if_pos refused).trans ?_)
    exact congrArg (fun machine => Step.halted _ (Machine.abandon machine)) taking
  | tooDeep deep => exact if_neg (Nat.not_lt.mpr deep)
  | unrecognized refused =>
    simp only [Machine.step, Machine.perform, machine, refused]
    rfl

end Machine

end Stage

/-! ## Courses -/

/-- `Course options tokens stage verdict final` says that a recognition which
stands at `stage` reaches `verdict`, and stands at `final` then. -/
inductive Course (options : Options) (tokens : Nat → Token) :
    Stage → Except ParseError Unit → Stage → Prop where
  | halts {stage final : Stage} {verdict : Except ParseError Unit} :
      stage.Halts options tokens verdict final → Course options tokens stage verdict final
  | advances {stage next final : Stage} {verdict : Except ParseError Unit} :
      stage.Advances options tokens next → Course options tokens next verdict final →
        Course options tokens stage verdict final

namespace Course

section

variable {options : Options} {tokens : Nat → Token} {stage final : Stage}
  {verdict : Except ParseError Unit}

theorem taken_le (course : Course options tokens stage verdict final) :
    stage.taken ≤ final.taken := by
  induction course with
  | halts halts => exact halts.taken_le
  | advances advances _ inductionHypothesis =>
    exact Nat.le_trans advances.taken_le inductionHypothesis

theorem of_advances {next : Stage} (course : Course options tokens stage verdict final)
    (advances : stage.Advances options tokens next) :
    Course options tokens next verdict final := by
  cases course with
  | halts halts => exact absurd halts advances.not_halts
  | advances advances' course =>
    rw [advances.unique advances']
    exact course

theorem of_halts {last : Stage} {reached : Except ParseError Unit}
    (course : Course options tokens stage verdict final)
    (halts : stage.Halts options tokens reached last) : verdict = reached ∧ final = last := by
  cases course with
  | halts halts' => exact halts'.unique halts
  | advances advances _ => exact absurd halts advances.not_halts

theorem unique {other : Except ParseError Unit} {last : Stage}
    (course : Course options tokens stage verdict final)
    (another : Course options tokens stage other last) : other = verdict ∧ last = final := by
  induction course with
  | halts halts => exact another.of_halts halts
  | advances advances _ inductionHypothesis =>
    exact inductionHypothesis (another.of_advances advances)

end

variable {σ : Type} [FiniteSource σ] {options : Options} {source : σ}

theorem run_machine {stage final : Stage} {verdict : Except ParseError Unit}
    (course : Course options (TokenSource.token source) stage verdict final) :
    Machine.run options (stage.machine source) = (verdict, final.machine source) := by
  induction course with
  | halts halts => exact Machine.run_of_halted halts.step_machine
  | advances advances _ inductionHypothesis =>
    rw [← inductionHypothesis]
    exact Machine.run_of_moved advances.step_machine

theorem exists_of_source (options : Options) (source : σ) (stage : Stage) :
    ∃ verdict final, Course options (TokenSource.token source) stage verdict final := by
  have everywhere : ∀ machine : Machine σ, ∀ stage : Stage, machine = stage.machine source →
      ∃ verdict final, Course options (TokenSource.token source) stage verdict final := by
    -- Stages have no measure of their own, and so the induction is that of the running machine.
    refine Machine.run.induct options _ ?_ ?_
    · intro machine verdict final halted stage standing
      subst standing
      rcases stage.advances_or_halts options (TokenSource.token source) with
        ⟨next, advances⟩ | ⟨reached, last, halts⟩
      · cases advances.step_machine.symm.trans halted
      · exact ⟨reached, last, .halts halts⟩
    · intro machine next moved inductionHypothesis stage standing
      subst standing
      rcases stage.advances_or_halts options (TokenSource.token source) with
        ⟨nextStage, advances⟩ | ⟨reached, last, halts⟩
      · cases advances.step_machine.symm.trans moved
        obtain ⟨verdict, final, course⟩ := inductionHypothesis nextStage rfl
        exact ⟨verdict, final, .advances advances course⟩
      · cases halts.step_machine.symm.trans moved
  exact everywhere _ stage rfl

end Course

/-! ## Recognitions -/

section Recognitions

variable {σ : Type} [FiniteSource σ] {options : Options} {source : σ}

omit [FiniteSource σ] in
theorem Recognition.checkEnd_of_optional (optional : options.requireEndOfInput = false)
    (recognition : Recognition σ) : recognition.checkEnd options = recognition := by
  simp [checkEnd, optional]

section

omit [FiniteSource σ]

theorem Recognition.checkEnd_congr {others : Options}
    (same : options.requireEndOfInput = others.requireEndOfInput) (recognition : Recognition σ) :
    recognition.checkEnd options = recognition.checkEnd others := by
  unfold checkEnd
  rw [same]

@[simp] theorem Recognition.pulled_checkEnd (recognition : Recognition σ) :
    (recognition.checkEnd options).pulled = recognition.pulled := by
  unfold checkEnd
  split <;> rfl

@[simp] theorem Recognition.asked_checkEnd (recognition : Recognition σ) :
    (recognition.checkEnd options).asked = recognition.asked := by
  unfold checkEnd
  split <;> rfl

@[simp] theorem Recognition.lookahead_checkEnd (recognition : Recognition σ) :
    (recognition.checkEnd options).lookahead = recognition.lookahead := by
  unfold checkEnd
  split <;> rfl

@[simp] theorem Recognition.source_checkEnd (recognition : Recognition σ) :
    (recognition.checkEnd options).source = recognition.source := by
  unfold checkEnd
  split <;> rfl

theorem Recognition.checkEnd_of_error {recognition : Recognition σ} {error : ParseError}
    (failed : recognition.verdict = .error error) :
    recognition.checkEnd options = recognition := by
  simp [checkEnd, Report.accepted, failed]

theorem Recognition.accepted_checkEnd (recognition : Recognition σ) :
    (recognition.checkEnd options).accepted = true ↔
      recognition.accepted = true ∧
        (options.requireEndOfInput = true → recognition.lookahead.kind = .eof) := by
  unfold checkEnd
  split
  · rename_i refused
    simp only [Token.isEof, Bool.and_eq_true, Bool.not_eq_true', beq_eq_false_iff_ne] at refused
    constructor
    · intro accepted
      cases accepted
    · intro accepted
      exact absurd (accepted.2 refused.1.2) refused.2
  · rename_i passed
    simp only [Token.isEof, Bool.and_eq_true, Bool.not_eq_true', beq_eq_false_iff_ne, not_and,
      Decidable.not_not] at passed
    constructor
    · intro accepted
      exact ⟨accepted, fun required => passed ⟨accepted, required⟩⟩
    · exact And.left

theorem Recognition.verdict_checkEnd_of_ok {recognition : Recognition σ}
    (accepted : recognition.verdict = .ok ()) (required : options.requireEndOfInput = true) :
    (recognition.checkEnd options).verdict =
      if recognition.lookahead.kind = .eof then .ok ()
      else .error (.unexpectedToken .eof recognition.lookahead.kind
        recognition.lookahead.position) := by
  by_cases ended : recognition.lookahead.kind = .eof
  · rw [if_pos ended]
    simp [checkEnd, Token.isEof, ended, accepted]
  · rw [if_neg ended]
    simp [checkEnd, Report.accepted, Token.isEof, ended, accepted, required]

theorem Recognition.error_of_checkEnd {recognition : Recognition σ} {error : ParseError}
    (accepted : recognition.verdict = .ok ())
    (failed : (recognition.checkEnd options).verdict = .error error) :
    options.requireEndOfInput = true ∧ recognition.lookahead.kind ≠ .eof ∧
      error = .unexpectedToken .eof recognition.lookahead.kind recognition.lookahead.position := by
  unfold checkEnd at failed
  split at failed
  · rename_i refused
    simp only [Token.isEof, Bool.and_eq_true, Bool.not_eq_true', beq_eq_false_iff_ne] at refused
    cases failed
    exact ⟨refused.1.2, refused.2, rfl⟩
  · cases accepted.symm.trans failed

end

theorem recognizeFrom_of_openBracket (options : Options)
    (block : (TokenSource.token source 0).kind = .openBracket) (validator : Validator) :
    recognizeFrom source options validator =
      Recognition.checkEnd options
        (recognizeBlock validator (TokenSource.token source 0) (TokenSource.skip 1 source)) := by
  have first : (TokenSource.next source).1.kind = .openBracket := block
  simp only [recognizeFrom, first]
  rfl

theorem recognizeFrom_of_course {verdict : Except ParseError Unit} {final : Stage}
    (opens : (TokenSource.token source 0).kind = .lessThan)
    (course : Course options (TokenSource.token source) ⟨0, [.phrase .tags], 0⟩ verdict final)
    (validator : Validator) :
    recognizeFrom source options validator =
      Recognition.checkEnd options
        ⟨⟨verdict, final.taken + 1, []⟩, TokenSource.token source final.taken,
          TokenSource.skip (final.taken + 1) source⟩ := by
  have first : (TokenSource.next source).1.kind = .lessThan := opens
  have running : (Machine.start source [.phrase .tags]).run options =
      (verdict, final.machine source) := course.run_machine
  simp only [recognizeFrom, recognizeTemplate, first, running]
  rfl

/-- A template is refused by its course, or else for the token behind it. -/
theorem Course.error_of_recognizeFrom {verdict : Except ParseError Unit} {final : Stage}
    {validator : Validator} {error : ParseError}
    (opens : (TokenSource.token source 0).kind = .lessThan)
    (course : Course options (TokenSource.token source) ⟨0, [.phrase .tags], 0⟩ verdict final)
    (failed : (recognizeFrom source options validator).verdict = .error error) :
    verdict = .error error ∨
      verdict = .ok () ∧ error = .unexpectedToken .eof (TokenSource.token source final.taken).kind
        (TokenSource.token source final.taken).position := by
  rw [recognizeFrom_of_course opens course] at failed
  cases verdict with
  | error reached =>
    rw [Recognition.checkEnd_of_error rfl] at failed
    exact .inl failed
  | ok _ => exact .inr ⟨rfl, (Recognition.error_of_checkEnd rfl failed).2.2⟩

theorem recognizeFrom_of_noRoot (options : Options)
    (noBlock : (TokenSource.token source 0).kind ≠ .openBracket)
    (noTemplate : (TokenSource.token source 0).kind ≠ .lessThan) (validator : Validator) :
    recognizeFrom source options validator =
      .atFirst (.error (.noRootProduction (TokenSource.token source 0).kind
        (TokenSource.token source 0).position)) [] (TokenSource.token source 0)
        (TokenSource.skip 1 source) := by
  have refused : recognizeFrom source options validator =
      Recognition.checkEnd options (.atFirst (.error (.noRootProduction
        (TokenSource.token source 0).kind (TokenSource.token source 0).position)) []
          (TokenSource.token source 0) (TokenSource.skip 1 source)) := by
    unfold recognizeFrom
    dsimp only
    split
    · exact absurd ‹_› noBlock
    · exact absurd ‹_› noTemplate
    · rfl
  rw [refused]
  rfl

/-- What the first token and the validator settle where no template begins. -/
def recognizeAtOnce {σ : Type} (validator : Validator) (first : Token) (behind : σ) :
    Recognition σ :=
  if first.kind = .openBracket then recognizeBlock validator first behind
  else .atFirst (.error (.noRootProduction first.kind first.position)) [] first behind

theorem pulled_recognizeAtOnce {σ : Type} (validator : Validator) (first : Token) (behind : σ) :
    (recognizeAtOnce validator first behind).pulled = 1 := by
  unfold recognizeAtOnce
  split <;> rfl

theorem recognizeAtOnce_eq {σ : Type} (validator : Validator) (first : Token) (behind : σ) :
    recognizeAtOnce validator first behind =
      ⟨(recognizeAtOnce validator first ()).toReport, first, behind⟩ := by
  unfold recognizeAtOnce
  split <;> rfl

theorem error_of_recognizeAtOnce {σ : Type} {validator : Validator} {first : Token} {behind : σ}
    {error : ParseError}
    (failed : (recognizeAtOnce validator first behind).verdict = .error error) :
    first.kind = .openBracket ∧ error = .rejectedConstruct .block ∨
      first.kind ≠ .openBracket ∧ error = .noRootProduction first.kind first.position := by
  unfold recognizeAtOnce recognizeBlock at failed
  split at failed
  · rename_i block
    dsimp only [Recognition.atFirst] at failed
    split at failed
    · cases failed
    · cases failed
      exact .inl ⟨block, rfl⟩
  · rename_i noBlock
    cases failed
    exact .inr ⟨noBlock, rfl⟩

/-- Where no template begins, no option counts but that the input must end. -/
theorem recognizeFrom_of_noTemplate (options : Options)
    (noTemplate : (TokenSource.token source 0).kind ≠ .lessThan) (validator : Validator) :
    recognizeFrom source options validator =
      (recognizeAtOnce validator (TokenSource.token source 0)
        (TokenSource.skip 1 source)).checkEnd options := by
  unfold recognizeAtOnce
  by_cases block : (TokenSource.token source 0).kind = .openBracket
  · rw [if_pos block]
    exact recognizeFrom_of_openBracket options block validator
  · rw [if_neg block]
    exact recognizeFrom_of_noRoot options block noTemplate validator

theorem Report.accepted_iff (report : Report) :
    report.accepted = true ↔ report.verdict = .ok () := by
  unfold accepted
  split
  · rename_i same
    simp [same]
  · rename_i same
    simp [same]

/-- Where the input must end, what is accepted is a template with the end right behind it. -/
theorem recognizeFrom_eq_ok_iff (required : options.requireEndOfInput = true)
    (validator : Validator) :
    (recognizeFrom source options validator).verdict = .ok () ↔
      (TokenSource.token source 0).kind = .lessThan ∧
        ∃ final, Course options (TokenSource.token source) ⟨0, [.phrase .tags], 0⟩ (.ok ()) final ∧
          (TokenSource.token source final.taken).kind = .eof := by
  rw [← Report.accepted_iff]
  by_cases opens : (TokenSource.token source 0).kind = .lessThan
  · obtain ⟨verdict, final, course⟩ :=
      Course.exists_of_source options source ⟨0, [.phrase .tags], 0⟩
    rw [recognizeFrom_of_course opens course, Recognition.accepted_checkEnd, Report.accepted_iff]
    constructor
    · rintro ⟨rfl, ended⟩
      exact ⟨opens, final, course, ended required⟩
    · rintro ⟨_, last, another, ended⟩
      obtain ⟨same, rfl⟩ := course.unique another
      exact ⟨same.symm, fun _ => ended⟩
  · rw [recognizeFrom_of_noTemplate options opens, recognizeAtOnce_eq,
      Recognition.accepted_checkEnd]
    constructor
    · rintro ⟨accepted, ended⟩
      -- Nothing was taken, and a first token that is the end of input begins nothing.
      have noBlock : (TokenSource.token source 0).kind ≠ .openBracket := by
        rw [ended required]
        decide
      rw [recognizeAtOnce, if_neg noBlock] at accepted
      cases accepted
    · rintro ⟨opens', _⟩
      exact absurd opens' opens

end Recognitions

end TemplateRecognizer
