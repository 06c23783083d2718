import TemplateRecognizer.Proofs.Recognizer.Acceptance
import TemplateRecognizer.Proofs.Recognizer.Correspondence
import TemplateRecognizer.Proofs.Recognizer.Evidence
import TemplateRecognizer.Proofs.Recognizer.Leniency

/-!
# Errors are reported where they become certain

A recognition that meets an unexpected token has read a prefix of an acceptable
text, and with the token it expected the prefix would still be one.  With the
token it met, it is a prefix of no acceptable text.

The first half holds since everything that is waited for can be met.  The second
compares two recognitions of texts that begin alike: as long as the kinds agree
they make the same moves, whatever the names and whatever the greatest depth,
unless one of them stops for want of depth.
-/

set_option autoImplicit false

namespace TemplateRecognizer

/-- Says that `source` is accepted, names not compared, when enough levels may be
open. -/
def Acceptable {σ : Type} [FiniteSource σ] (requireEnd : Bool) (source : σ) : Prop :=
  ∃ maxDepth, ∀ validator,
    (recognizeFrom source ⟨false, requireEnd, maxDepth⟩ validator).accepted = true

def Viable (requireEnd : Bool) (tokens : List Token) : Prop :=
  ∃ rest, Acceptable requireEnd (TokenStream.ofList (tokens ++ rest))

def Doomed (requireEnd : Bool) (kinds : List Kind) : Prop :=
  ∀ {τ : Type} [FiniteSource τ] (other : τ),
    (TokenSource.upcoming kinds.length other).map Token.kind = kinds →
      ∀ maxDepth validator,
        (recognizeFrom other ⟨false, requireEnd, maxDepth⟩ validator).accepted = false

/-! ## Prefixes of acceptable texts -/

section Viability

theorem TemplateAhead.acceptable {σ : Type} [FiniteSource σ] {source : σ} {levels count : Nat}
    (ahead : TemplateAhead source levels count)
    (ended : (TokenSource.token source count).kind = .eof) (requireEnd : Bool) :
    Acceptable requireEnd source := by
  refine ⟨levels, ?_⟩
  intro validator
  have course := TemplateAhead.course
    (rfl : (Options.mk false requireEnd levels).strictTagNames = false) ahead
  rw [recognizeFrom_of_course course.1 course.2]
  have atEnd : (TokenSource.token source count).isEof = true := by
    rw [Token.isEof, ended]
    rfl
  simp [Recognition.checkEnd, atEnd, Report.accepted]

theorem acceptable_of_derives {levels : Nat} {tokens ending : List Token}
    (derived : Derives .template levels (tokens.map Token.kind))
    (ended : ∀ token ∈ ending.head?, token.kind = .eof) (requireEnd : Bool) :
    Acceptable requireEnd (TokenStream.ofList (tokens ++ ending)) := by
  have behind : (TokenSource.token (TokenStream.ofList (tokens ++ ending)) tokens.length).kind =
      .eof := by
    cases ending with
    | nil =>
      rw [List.append_nil]
      exact TokenStream.kind_token_length tokens
    | cons token rest =>
      rw [TokenStream.ofList, TokenStream.token_append_cons]
      exact ended token rfl
  have ahead : TemplateAhead (TokenStream.ofList (tokens ++ ending)) levels tokens.length := by
    refine ⟨?_, ?_⟩
    · change Derives .template levels
        ((TokenSource.upcoming tokens.length (TokenStream.mk (tokens ++ ending) .start)).map _)
      rw [TokenStream.upcoming_append]
      exact derived
    · rw [behind]
      decide
  exact ahead.acceptable behind requireEnd

theorem viable_of_derives {levels : Nat} {tokens : List Token} {more : List Kind}
    (derived : Derives .template levels (tokens.map Token.kind ++ more)) (requireEnd : Bool) :
    Viable requireEnd tokens := by
  refine ⟨more.map fun kind => ⟨kind, none, .start⟩, ?_⟩
  have spelled : (tokens ++ more.map fun kind => Token.mk kind none .start).map Token.kind =
      tokens.map Token.kind ++ more := by
    simp [Function.comp_def]
  rw [← spelled] at derived
  rw [← List.append_nil (tokens ++ _)]
  exact acceptable_of_derives derived (by simp) requireEnd

theorem covers_awaited {symbol : Symbol} {expected : Kind}
    (awaited : symbol.awaited? = some expected) (rest : List Symbol) :
    ∃ behind, ∀ limit depth kinds, Covers limit depth behind kinds →
      Covers limit depth (symbol :: rest) (expected :: kinds) := by
  cases symbol with
  | token kind visible =>
    cases awaited
    exact ⟨rest, fun limit depth kinds covered => ⟨kinds, rfl, covered⟩⟩
  | openingName =>
    cases awaited
    exact ⟨Symbol.afterOpeningName "" ++ rest, fun limit depth kinds => covers_openingName⟩
  | closingName opening =>
    cases awaited
    exact ⟨rest, fun limit depth kinds covered => ⟨kinds, rfl, covered⟩⟩
  | _ => cases awaited

variable {σ : Type} [FiniteSource σ] {options : Options} {source : σ} {final : Stage}

/-- Where a recognition fails for an unexpected token, the expected one would have
gone on to a template. -/
theorem Course.exists_derives_of_unexpected {expected found : Kind} {position : Position}
    (opens : (TokenSource.token source 0).kind = .lessThan)
    (course : Course options (TokenSource.token source) ⟨0, [.phrase .tags], 0⟩
      (.error (.unexpectedToken expected found position)) final) :
    ∃ levels more, Derives .template levels
      ((TokenSource.upcoming final.taken source).map Token.kind ++ expected :: more) := by
  obtain ⟨last, halts, derives⟩ := course.exists_end_of_template opens
  cases halts with
  | @unexpected taken depth rest symbol expected awaited _ =>
    obtain ⟨behind, covers⟩ := covers_awaited awaited rest
    obtain ⟨least, enough⟩ := exists_covers behind depth
    obtain ⟨more, covered⟩ := enough (max least options.maxDepth) (by omega)
    exact ⟨_, more, derives _ _ (by omega) (covers _ _ _ covered)⟩

/-! ### Directives -/

theorem Course.exists_brace {tokens : Nat → Token} {stage : Stage}
    {verdict : Except ParseError Unit} (course : Course options tokens stage verdict final)
    (founded : stage.Founded tokens) (refused : verdict = .error .unrecognizedStatement) :
    ∃ before, final.taken = before + 1 ∧ (tokens before).kind = .openBrace := by
  have rests := course.restsOn founded refused
  generalize pulled : final.taken + 1 = count at rests
  cases rests with
  | unrecognizedStatement brace _ => exact ⟨_, Nat.succ.inj pulled, brace⟩

theorem Course.exists_derives_of_unrecognized {ahead : Kind}
    (opens : (TokenSource.token source 0).kind = .lessThan)
    (course : Course options (TokenSource.token source) ⟨0, [.phrase .tags], 0⟩
      (.error .unrecognizedStatement) final)
    (begins : ahead = .openBrace ∨ ahead = .percentage ∨ ahead = .hyphen) :
    ∃ levels more, Derives .template levels
      ((TokenSource.upcoming final.taken source).map Token.kind ++ ahead :: more) := by
  obtain ⟨last, halts, derives⟩ := course.exists_end_of_template opens
  cases halts with
  | @unrecognized taken depth rest phrase noDirective =>
    obtain ⟨rfl, _⟩ := (Phrase.expand_eq_none_iff _ _).mp noDirective
    obtain ⟨least, enough⟩ := exists_covers rest depth
    obtain ⟨back, covered⟩ := enough (max least (max options.maxDepth (depth + 1))) (by omega)
    obtain ⟨levels, same⟩ : ∃ levels,
        max least (max options.maxDepth (depth + 1)) - depth = levels + 1 :=
      Nat.exists_eq_succ_of_ne_zero (by omega)
    obtain ⟨front, stands⟩ : ∃ front, Phrase.directive.Covers (levels + 1) (ahead :: front) :=
      exists_covers_directive begins
    rw [← same] at stands
    exact ⟨_, front ++ back, derives _ _ (by omega) ⟨ahead :: front, back, rfl, stands, covered⟩⟩

end Viability

/-! ## Recognitions of texts that begin alike -/

/-- If the second of two recognitions of texts that begin alike accepts, the first
does so at the same place, or it stops for want of depth. -/
theorem Course.accepts_alike {tokens others : Nat → Token} {requireEnd : Bool} {few many : Nat}
    {stage other final last : Stage} {verdict : Except ParseError Unit}
    (course : Course ⟨false, requireEnd, few⟩ tokens stage verdict final)
    (another : Course ⟨false, requireEnd, many⟩ others other (.ok ()) last)
    (corresponds : stage.Corresponds tokens others other)
    (same : ∀ index ≤ final.taken, (tokens index).kind = (others index).kind) :
    (verdict = .ok () ∧ last.taken = final.taken) ∨
      ∃ limit position, verdict = .error (.nestingTooDeep limit position) := by
  obtain ⟨verdict', final', along, place, alike⟩ :=
    course.corresponds same (fun strict => absurd strict Bool.false_ne_true) corresponds
  -- What is left to compare are two limits over one sequence.
  rcases Nat.le_total few many with fewer | fewer
  · have tighter : (Options.mk false requireEnd few).Tighter ⟨false, requireEnd, many⟩ :=
      ⟨fewer, fun strict => strict⟩
    rcases along.relax tighter with relaxed | ⟨error, rfl, excludes, _⟩
    · obtain ⟨rfl, rfl⟩ := another.unique relaxed
      cases alike
      exact .inl ⟨rfl, place⟩
    · cases excludes with
      | tooDeep _ =>
        generalize final.taken + 1 = pulled at alike
        cases alike with
        | refused refused =>
          cases refused
          exact .inr ⟨_, _, rfl⟩
      | mismatched strict _ => cases strict
  · have tighter : (Options.mk false requireEnd many).Tighter ⟨false, requireEnd, few⟩ :=
      ⟨fewer, fun strict => strict⟩
    rcases another.relax tighter with relaxed | ⟨error, failed, _⟩
    · obtain ⟨rfl, rfl⟩ := along.unique relaxed
      cases alike
      exact .inl ⟨rfl, place⟩
    · cases failed

/-! ## The first impossible token -/

/-- Nothing is accepted that begins with what a failed recognition has pulled. -/
theorem Course.doomed {σ : Type} [FiniteSource σ] {source : σ} {requireEnd : Bool} {limit : Nat}
    {verdict : Except ParseError Unit} {final : Stage}
    (opens : (TokenSource.token source 0).kind = .lessThan)
    (course : Course ⟨false, requireEnd, limit⟩ (TokenSource.token source)
      ⟨0, [.phrase .tags], 0⟩ verdict final)
    (shallow : ∀ limit position, verdict ≠ .error (.nestingTooDeep limit position))
    (failed : verdict = .ok () →
      requireEnd = true ∧ (TokenSource.token source final.taken).kind ≠ .eof) :
    Doomed requireEnd ((TokenSource.upcoming (final.taken + 1) source).map Token.kind) := by
  intro τ _ other agree maxDepth validator
  have here := kindsAt_upcoming source (final.taken + 1)
  have there := kindsAt_upcoming other (final.taken + 1)
  rw [List.length_map, TokenSource.length_upcoming] at agree
  rw [agree] at there
  have same : ∀ index, index ≤ final.taken →
      (TokenSource.token other index).kind = (TokenSource.token source index).kind := by
    intro index bound
    have inside :
        index < ((TokenSource.upcoming (final.taken + 1) source).map Token.kind).length := by
      simp only [List.length_map, TokenSource.length_upcoming]
      omega
    have first := there.kind_eq index inside
    have second := here.kind_eq index inside
    rw [Nat.zero_add] at first second
    rw [first, second]
  have opens' : (TokenSource.token other 0).kind = .lessThan := (same 0 (Nat.zero_le _)).trans opens
  obtain ⟨verdict', final', another⟩ :=
    Course.exists_of_source ⟨false, requireEnd, maxDepth⟩ other ⟨0, [.phrase .tags], 0⟩
  rw [Bool.eq_false_iff]
  intro accepted
  rw [recognizeFrom_of_course opens' another, Recognition.accepted_checkEnd] at accepted
  obtain ⟨accepted, ended⟩ := accepted
  cases verdict' with
  | error error => cases accepted
  | ok _ =>
    -- Had the other been accepted, this one would have ended well at the same token.
    rcases course.accepts_alike another ⟨rfl, rfl, .cons (.same rfl) .nil⟩
        (fun index bound => (same index bound).symm) with
      ⟨accepted', place⟩ | ⟨limit', position, deep⟩
    · obtain ⟨required, visible⟩ := failed accepted'
      have atEnd : (TokenSource.token other final'.taken).kind = .eof := ended required
      rw [place, same _ (Nat.le_refl _)] at atEnd
      exact visible atEnd
    · exact shallow limit' position deep

theorem Course.ahead_of_unexpected {options : Options} {tokens : Nat → Token}
    {stage final : Stage} {expected found : Kind} {position : Position}
    (course : Course options tokens stage (.error (.unexpectedToken expected found position))
      final) :
    found = (tokens final.taken).kind ∧ position = (tokens final.taken).position := by
  obtain ⟨last, _, halts, _⟩ := course.exists_end
  cases halts
  exact ⟨rfl, rfl⟩

/-- An error of the grammar is reported at the first token that cannot continue any
template. -/
theorem error_at_first_impossible_token {σ : Type} [FiniteSource σ] (source : σ)
    (opens : (TokenSource.token source 0).kind = .lessThan) (requireEnd : Bool) (maxDepth : Nat)
    (validator : Validator) :
    let recognition := recognizeFrom source ⟨false, requireEnd, maxDepth⟩ validator
    let seen := TokenSource.upcoming recognition.pulled source
    (∀ expected found position,
      recognition.verdict = .error (.unexpectedToken expected found position) →
        (∃ before last, seen = before ++ [last] ∧ found = last.kind ∧ position = last.position ∧
          ∀ token : Token, token.kind = expected → Viable requireEnd (before ++ [token])) ∧
        Doomed requireEnd (seen.map Token.kind)) ∧
    (recognition.verdict = .error .unrecognizedStatement →
      (∃ before brace last, seen = before ++ [brace, last] ∧ brace.kind = .openBrace ∧
        ∀ token : Token,
          token.kind = .openBrace ∨ token.kind = .percentage ∨ token.kind = .hyphen →
            Viable requireEnd (before ++ [brace, token])) ∧
      Doomed requireEnd (seen.map Token.kind)) := by
  intro recognition seen
  obtain ⟨verdict, final, course⟩ := Course.exists_of_source
    ⟨false, requireEnd, maxDepth⟩ source ⟨0, [.phrase .tags], 0⟩
  have reported : recognition = _ := recognizeFrom_of_course opens course validator
  have seenEq : seen = TokenSource.upcoming final.taken source ++
      [TokenSource.token source final.taken] := by
    rw [← TokenSource.upcoming_succ]
    change TokenSource.upcoming recognition.pulled source = _
    rw [reported, Recognition.pulled_checkEnd]
  have doomed : (∀ limit position, verdict ≠ .error (.nestingTooDeep limit position)) →
      (verdict = .ok () → requireEnd = true ∧
        (TokenSource.token source final.taken).kind ≠ .eof) →
      Doomed requireEnd (seen.map Token.kind) := by
    intro shallow failed
    rw [seenEq, ← TokenSource.upcoming_succ]
    exact course.doomed opens shallow failed
  cases verdict with
  | error error =>
    rw [Recognition.checkEnd_of_error rfl] at reported
    rw [reported]
    refine ⟨?_, ?_⟩
    · rintro expected found position ⟨⟩
      obtain ⟨foundEq, positionEq⟩ := course.ahead_of_unexpected
      refine ⟨⟨_, _, seenEq, foundEq, positionEq, ?_⟩, doomed (by simp) (by simp)⟩
      intro token kind
      obtain ⟨levels, more, derived⟩ := course.exists_derives_of_unexpected opens
      have spelled : Derives .template levels
          ((TokenSource.upcoming final.taken source ++ [token]).map Token.kind ++ more) := by
        simpa [kind] using derived
      exact viable_of_derives spelled requireEnd
    · rintro ⟨⟩
      obtain ⟨before, taken, brace⟩ := course.exists_brace (Stage.founded_start _) rfl
      have split : seen = TokenSource.upcoming before source ++
          [TokenSource.token source before, TokenSource.token source final.taken] := by
        rw [seenEq, taken, TokenSource.upcoming_succ, List.append_assoc]
        rfl
      refine ⟨⟨_, _, _, split, brace, ?_⟩, doomed (by simp) (by simp)⟩
      intro token begins
      obtain ⟨levels, more, derived⟩ := course.exists_derives_of_unrecognized opens begins
      rw [taken, TokenSource.upcoming_succ] at derived
      have spelled : Derives .template levels ((TokenSource.upcoming before source ++
          [TokenSource.token source before, token]).map Token.kind ++ more) := by
        simpa using derived
      exact viable_of_derives spelled requireEnd
  | ok _ =>
    refine ⟨?_, ?_⟩
    · intro expected found position failed
      rw [reported] at failed
      -- The template ended well, and only the end of input was missing behind it.
      obtain ⟨required, visible, same⟩ := Recognition.error_of_checkEnd rfl failed
      cases same
      refine ⟨⟨_, _, seenEq, rfl, rfl, ?_⟩, doomed (by simp) fun _ => ⟨required, visible⟩⟩
      intro token kind
      have ahead := course.templateAhead opens
      refine ⟨[], ?_⟩
      rw [List.append_nil]
      refine acceptable_of_derives ahead.1 ?_ requireEnd
      intro token' member
      cases member
      exact kind
    · intro failed
      rw [reported] at failed
      obtain ⟨_, _, same⟩ := Recognition.error_of_checkEnd rfl failed
      cases same

/-- Behind a sign alone a name is missing, and behind a brace that a tag follows the rest of
a statement's delimiter. -/
theorem error_at_first_impossible_token_lone_sign_and_brace :
    ((TokenSource.token (TokenStream.ofList [⟨.lessThan, none, ⟨1, 1⟩⟩]) 0).kind = .lessThan ∧
      (recognizeFrom (TokenStream.ofList [⟨.lessThan, none, ⟨1, 1⟩⟩]) ⟨false, true, 256⟩
        .acceptAll).verdict = .error (.unexpectedToken .identifier .eof ⟨1, 1⟩) ∧
      Doomed true [.lessThan, .eof]) ∧
    ∃ brace : TokenStream,
      brace.tokens.map Token.kind =
        [.lessThan, .identifier, .greaterThan, .openBrace, .lessThan] ∧
      (recognizeFrom brace ⟨false, true, 256⟩ .acceptAll).verdict =
        .error .unrecognizedStatement ∧
      Doomed true [.lessThan, .identifier, .greaterThan, .openBrace, .lessThan] := by
  let options : Options := ⟨false, true, 256⟩
  let sign := TokenStream.ofList [⟨.lessThan, none, ⟨1, 1⟩⟩]
  let brace := TokenStream.ofList [⟨.lessThan, none, ⟨1, 1⟩⟩, ⟨.identifier, some "p", ⟨1, 2⟩⟩,
    ⟨.greaterThan, none, ⟨1, 3⟩⟩, ⟨.openBrace, none, ⟨1, 4⟩⟩, ⟨.lessThan, none, ⟨1, 5⟩⟩]
  have signCourse : Course options (TokenSource.token sign) ⟨0, [.phrase .tags], 0⟩
      (.error (.unexpectedToken .identifier .eof ⟨1, 1⟩)) ⟨1, [], 0⟩ :=
    .advances (.phrase rfl) (.advances (.phrase rfl) (.advances (.token rfl)
      (.halts (.unexpected rfl (by decide)))))
  have braceCourse : Course options (TokenSource.token brace) ⟨0, [.phrase .tags], 0⟩
      (.error .unrecognizedStatement) ⟨4, [], 0⟩ :=
    .advances (.phrase rfl) (.advances (.phrase rfl) (.advances (.token rfl)
      (.advances (.openingName rfl) (.advances (.token rfl) (.advances (.phrase rfl)
        (.advances (.phrase rfl) (.advances (.token rfl) (.halts (.unrecognized rfl)))))))))
  have missing : recognizeFrom sign options .acceptAll = _ :=
    recognizeFrom_of_course rfl signCourse .acceptAll
  have astray : recognizeFrom brace options .acceptAll = _ :=
    recognizeFrom_of_course rfl braceCourse .acceptAll
  rw [Recognition.checkEnd_of_error rfl] at missing astray
  have first := (error_at_first_impossible_token sign rfl true 256 .acceptAll).1
  have second := (error_at_first_impossible_token brace rfl true 256 .acceptAll).2
  rw [missing] at first
  rw [astray] at second
  refine ⟨⟨rfl, ?_, ?_⟩, brace, rfl, ?_, ?_⟩
  · exact congrArg (·.verdict) missing
  · exact (first _ _ _ rfl).2
  · exact congrArg (·.verdict) astray
  · exact (second rfl).2

end TemplateRecognizer
