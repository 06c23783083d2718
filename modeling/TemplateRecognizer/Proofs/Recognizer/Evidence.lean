import TemplateRecognizer.Proofs.Grammar.Pending
import TemplateRecognizer.Proofs.Recognizer.Course

/-!
# What errors rest on

An error is decided on one token, and what it tells is read off the tokens: kind and position of
the token that was refused, or the names of two tags, the first of which may have been read long
before.
-/

set_option autoImplicit false

namespace TemplateRecognizer

def NameAmong (tokens : Nat → Token) (name : String) : Prop :=
  ∃ index, (tokens index).kind = .identifier ∧ name = (tokens index).textOrEmpty

/-- The index of the token that is refused by a recognition which pulled `pulled` tokens.  It is
the last one, unless a name was taken before it was refused. -/
def ParseError.refusedAt (pulled : Nat) : ParseError → Nat
  | mismatchedTag .. => pulled - 2
  | _ => pulled - 1

/-- `error.RestsOn options tokens pulled` says that what `error` tells is what `pulled` tokens
show, and that the last of them, or a name in front of it, is what the error is about. -/
inductive ParseError.RestsOn (options : Options) (tokens : Nat → Token) :
    Nat → ParseError → Prop where
  | unexpectedToken {last : Nat} {expected : Kind} :
      expected ≠ (tokens last).kind →
        RestsOn options tokens (last + 1)
          (.unexpectedToken expected (tokens last).kind (tokens last).position)
  | unrecognizedStatement {brace : Nat} :
      (tokens brace).kind = .openBrace →
        (tokens (brace + 1)).kind ∉ [.openBrace, .percentage, .hyphen] →
          RestsOn options tokens (brace + 2) .unrecognizedStatement
  | noRootProduction :
      (tokens 0).kind ∉ [.openBracket, .lessThan] →
        RestsOn options tokens 1 (.noRootProduction (tokens 0).kind (tokens 0).position)
  /-- The tags begin at `opening` and `closing`, and only the closing name has been taken. -/
  | mismatchedTag {opening closing : Nat} :
      options.strictTagNames = true → opening + 2 ≤ closing →
        KindsAt tokens opening [.lessThan, .identifier] →
          KindsAt tokens closing [.lessThan, .slash, .identifier] →
            (tokens (opening + 1)).textOrEmpty ≠ (tokens (closing + 2)).textOrEmpty →
              RestsOn options tokens (closing + 4)
                (.mismatchedTag (tokens (opening + 1)).textOrEmpty
                  (tokens (closing + 2)).textOrEmpty (tokens (closing + 2)).position)
  | nestingTooDeep {last : Nat} :
      RestsOn options tokens (last + 1) (.nestingTooDeep options.maxDepth (tokens last).position)
  | rejectedConstruct :
      (tokens 0).kind = .openBracket →
        RestsOn options tokens 1 (.rejectedConstruct .block)

/-! ## What stands before names and directives

Some symbols are waited for in one place only: a directive right behind an opening brace, the name
of an opening tag right behind a less-than sign, and that of a closing tag behind such a sign and a
slash.  Which tokens a phrase will take cannot be told beforehand, and so what is waited for behind
a phrase must be in its place whatever they are.
-/

/-- `WellPreceded before pending` says that names and directives are waited for in their places
only, if tokens of the kinds `before` were taken, last first. -/
def WellPreceded : List Kind → List Symbol → Prop
  | _, [] => True
  | before, .token kind _ :: rest => WellPreceded (kind :: before) rest
  -- The name stands for the rest of its tag too, and so nothing is known of what precedes `rest`.
  | before, .openingName :: rest =>
    [.lessThan] <+: before ∧ ∀ others, WellPreceded others rest
  | before, .closingName _ :: rest =>
    [.slash, .lessThan] <+: before ∧ WellPreceded (.identifier :: before) rest
  | before, .enter :: rest => WellPreceded before rest
  | before, .leave :: rest => WellPreceded before rest
  | before, .phrase phrase :: rest =>
    (phrase = .directive → [.openBrace] <+: before) ∧ ∀ others, WellPreceded others rest

theorem wellPreceded_start : WellPreceded [] [.phrase .tags] := by
  simp [WellPreceded]

theorem Phrase.wellPreceded_of_expand {phrase : Phrase} {ahead : Kind}
    {expansion rest : List Symbol} (predicted : phrase.expand ahead = some expansion)
    (anywhere : ∀ others, WellPreceded others rest) (before : List Kind) :
    WellPreceded before (expansion ++ rest) := by
  cases phrase <;> simp only [expand] at predicted
  all_goals first
    | (split at predicted <;> cases predicted <;> simp [WellPreceded, anywhere])
    | (cases predicted; simp [WellPreceded, anywhere])

theorem Symbol.wellPreceded_afterOpeningName {rest : List Symbol} (name : String)
    (anywhere : ∀ others, WellPreceded others rest) (before : List Kind) :
    WellPreceded before (afterOpeningName name ++ rest) := by
  simp [afterOpeningName, WellPreceded, anywhere]

/-! ## What was taken before -/

def kindsBefore (tokens : Nat → Token) : Nat → List Kind
  | 0 => []
  | count + 1 => (tokens count).kind :: kindsBefore tokens count

theorem exists_kindsAt_of_prefix {tokens : Nat → Token} {kinds : List Kind} {count : Nat}
    (last : kinds <+: kindsBefore tokens count) :
    ∃ first, count = first + kinds.length ∧ KindsAt tokens first kinds.reverse := by
  induction kinds generalizing count with
  | nil => exact ⟨count, rfl, kindsAt_nil tokens count⟩
  | cons kind kinds inductionHypothesis =>
    cases count with
    | zero => simp [kindsBefore] at last
    | succ count =>
      obtain ⟨same, further⟩ := List.cons_prefix_cons.mp last
      obtain ⟨first, place, here⟩ := inductionHypothesis further
      refine ⟨first, by rw [place, List.length_cons, Nat.add_assoc], ?_⟩
      rw [List.reverse_cons, kindsAt_append, List.length_reverse, ← place]
      exact ⟨here, same.symm, kindsAt_nil _ _⟩

def OpenedBefore (tokens : Nat → Token) (count : Nat) (name : String) : Prop :=
  ∃ sign, sign + 2 ≤ count ∧ KindsAt tokens sign [.lessThan, .identifier] ∧
    name = (tokens (sign + 1)).textOrEmpty

theorem OpenedBefore.succ {tokens : Nat → Token} {count : Nat} {name : String}
    (opened : OpenedBefore tokens count name) : OpenedBefore tokens (count + 1) name := by
  obtain ⟨sign, before, read⟩ := opened
  exact ⟨sign, Nat.le_succ_of_le before, read⟩

/-- Says of a stage that names and directives are waited for in their places only, and that every
name which a closing tag must bear was read in an opening tag. -/
structure Stage.Founded (tokens : Nat → Token) (stage : Stage) : Prop where
  places : WellPreceded (kindsBefore tokens stage.taken) stage.pending
  names : ∀ opening, .closingName opening ∈ stage.pending →
    OpenedBefore tokens stage.taken opening

theorem Stage.founded_start (tokens : Nat → Token) :
    (Stage.mk 0 [.phrase .tags] 0).Founded tokens :=
  ⟨wellPreceded_start, by simp⟩

section

variable {options : Options} {tokens : Nat → Token} {stage next final : Stage}

theorem Stage.Founded.advances (founded : stage.Founded tokens)
    (advances : stage.Advances options tokens next) : next.Founded tokens := by
  obtain ⟨places, names⟩ := founded
  cases advances with
  | token same =>
    refine ⟨?_, ?_⟩
    · simpa only [kindsBefore, same, WellPreceded] using places
    · exact fun opening waiting => (names opening (.tail _ waiting)).succ
  | @openingName taken depth rest name =>
    obtain ⟨preceded, anywhere⟩ := places
    refine ⟨Symbol.wellPreceded_afterOpeningName _ anywhere _, ?_⟩
    intro opening waiting
    rcases List.mem_append.mp waiting with own | further
    · -- The name that was just taken stands behind a less-than sign.
      obtain ⟨sign, place, here⟩ := exists_kindsAt_of_prefix preceded
      obtain rfl : taken = sign + 1 := place
      have same : opening = (tokens (sign + 1)).textOrEmpty := by
        simpa [Symbol.afterOpeningName] using own
      exact ⟨sign, Nat.le_refl _, ⟨here.1, name, kindsAt_nil _ _⟩, same⟩
    · exact (names opening (.tail _ further)).succ
  | closingName name _ =>
    refine ⟨?_, ?_⟩
    · simpa only [kindsBefore, name] using places.2
    · exact fun opening waiting => (names opening (.tail _ waiting)).succ
  | enter _ => exact ⟨places, fun opening waiting => names opening (.tail _ waiting)⟩
  | leave => exact ⟨places, fun opening waiting => names opening (.tail _ waiting)⟩
  | phrase predicted =>
    refine ⟨Phrase.wellPreceded_of_expand predicted places.2 _, ?_⟩
    intro opening waiting
    rcases List.mem_append.mp waiting with inside | further
    · cases Phrase.closes?_of_expand predicted _ inside
    · exact names opening (.tail _ further)

theorem Stage.Founded.restsOn {error : ParseError} (founded : stage.Founded tokens)
    (halts : stage.Halts options tokens (.error error) final) :
    error.RestsOn options tokens (final.taken + 1) := by
  obtain ⟨places, names⟩ := founded
  cases halts with
  | unexpected _ wrong => exact .unexpectedToken wrong.symm
  | @mismatched taken depth rest opening strict name different =>
    obtain ⟨closing, place, signs⟩ := exists_kindsAt_of_prefix places.1
    obtain rfl : taken = closing + 2 := place
    obtain ⟨sign, before, read, rfl⟩ := names opening List.mem_cons_self
    obtain ⟨less, slash, _⟩ := signs
    have behind : sign + 2 ≤ closing := by
      -- The opening name is neither the sign nor the slash of the closing tag.
      have noSlash : sign + 1 ≠ closing + 1 := by
        intro same
        rw [← same] at slash
        cases slash.symm.trans read.2.1
      have noSign : sign + 1 ≠ closing := by
        rintro rfl
        cases less.symm.trans read.2.1
      dsimp only at before
      omega
    exact .mismatchedTag strict behind read ⟨less, slash, name, kindsAt_nil _ _⟩ different
  | tooDeep _ => exact .nestingTooDeep
  | @unrecognized taken depth rest phrase refused =>
    obtain ⟨rfl, other⟩ := (Phrase.expand_eq_none_iff _ _).mp refused
    obtain ⟨brace, place, here⟩ := exists_kindsAt_of_prefix (places.1 rfl)
    obtain rfl : taken = brace + 1 := place
    exact .unrecognizedStatement here.1 (by simpa using other)

theorem Course.restsOn {verdict : Except ParseError Unit} {error : ParseError}
    (course : Course options tokens stage verdict final) (founded : stage.Founded tokens)
    (failed : verdict = .error error) : error.RestsOn options tokens (final.taken + 1) := by
  induction course with
  | halts halts =>
    subst failed
    exact founded.restsOn halts
  | advances advances _ inductionHypothesis =>
    exact inductionHypothesis (founded.advances advances) failed

end

section

variable {σ : Type} [FiniteSource σ] {source : σ} {options : Options} {validator : Validator}
  {error : ParseError} {position : Position}

theorem recognizeFrom_restsOn
    (failed : (recognizeFrom source options validator).verdict = .error error) :
    error.RestsOn options (TokenSource.token source)
      (recognizeFrom source options validator).pulled := by
  by_cases opens : (TokenSource.token source 0).kind = .lessThan
  · obtain ⟨verdict, final, course⟩ :=
      Course.exists_of_source options source ⟨0, [.phrase .tags], 0⟩
    rw [recognizeFrom_of_course opens course] at failed ⊢
    rw [Recognition.pulled_checkEnd]
    cases verdict with
    | error reached =>
      rw [Recognition.checkEnd_of_error rfl] at failed
      exact course.restsOn (Stage.founded_start _) failed
    | ok _ =>
      obtain ⟨_, visible, rfl⟩ := Recognition.error_of_checkEnd rfl failed
      exact .unexpectedToken visible.symm
  · rw [recognizeFrom_of_noTemplate options opens] at failed ⊢
    rw [Recognition.pulled_checkEnd, pulled_recognizeAtOnce]
    cases reached : (recognizeAtOnce validator (TokenSource.token source 0)
        (TokenSource.skip 1 source)).verdict with
    | error error =>
      rw [Recognition.checkEnd_of_error reached, reached] at failed
      cases failed
      rcases error_of_recognizeAtOnce reached with ⟨block, rfl⟩ | ⟨noBlock, rfl⟩
      · exact .rejectedConstruct block
      · exact .noRootProduction (by simp [noBlock, opens])
    | ok _ =>
      obtain ⟨_, visible, rfl⟩ := Recognition.error_of_checkEnd reached failed
      rw [recognizeAtOnce_eq] at visible ⊢
      exact .unexpectedToken visible.symm

theorem position_refusedAt
    (failed : (recognizeFrom source options validator).verdict = .error error)
    (placed : error.position? = some position) :
    (TokenSource.token source
      (error.refusedAt (recognizeFrom source options validator).pulled)).position = position := by
  have rests := recognizeFrom_restsOn failed
  generalize (recognizeFrom source options validator).pulled = pulled at rests
  cases rests <;> cases placed <;> rfl

theorem exists_position
    (failed : (recognizeFrom source options validator).verdict = .error error)
    (placed : error.position? = some position) :
    ∃ index, (TokenSource.token source index).position = position :=
  ⟨_, position_refusedAt failed placed⟩

theorem names_among {opening closing : String}
    (failed : (recognizeFrom source options validator).verdict =
      .error (.mismatchedTag opening closing position)) :
    NameAmong (TokenSource.token source) opening ∧
      NameAmong (TokenSource.token source) closing := by
  have rests := recognizeFrom_restsOn failed
  generalize (recognizeFrom source options validator).pulled = pulled at rests
  cases rests with
  | mismatchedTag _ _ read here _ => exact ⟨⟨_, read.2.1, rfl⟩, ⟨_, here.2.2.1, rfl⟩⟩

end

/-- Every error rests on the token on which it was decided.  This is a token of the stream, however
many were handed out before, or else an end of input where the last of them stands. -/
theorem error_rests_on_tokens (tokens : List Token) (count : Nat) {options : Options}
    {validator : Validator} {error : ParseError}
    (failed : (recognizeFrom (TokenSource.skip count (TokenStream.ofList tokens)) options
      validator).verdict = .error error) :
    let stream := TokenSource.skip count (TokenStream.ofList tokens)
    error.RestsOn options (TokenSource.token stream)
        (recognizeFrom stream options validator).pulled ∧
      ∀ index, TokenSource.token stream index =
        tokens[count + index]?.getD
          (.endOfInput ((tokens.getLast?.map Token.position).getD .start)) := by
  intro stream
  refine ⟨recognizeFrom_restsOn failed, ?_⟩
  intro index
  have later := TokenStream.token_eq tokens .start (count + index)
  rwa [TokenSource.token, TokenSource.skip_add] at later

/-- A name is told although another tag was opened and closed since it was read. -/
theorem error_rests_on_tokens_outer_name :
    let token := fun kind column => Token.mk kind none ⟨1, column⟩
    let tokens := [token .comma 1, token .lessThan 2, ⟨.identifier, some "a", ⟨1, 3⟩⟩,
      token .greaterThan 4, token .openBrace 5, token .percentage 6, token .ifKeyword 7,
      token .identifier 8, token .percentage 9, token .closeBrace 10, token .lessThan 11,
      token .identifier 12, token .greaterThan 13, token .lessThan 14, token .slash 15,
      token .identifier 16, token .greaterThan 17, token .openBrace 18, token .percentage 19,
      token .endIfKeyword 20, token .percentage 21, token .closeBrace 22, token .lessThan 23,
      token .slash 24, token .identifier 25]
    let stream := TokenSource.skip 1 (TokenStream.ofList tokens)
    (recognizeFrom stream .strict .acceptAll).verdict = .error (.mismatchedTag "a" "" ⟨1, 25⟩) ∧
      (ParseError.mismatchedTag "a" "" ⟨1, 25⟩).RestsOn .strict (TokenSource.token stream) 25 ∧
      TokenSource.token stream 24 = .endOfInput ⟨1, 25⟩ := by
  intro token tokens stream
  have course : Course .strict (TokenSource.token stream) ⟨0, [.phrase .tags], 0⟩
      (.error (.mismatchedTag "a" "" ⟨1, 25⟩)) ⟨24, [], 0⟩ := by
    repeat first
      | exact .halts (.mismatched rfl rfl (by decide))
      | refine .advances (.token rfl) ?_
      | refine .advances (.openingName rfl) ?_
      | refine .advances (.closingName rfl fun _ => rfl) ?_
      | refine .advances (.enter (by decide)) ?_
      | refine .advances .leave ?_
      | refine .advances (.phrase rfl) ?_
  have read := recognizeFrom_of_course rfl course .acceptAll
  have failed : (recognizeFrom stream .strict .acceptAll).verdict =
      .error (.mismatchedTag "a" "" ⟨1, 25⟩) := by
    rw [read]
    rfl
  have pulled : (recognizeFrom stream .strict .acceptAll).pulled = 25 := by
    rw [read]
    rfl
  obtain ⟨rests, handedOut⟩ := error_rests_on_tokens tokens 1 failed
  exact ⟨failed, pulled ▸ rests, handedOut 24⟩

end TemplateRecognizer
