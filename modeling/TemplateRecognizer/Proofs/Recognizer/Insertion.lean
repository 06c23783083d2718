import TemplateRecognizer.Proofs.Recognizer.DepthLimit
import TemplateRecognizer.Proofs.Recognizer.Evidence
import TemplateRecognizer.Proofs.Recognizer.Refusal

/-!
# Following a hint

Where one kind is expected and another is met, the hint is to insert a token.  On the way to the
place of the error some repetitions have ended for the token met.  They may go on with the token
inserted, or they end for it as well, and then it is taken where it was expected.
-/

set_option autoImplicit false

namespace TemplateRecognizer

section

variable {options : Options} {tokens mended : Nat → Token} {stage final last : Stage}
  {verdict reached : Except ParseError Unit} {expected found : Kind} {position : Position}

theorem Course.lt_taken_of_expected (course : Course options tokens stage verdict final)
    (refused : verdict = .error (.unexpectedToken expected found position))
    (fixed : expected ≠ .identifier) (atEnd : (tokens final.taken).kind = .eof)
    (same : ∀ index < final.taken, tokens index = mended index)
    (present : (mended final.taken).kind = expected)
    (another : Course options mended stage reached last) : final.taken < last.taken := by
  induction course with
  | halts halts =>
    cases halts with
    | @unexpected taken depth rest symbol expected awaited _ =>
      cases refused
      cases symbol with
      | token kind visible =>
        cases awaited
        exact (another.of_advances (.token present)).taken_le
      | openingName | closingName _ =>
        cases awaited
        exact absurd rfl fixed
      | _ => cases awaited
    | _ => cases refused
  | @advances stage next final verdict advances course inductionHypothesis =>
    -- A step that both courses take leaves the rest to the induction.
    have further := fun advances' : stage.Advances options mended next =>
      inductionHypothesis refused atEnd same present (another.of_advances advances')
    rcases Nat.lt_or_eq_of_le (Nat.le_trans advances.taken_le course.taken_le) with before | here
    · exact further (advances.congr (same _ before))
    · have untaken := course.taken_le
      cases advances with
      | token _ | openingName _ | closingName _ _ =>
        dsimp only at untaken here
        omega
      | enter deep => exact further (.enter deep)
      | leave => exact further .leave
      | @phrase taken depth rest expansion phrase predicted =>
        dsimp only at here
        subst here
        rw [atEnd] at predicted
        rcases phrase.expand_eq_or_begins expected with alike | ⟨_, predicted', begins⟩
        · refine further (.phrase ?_)
          rw [present, alike, predicted]
        · rw [← present] at predicted' begins
          have another' := another.of_advances (.phrase predicted')
          rcases begins with begins | ⟨rfl, _⟩
          · exact Course.lt_taken_of_begins (begins.append rest) another'
          · -- At the end of the input a name would have been expected.
            cases predicted
            have nameless : (tokens final.taken).kind ≠ .identifier := by simp [atEnd]
            obtain ⟨rfl, _⟩ := course.of_halts (.unexpected rfl nameless)
            cases refused
            exact absurd rfl fixed

/-- A course that refused a token goes past a token of the kind that it expected. -/
theorem Course.lt_taken_of_mended (course : Course options tokens stage
      (.error (.unexpectedToken expected found position)) final)
    (fixed : expected ≠ .identifier) (same : ∀ index < final.taken, tokens index = mended index)
    (present : (mended final.taken).kind = expected)
    (another : Course options mended stage reached last) : final.taken < last.taken := by
  have shallow : Shallow (.error (.unexpectedToken expected found position)) := by
    intro limit position deep
    cases deep
  obtain ⟨verdict, ended, alike⟩ := course.at_cutOff shallow
  cases alike with
  | refused alike =>
    cases alike
    apply ended.lt_taken_of_expected rfl fixed (kind_cutOff tokens _) _ present another
    intro index before
    rw [cutOff_of_lt tokens before]
    exact same index before

/-- A course that has taken a token which is no name did not refuse this token. -/
theorem Course.lt_refusedAt {count : Nat} {error : ParseError}
    (course : Course options tokens stage (.error error) final) (founded : stage.Founded tokens)
    (taken : count < final.taken) (nameless : (tokens count).kind ≠ .identifier) :
    count < error.refusedAt (final.taken + 1) := by
  have rests := course.restsOn founded rfl
  generalize pulled : final.taken + 1 = total at rests ⊢
  cases rests with
  | @mismatchedTag opening closing _ _ _ here _ =>
    have other : count ≠ closing + 2 := by
      rintro rfl
      exact nameless here.2.2.1
    simp only [ParseError.refusedAt]
    omega
  | _ =>
    simp only [ParseError.refusedAt]
    omega

end

section

variable {σ τ : Type} [FiniteSource σ] [FiniteSource τ] {options : Options} {validator : Validator}
  {source : σ} {mended : τ} {expected found : Kind} {position : Position}

theorem opens_of_unexpected
    (failed : (recognizeFrom source options validator).verdict =
      .error (.unexpectedToken expected found position)) (visible : expected ≠ .eof) :
    (TokenSource.token source 0).kind = .lessThan := by
  by_contra noTemplate
  rw [recognizeFrom_of_noTemplate options noTemplate] at failed
  cases reached : (recognizeAtOnce validator (TokenSource.token source 0)
      (TokenSource.skip 1 source)).verdict with
  | ok _ =>
    obtain ⟨_, _, same⟩ := Recognition.error_of_checkEnd reached failed
    cases same
    exact visible rfl
  | error error =>
    rw [Recognition.checkEnd_of_error reached, reached] at failed
    rcases error_of_recognizeAtOnce (reached.trans failed) with ⟨_, other⟩ | ⟨_, other⟩
    · cases other
    · cases other

theorem Course.exists_of_unexpected
    (failed : (recognizeFrom source options validator).verdict =
      .error (.unexpectedToken expected found position)) (visible : expected ≠ .eof) :
    ∃ final, (recognizeFrom source options validator).pulled = final.taken + 1 ∧
      Course options (TokenSource.token source) ⟨0, [.phrase .tags], 0⟩
        (.error (.unexpectedToken expected found position)) final := by
  have opens := opens_of_unexpected failed visible
  obtain ⟨verdict, final, course⟩ := Course.exists_of_source options source ⟨0, [.phrase .tags], 0⟩
  refine ⟨final, ?_, ?_⟩
  · rw [recognizeFrom_of_course opens course, Recognition.pulled_checkEnd]
  · rcases course.error_of_recognizeFrom opens failed with rfl | ⟨_, same⟩
    · exact course
    · cases same
      exact absurd rfl visible

/-- A recognition that refused a token at `count` goes past a token of the kind it expected. -/
theorem lt_pulled_of_mended {final : Stage}
    (opens : (TokenSource.token source 0).kind = .lessThan)
    (course : Course options (TokenSource.token source) ⟨0, [.phrase .tags], 0⟩
      (.error (.unexpectedToken expected found position)) final)
    (fixed : expected ≠ .identifier)
    (same : ∀ index < final.taken, TokenSource.token source index = TokenSource.token mended index)
    (present : (TokenSource.token mended final.taken).kind = expected) :
    final.taken + 1 < (recognizeFrom mended options validator).pulled ∧
      ∀ error, (recognizeFrom mended options validator).verdict = .error error →
        final.taken < error.refusedAt (recognizeFrom mended options validator).pulled := by
  have begins : Begins (TokenSource.token source 0).kind [.phrase .tags] := by
    rw [opens]
    exact .phrase rfl (.phrase rfl .token)
  have opens' : (TokenSource.token mended 0).kind = .lessThan := by
    rw [← same 0 (Course.lt_taken_of_begins begins course)]
    exact opens
  obtain ⟨verdict, last, another⟩ := Course.exists_of_source options mended ⟨0, [.phrase .tags], 0⟩
  have beyond := course.lt_taken_of_mended fixed same present another
  have pulled : (recognizeFrom mended options validator).pulled = last.taken + 1 := by
    rw [recognizeFrom_of_course opens' another, Recognition.pulled_checkEnd]
  rw [pulled]
  refine ⟨Nat.succ_lt_succ beyond, ?_⟩
  intro error failed
  rcases another.error_of_recognizeFrom opens' failed with rfl | ⟨_, rfl⟩
  · apply another.lt_refusedAt (Stage.founded_start _) beyond
    rw [present]
    exact fixed
  · exact beyond

end

/-- Following the hint makes progress.  If a recognition of a stream fails for want of a kind whose
tokens are all spelled alike, let such a token be inserted in front of the last one pulled.  Then
the recognition takes what it took before and the inserted token, and if it still fails, then for
a later one. -/
theorem following_hint_makes_progress (stream : TokenStream) {options : Options}
    {validator : Validator} {expected found : Kind} {position : Position} {symbol : String}
    (failed : (recognizeFrom stream options validator).verdict =
      .error (.unexpectedToken expected found position))
    (hinted : expected.symbol? = some symbol) :
    ∃ front back, stream.tokens = front ++ back ∧
      (recognizeFrom stream options validator).pulled = front.length + 1 ∧
        ∀ inserted : Token, inserted.kind = expected →
          let mended := TokenStream.mk (front ++ inserted :: back) stream.last
          let recognition := recognizeFrom mended options validator
          front.length + 2 ≤ recognition.pulled ∧
            front ++ [inserted] <+: TokenSource.upcoming (recognition.pulled - 1) mended ∧
            ∀ error, recognition.verdict = .error error →
              front.length < error.refusedAt recognition.pulled := by
  have visible : expected ≠ .eof := by
    rintro rfl
    cases hinted
  have fixed : expected ≠ .identifier := by
    rintro rfl
    cases hinted
  have opens := opens_of_unexpected failed visible
  obtain ⟨final, pulled, course⟩ := Course.exists_of_unexpected failed visible
  have inside : final.taken ≤ stream.tokens.length := by
    apply course.taken_le_of_ended _ (Nat.zero_le _)
    simp [TokenStream.kind_token]
  obtain ⟨front, back, split, count⟩ : ∃ front back,
      stream.tokens = front ++ back ∧ front.length = final.taken :=
    ⟨_, _, (List.take_append_drop final.taken _).symm, List.length_take_of_le inside⟩
  refine ⟨front, back, split, ?_, ?_⟩
  · rw [pulled, count]
  · intro inserted kind mended recognition
    have same : ∀ index < final.taken,
        TokenSource.token stream index = TokenSource.token mended index := by
      intro index before
      obtain ⟨tokens, last⟩ := stream
      cases split
      rw [← count] at before
      exact (TokenStream.token_append_left front back last before).trans
        (TokenStream.token_append_left front (inserted :: back) last before).symm
    have present : TokenSource.token mended final.taken = inserted := by
      rw [← count]
      exact TokenStream.token_append_cons ..
    rw [← present] at kind
    obtain ⟨beyond, refused⟩ := lt_pulled_of_mended opens course fixed same kind
    rw [← count] at beyond refused
    refine ⟨beyond, ?_, refused⟩
    have taken : (front ++ [inserted]).length ≤ recognition.pulled - 1 := by
      rw [List.length_append]
      exact Nat.le_sub_one_of_lt beyond
    have consumed := TokenStream.prefix_upcoming (front ++ [inserted]) back stream.last taken
    rwa [List.append_assoc] at consumed

/-- A tag whose opening name is followed by a brace lacks a greater-than sign.  With it the brace
is read as well. -/
theorem following_hint_makes_progress_unclosed_tag :
    let sign := Token.mk .lessThan none ⟨1, 1⟩
    let name := Token.mk .identifier (some "p") ⟨1, 2⟩
    let brace := Token.mk .openBrace none ⟨1, 4⟩
    let recognition := fun tokens : List Token =>
      recognizeFrom (TokenStream.ofList tokens) .strict .acceptAll
    (recognition [sign, name, brace]).verdict =
        .error (.unexpectedToken .greaterThan .openBrace ⟨1, 4⟩) ∧
      Kind.greaterThan.symbol? = some ">" ∧
        ∀ inserted : Token, inserted.kind = .greaterThan →
          4 ≤ (recognition [sign, name, inserted, brace]).pulled := by
  intro sign name brace recognition
  have course : Course .strict (TokenSource.token (TokenStream.ofList [sign, name, brace]))
      ⟨0, [.phrase .tags], 0⟩ (.error (.unexpectedToken .greaterThan .openBrace ⟨1, 4⟩))
      ⟨2, [], 0⟩ :=
    .advances (.phrase rfl) (.advances (.phrase rfl) (.advances (.token rfl)
      (.advances (.openingName rfl) (.halts (.unexpected rfl (by decide))))))
  have whole := recognizeFrom_of_course rfl course .acceptAll
  rw [Recognition.checkEnd_of_error rfl] at whole
  have failed : (recognition [sign, name, brace]).verdict = _ := congrArg (·.verdict) whole
  refine ⟨failed, rfl, ?_⟩
  obtain ⟨front, back, split, pulled, progress⟩ := following_hint_makes_progress _ failed rfl
  have count : front.length = 2 := by
    rw [whole] at pulled
    exact (Nat.succ.inj pulled).symm
  obtain ⟨rfl, rfl⟩ : [sign, name] = front ∧ [brace] = back :=
    List.append_inj split count.symm
  intro inserted kind
  exact (progress inserted kind).1

end TemplateRecognizer
