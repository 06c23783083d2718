import TemplateRecognizer.Proofs.Lexer.Stream
import TemplateRecognizer.Proofs.Recognizer.Locality

/-!
# Tokens that have no place in a template

The grammar has no place for an end of input, for an unknown token or for the name of a type.
A recognition waits for none of these.  So it takes none of them, and ends before the first
one, whatever comes behind it.
-/

set_option autoImplicit false

namespace TemplateRecognizer

/-- Holds of the kinds that tokens of a template can have. -/
def Kind.isPlaced (kind : Kind) : Bool :=
  !(kind == .eof || kind == .unknown || kind.isTypeKeyword)

def Token.isPlaced (token : Token) : Bool := token.kind.isPlaced

def Symbol.isPlaced : Symbol → Bool
  | .token kind _ => kind.isPlaced
  | _ => true

theorem Phrase.isPlaced_of_expand {phrase : Phrase} {ahead : Kind} {expansion : List Symbol}
    (predicted : phrase.expand ahead = some expansion) :
    ∀ symbol ∈ expansion, symbol.isPlaced = true := by
  cases phrase <;> simp only [expand] at predicted
  all_goals first
    | (split at predicted <;> cases predicted <;>
        simp [Symbol.isPlaced, Kind.isPlaced, Kind.isTypeKeyword])
    | (cases predicted; simp [Symbol.isPlaced, Kind.isPlaced, Kind.isTypeKeyword])

/-! ## What a course takes -/

def Stage.Placed (stage : Stage) : Prop :=
  ∀ symbol ∈ stage.pending, symbol.isPlaced = true

theorem Stage.placed_start : (Stage.mk 0 [.phrase .tags] 0).Placed := by
  intro symbol member
  rw [List.mem_singleton.mp member]
  rfl

section

variable {options : Options} {tokens : Nat → Token} {stage next final : Stage}
  {verdict : Except ParseError Unit}

theorem isPlaced_between_succ {index : Nat} (placed : (tokens index).isPlaced = true) :
    ∀ token ∈ between tokens index (index + 1), token.isPlaced = true := by
  intro token member
  rw [between_succ, List.mem_singleton] at member
  rwa [member]

theorem isPlaced_between_self (index : Nat) :
    ∀ token ∈ between tokens index index, token.isPlaced = true := by
  intro token member
  rw [between_self] at member
  cases member

theorem Stage.Placed.advances (placed : stage.Placed)
    (advances : stage.Advances options tokens next) :
    next.Placed ∧
      ∀ token ∈ between tokens stage.taken next.taken, token.isPlaced = true := by
  cases advances with
  | token same =>
    obtain ⟨here, behind⟩ := List.forall_mem_cons.mp placed
    refine ⟨behind, isPlaced_between_succ ?_⟩
    rw [Token.isPlaced, same]
    exact here
  | openingName same =>
    obtain ⟨_, behind⟩ := List.forall_mem_cons.mp placed
    refine ⟨?_, isPlaced_between_succ (by rw [Token.isPlaced, same]; rfl)⟩
    refine List.forall_mem_append.mpr ⟨?_, behind⟩
    simp [Symbol.afterOpeningName, Symbol.isPlaced, Kind.isPlaced, Kind.isTypeKeyword]
  | closingName same _ =>
    obtain ⟨_, behind⟩ := List.forall_mem_cons.mp placed
    exact ⟨behind, isPlaced_between_succ (by rw [Token.isPlaced, same]; rfl)⟩
  | enter _ => exact ⟨(List.forall_mem_cons.mp placed).2, isPlaced_between_self _⟩
  | leave => exact ⟨(List.forall_mem_cons.mp placed).2, isPlaced_between_self _⟩
  | phrase predicted =>
    obtain ⟨_, behind⟩ := List.forall_mem_cons.mp placed
    refine ⟨?_, isPlaced_between_self _⟩
    exact List.forall_mem_append.mpr ⟨Phrase.isPlaced_of_expand predicted, behind⟩

theorem Stage.Halts.isPlaced_between (halts : stage.Halts options tokens verdict final) :
    ∀ token ∈ between tokens stage.taken final.taken, token.isPlaced = true := by
  cases halts with
  | mismatched _ same _ => exact isPlaced_between_succ (by rw [Token.isPlaced, same]; rfl)
  | _ => exact isPlaced_between_self _

/-- All that a course takes has a place, if all that is waited for at its start has. -/
theorem Course.isPlaced_between (course : Course options tokens stage verdict final)
    (placed : stage.Placed) :
    ∀ token ∈ between tokens stage.taken final.taken, token.isPlaced = true := by
  induction course with
  | halts halts => exact halts.isPlaced_between
  | advances advances course inductionHypothesis =>
    obtain ⟨behind, first⟩ := placed.advances advances
    rw [← between_append _ advances.taken_le course.taken_le]
    exact List.forall_mem_append.mpr ⟨first, inductionHypothesis behind⟩

end

/-! ## What a recognition takes -/

section

variable {σ : Type} [TokenSource σ] {options : Options} {validator : Validator} {source : σ}
  {tokens : List Token} {recognition : Recognition σ}

theorem Recognizes.isPlaced (recognizes : Recognizes options validator source tokens recognition) :
    ∀ token ∈ tokens, token.isPlaced = true := by
  rcases recognizes.decided with ⟨_, rfl, _⟩ | ⟨_, verdict, final, course, rfl, _⟩
  · simp
  · exact course.isPlaced_between Stage.placed_start

theorem Recognizes.pulled_le (recognizes : Recognizes options validator source tokens recognition)
    {index : Nat} (unplaced : (TokenSource.token source index).isPlaced = false) :
    recognition.pulled ≤ index + 1 := by
  obtain ⟨_, pulls⟩ := recognizes.pulls
  have count := congrArg List.length pulls
  rw [TokenSource.length_upcoming, List.length_append, List.length_singleton] at count
  by_contra further
  have inside : index < tokens.length := by omega
  have here : tokens[index] = TokenSource.token source index := by
    have within : index < (TokenSource.upcoming recognition.pulled source).length := by
      rw [TokenSource.length_upcoming]
      omega
    have pulled := TokenSource.getElem_upcoming source within
    simpa only [← pulls, List.getElem_append_left inside] using pulled
  have placed := recognizes.isPlaced _ (List.getElem_mem inside)
  rw [here, unplaced] at placed
  cases placed

end

/-- Behind as many tokens as have a place from the first one on, a stream hands out one that
has none. -/
theorem TokenStream.isPlaced_behind (tokens : List Token) (last : Position) :
    (TokenSource.token (TokenStream.mk tokens last)
      (tokens.takeWhile Token.isPlaced).length).isPlaced = false := by
  induction tokens generalizing last with
  | nil => rfl
  | cons token rest inductionHypothesis =>
    by_cases placed : token.isPlaced = true
    · rw [List.takeWhile_cons_of_pos placed]
      exact inductionHypothesis token.position
    · rw [List.takeWhile_cons_of_neg placed]
      exact Bool.not_eq_true _ ▸ placed

section

variable {σ : Type} [FiniteSource σ] {options : Options} {validator : Validator}

theorem pulled_le_of_unplaced (source : σ) {index : Nat}
    (unplaced : (TokenSource.token source index).isPlaced = false) :
    (recognizeFrom source options validator).pulled ≤ index + 1 := by
  obtain ⟨_, recognizes⟩ := exists_recognizes source options validator
  exact recognizes.pulled_le unplaced

end

theorem error_of_unplaced {text : String} {options : Options} {validator : Validator}
    (required : options.requireEndOfInput = true) {token : Token} (member : token ∈ tokenize text)
    (visible : token.kind ≠ .eof) (unplaced : token.isPlaced = false) :
    ∃ error, recognizeWith text options validator = .error error := by
  cases reached : recognizeWith text options validator with
  | error error => exact ⟨error, rfl⟩
  | ok _ =>
    obtain ⟨_, final, course, ended⟩ := (recognizeFrom_eq_ok_iff required validator).mp reached
    obtain ⟨index, inside, here⟩ := List.mem_iff_getElem.mp member
    rw [← Lexer.token_eq_getElem text inside] at here
    by_cases taken : index < final.taken
    · have placed := course.isPlaced_between Stage.placed_start token
        (here ▸ token_mem_between (Nat.zero_le index) taken)
      rw [unplaced] at placed
      cases placed
    · -- What was not taken is the end of the text, which is no token to be refused.
      have behind := Lexer.length_le_of_ended ended
      rw [Lexer.token_behind_text text (by omega)] at here
      rw [← here] at visible
      exact absurd rfl visible

/-- Every recognition of a finite source ends, and never takes an end of input, an unknown
token or the name of a type.  It pulls no token behind the first of these, even where an
explicit end of input is followed by other tokens.  So where the input must end, no text is
accepted that holds an unknown token or the name of a type. -/
theorem ends_before_unplaced_token :
    (∀ {σ : Type} [FiniteSource σ] (source : σ) (options : Options) (validator : Validator),
      ∃ tokens,
        Recognizes options validator source tokens (recognizeFrom source options validator) ∧
        (∀ token ∈ tokens, token.isPlaced = true) ∧
        ∀ index, (TokenSource.token source index).isPlaced = false →
          (recognizeFrom source options validator).pulled ≤ index + 1) ∧
    (∀ (stream : TokenStream) (options : Options) (validator : Validator),
      (recognizeFrom stream options validator).pulled ≤
        (stream.tokens.takeWhile Token.isPlaced).length + 1) ∧
    ∀ (text : String) (options : Options) (validator : Validator),
      (recognizeFrom (Lexer.ofString text) options validator).pulled ≤
        ((tokenize text).takeWhile Token.isPlaced).length + 1 ∧
      (options.requireEndOfInput = true →
        ∀ token ∈ tokenize text, token.kind = .unknown ∨ token.kind.isTypeKeyword = true →
          ∃ error, recognizeWith text options validator = .error error) := by
  have streams : ∀ (stream : TokenStream) (options : Options) (validator : Validator),
      (recognizeFrom stream options validator).pulled ≤
        (stream.tokens.takeWhile Token.isPlaced).length + 1 := by
    intro stream options validator
    exact pulled_le_of_unplaced stream (TokenStream.isPlaced_behind stream.tokens stream.last)
  refine ⟨?_, streams, ?_⟩
  · intro σ _ source options validator
    obtain ⟨tokens, recognizes⟩ := exists_recognizes source options validator
    exact ⟨tokens, recognizes, recognizes.isPlaced, fun _ => recognizes.pulled_le⟩
  · intro text options validator
    refine ⟨?_, ?_⟩
    · obtain ⟨alike, _⟩ := (agree_tokenize text).recognizeFrom options validator
      rw [← alike]
      exact streams (.ofList (tokenize text)) options validator
    · intro required token member unplaced
      refine error_of_unplaced required member ?_ ?_
      · rcases unplaced with unknown | type
        · rw [unknown]
          decide
        · intro ended
          rw [ended] at type
          cases type
      · rcases unplaced with unknown | type
        · rw [Token.isPlaced, unknown]
          rfl
        · simp [Token.isPlaced, Kind.isPlaced, type]

end TemplateRecognizer
