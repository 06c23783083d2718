import Mathlib.Data.List.Forall2
import TemplateRecognizer.Proofs.Grammar.Pending
import TemplateRecognizer.Proofs.Recognizer.Course

/-!
# Courses over tokens of the same kinds

Two recognitions over tokens of the same kinds make the same moves.  What they wait for
differs in nothing but the names of open tags, and each of these was read at one index by
both.  Names are compared with names only, so that strict recognitions agree as well if both
sequences tell the same names apart.
-/

set_option autoImplicit false

namespace TemplateRecognizer

/-- Says that the identifiers of two sequences have the same pattern of equal texts, an absent
text counting as empty. -/
def SameNames (tokens others : Nat → Token) : Prop :=
  ∀ first second, (tokens first).kind = .identifier → (tokens second).kind = .identifier →
    ((tokens first).textOrEmpty = (tokens second).textOrEmpty ↔
      (others first).textOrEmpty = (others second).textOrEmpty)

/-- `error.Corresponds tokens others pulled other` says that two recognitions that pulled
`pulled` tokens refuse for the same reason, and that each tells the positions and texts of its
own tokens, and both of tokens at the same index.  Only a mismatched name was taken, and is
followed by the lookahead. -/
inductive ParseError.Corresponds (tokens others : Nat → Token) :
    Nat → ParseError → ParseError → Prop where
  | unexpectedToken {expected found : Kind} {index : Nat} :
      Corresponds tokens others (index + 1)
        (.unexpectedToken expected found (tokens index).position)
        (.unexpectedToken expected found (others index).position)
  | unrecognizedStatement {pulled : Nat} :
      Corresponds tokens others pulled .unrecognizedStatement .unrecognizedStatement
  | noRootProduction {found : Kind} {index : Nat} :
      Corresponds tokens others (index + 1)
        (.noRootProduction found (tokens index).position)
        (.noRootProduction found (others index).position)
  | mismatchedTag {opening closing : Nat} :
      opening < closing →
        Corresponds tokens others (closing + 2)
          (.mismatchedTag (tokens opening).textOrEmpty (tokens closing).textOrEmpty
            (tokens closing).position)
          (.mismatchedTag (others opening).textOrEmpty (others closing).textOrEmpty
            (others closing).position)
  | nestingTooDeep {limit index : Nat} :
      Corresponds tokens others (index + 1)
        (.nestingTooDeep limit (tokens index).position)
        (.nestingTooDeep limit (others index).position)
  | rejectedConstruct {pulled : Nat} {construct : Construct} :
      Corresponds tokens others pulled (.rejectedConstruct construct)
        (.rejectedConstruct construct)

inductive CorrespondingVerdicts (tokens others : Nat → Token) (pulled : Nat) :
    Except ParseError Unit → Except ParseError Unit → Prop where
  | accepted : CorrespondingVerdicts tokens others pulled (.ok ()) (.ok ())
  | refused {error other : ParseError} :
      error.Corresponds tokens others pulled other →
        CorrespondingVerdicts tokens others pulled (.error error) (.error other)

/-! ## Stages -/

/-- Symbols that are the same, but for a name that was read before the token ahead. -/
inductive Symbol.Corresponds (tokens others : Nat → Token) (taken : Nat) :
    Symbol → Symbol → Prop where
  | same {symbol : Symbol} :
      symbol.closes? = none → Corresponds tokens others taken symbol symbol
  | closingName {index : Nat} :
      index < taken → (tokens index).kind = .identifier →
        Corresponds tokens others taken (.closingName (tokens index).textOrEmpty)
          (.closingName (others index).textOrEmpty)

structure Stage.Corresponds (tokens others : Nat → Token) (stage other : Stage) : Prop where
  taken : other.taken = stage.taken
  depth : other.depth = stage.depth
  pending : List.Forall₂ (Symbol.Corresponds tokens others stage.taken) stage.pending other.pending

theorem Stage.corresponds_start (tokens others : Nat → Token) :
    (Stage.mk 0 [.phrase .tags] 0).Corresponds tokens others ⟨0, [.phrase .tags], 0⟩ :=
  ⟨rfl, rfl, .cons (.same rfl) .nil⟩

section

variable {options : Options} {tokens others : Nat → Token} {taken : Nat}
  {stage other next final : Stage} {verdict : Except ParseError Unit}

theorem Symbol.corresponds_later {pending pending' : List Symbol}
    (corresponds : List.Forall₂ (Symbol.Corresponds tokens others taken) pending pending') :
    List.Forall₂ (Symbol.Corresponds tokens others (taken + 1)) pending pending' := by
  refine corresponds.imp ?_
  intro symbol symbol' related
  cases related with
  | same nameless => exact .same nameless
  | closingName before name => exact .closingName (Nat.lt_succ_of_lt before) name

theorem Symbol.corresponds_append {front rest rest' : List Symbol}
    (nameless : ∀ symbol ∈ front, symbol.closes? = none)
    (behind : List.Forall₂ (Symbol.Corresponds tokens others taken) rest rest') :
    List.Forall₂ (Symbol.Corresponds tokens others taken) (front ++ rest) (front ++ rest') := by
  induction front with
  | nil => exact behind
  | cons symbol front inductionHypothesis =>
    rw [List.forall_mem_cons] at nameless
    exact .cons (.same nameless.1) (inductionHypothesis nameless.2)

theorem Symbol.corresponds_afterOpeningName {rest rest' : List Symbol}
    (name : (tokens taken).kind = .identifier)
    (behind : List.Forall₂ (Symbol.Corresponds tokens others taken) rest rest') :
    List.Forall₂ (Symbol.Corresponds tokens others (taken + 1))
      (afterOpeningName (tokens taken).textOrEmpty ++ rest)
      (afterOpeningName (others taken).textOrEmpty ++ rest') :=
  .cons (.same rfl) (.cons (.same rfl) (.cons (.same rfl) (.cons (.same rfl)
    (.cons (.closingName (Nat.lt_succ_self taken) name) (.cons (.same rfl)
      (corresponds_later behind))))))

theorem Stage.Corresponds.advances (corresponds : stage.Corresponds tokens others other)
    (same : (tokens stage.taken).kind = (others stage.taken).kind)
    (names : options.strictTagNames = true → SameNames tokens others)
    (advances : stage.Advances options tokens next) :
    ∃ next', other.Advances options others next' ∧ next.Corresponds tokens others next' := by
  obtain ⟨taken', pending', depth'⟩ := other
  obtain ⟨takenEq, depthEq, pending⟩ := corresponds
  dsimp only at takenEq depthEq pending
  subst takenEq depthEq
  cases advances with
  | token fits =>
    cases pending with
    | cons head behind =>
      cases head
      exact ⟨_, .token (same.symm.trans fits), rfl, rfl, Symbol.corresponds_later behind⟩
  | openingName fits =>
    cases pending with
    | cons head behind =>
      cases head
      exact ⟨_, .openingName (same.symm.trans fits), rfl, rfl,
        Symbol.corresponds_afterOpeningName fits behind⟩
  | closingName fits agrees =>
    cases pending with
    | cons head behind =>
      cases head with
      | same nameless => cases nameless
      | closingName _ name =>
        refine ⟨_, .closingName (same.symm.trans fits) ?_, rfl, rfl,
          Symbol.corresponds_later behind⟩
        -- The opening name was read at an index too, so that `names` speaks of both texts.
        intro strict
        exact (names strict _ _ name fits).mp (agrees strict)
  | enter shallow =>
    cases pending with
    | cons head behind =>
      cases head
      exact ⟨_, .enter shallow, rfl, rfl, behind⟩
  | leave =>
    cases pending with
    | cons head behind =>
      cases head
      exact ⟨_, .leave, rfl, rfl, behind⟩
  | phrase predicted =>
    cases pending with
    | cons head behind =>
      cases head
      have nameless := Phrase.closes?_of_expand predicted
      dsimp only at same
      rw [same] at predicted
      exact ⟨_, .phrase predicted, rfl, rfl, Symbol.corresponds_append nameless behind⟩

theorem Stage.Corresponds.halts (corresponds : stage.Corresponds tokens others other)
    (same : (tokens stage.taken).kind = (others stage.taken).kind)
    (names : options.strictTagNames = true → SameNames tokens others)
    (halts : stage.Halts options tokens verdict final) :
    ∃ verdict' final', other.Halts options others verdict' final' ∧
      final'.taken = final.taken ∧
      CorrespondingVerdicts tokens others (final.taken + 1) verdict verdict' := by
  obtain ⟨taken', pending', depth'⟩ := other
  obtain ⟨takenEq, depthEq, pending⟩ := corresponds
  dsimp only at takenEq depthEq pending
  subst takenEq depthEq
  cases halts with
  | done =>
    cases pending
    exact ⟨_, _, .done, rfl, .accepted⟩
  | @unexpected taken depth rest symbol expected awaited wrong =>
    cases pending with
    | @cons _ symbol' _ _ head behind =>
      have awaited' : symbol'.awaited? = some expected := by
        cases head with
        | same _ => exact awaited
        | closingName _ _ => exact awaited
      dsimp only at same
      rw [same] at wrong ⊢
      exact ⟨_, _, .unexpected awaited' wrong, rfl, .refused .unexpectedToken⟩
  | @mismatched taken depth rest opening strict fits different =>
    cases pending with
    | cons head behind =>
      cases head with
      | same nameless => cases nameless
      | closingName before name =>
        refine ⟨_, _, .mismatched strict (same.symm.trans fits) ?_, rfl,
          .refused (.mismatchedTag before)⟩
        intro agree
        exact different ((names strict _ _ name fits).mpr agree)
  | tooDeep deep =>
    cases pending with
    | cons head behind =>
      cases head
      exact ⟨_, _, .tooDeep deep, rfl, .refused .nestingTooDeep⟩
  | unrecognized refused =>
    cases pending with
    | cons head behind =>
      cases head
      dsimp only at same
      rw [same] at refused
      exact ⟨_, _, .unrecognized refused, rfl, .refused .unrecognizedStatement⟩

/-- Courses from stages that correspond end alike, if the tokens are of the same kinds as far
as the first course goes. -/
theorem Course.corresponds (course : Course options tokens stage verdict final)
    (same : ∀ index ≤ final.taken, (tokens index).kind = (others index).kind)
    (names : options.strictTagNames = true → SameNames tokens others)
    (corresponds : stage.Corresponds tokens others other) :
    ∃ verdict' final', Course options others other verdict' final' ∧
      final'.taken = final.taken ∧
      CorrespondingVerdicts tokens others (final.taken + 1) verdict verdict' := by
  induction course generalizing other with
  | halts halts =>
    obtain ⟨verdict', final', halts', place, alike⟩ :=
      corresponds.halts (same _ halts.taken_le) names halts
    exact ⟨verdict', final', .halts halts', place, alike⟩
  | advances advances course inductionHypothesis =>
    have here := same _ (Nat.le_trans advances.taken_le course.taken_le)
    obtain ⟨next', advances', further⟩ := corresponds.advances here names advances
    obtain ⟨verdict', final', course', place, alike⟩ := inductionHypothesis same further
    exact ⟨verdict', final', .advances advances' course', place, alike⟩

end

end TemplateRecognizer
