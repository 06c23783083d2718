import TemplateRecognizer.Proofs.Recognizer.Locality

/-!
# Where a token is refused

A phrase looks at the token ahead only to see whether it begins with that token.  If it does, it
takes the token, unless the levels are used up; if it does not, it goes on as it would at the end
of the input.  So a recognition that refuses a token refuses an end of input in the same place,
and for the same reason.
-/

set_option autoImplicit false

namespace TemplateRecognizer

/-! ## Phrases that begin with the token ahead -/

inductive Begins (kind : Kind) : List Symbol → Prop where
  | token {visible : kind ≠ .eof} {rest : List Symbol} : Begins kind (.token kind visible :: rest)
  | phrase {phrase : Phrase} {expansion rest : List Symbol} :
      phrase.expand kind = some expansion → Begins kind (expansion ++ rest) →
        Begins kind (.phrase phrase :: rest)

theorem Begins.append {kind : Kind} {front : List Symbol} (begins : Begins kind front)
    (rest : List Symbol) : Begins kind (front ++ rest) := by
  induction begins with
  | token => exact .token
  | phrase predicted _ inductionHypothesis =>
    rw [List.append_assoc] at inductionHypothesis
    exact .phrase predicted inductionHypothesis

/-- A phrase begins with the token ahead, maybe inside of a level, or it goes on as at the end of
the input. -/
theorem Phrase.expand_eq_or_begins (phrase : Phrase) (ahead : Kind) :
    phrase.expand ahead = phrase.expand .eof ∨
      ∃ expansion, phrase.expand ahead = some expansion ∧
        (Begins ahead expansion ∨
          phrase = .operand ∧ ∃ inside, expansion = .enter :: inside ∧ Begins ahead inside) := by
  cases phrase with
  | tag | statement | conditional | loop | body | equality | relation | sum | product | items =>
    exact .inl rfl
  | tags =>
    simp only [expand]
    split
    · exact .inr ⟨_, rfl, .inl (.phrase rfl .token)⟩
    · exact .inl rfl
  | statements =>
    simp only [expand]
    split
    · exact .inr ⟨_, rfl, .inl (.phrase rfl .token)⟩
    · exact .inl rfl
  | directive =>
    simp only [expand]
    split
    · exact .inr ⟨_, rfl, .inl .token⟩
    · exact .inr ⟨_, rfl, .inl (.phrase rfl .token)⟩
    · exact .inr ⟨_, rfl, .inl (.phrase rfl .token)⟩
    · exact .inl rfl
  | equalityRest | relationRest | sumRest | productRest =>
    simp only [expand]
    split
    · exact .inr ⟨_, rfl, .inl .token⟩
    · exact .inr ⟨_, rfl, .inl .token⟩
    · exact .inl rfl
  | operand =>
    simp only [expand]
    split
    · exact .inr ⟨_, rfl, .inr ⟨trivial, _, rfl, .token⟩⟩
    · exact .inr ⟨_, rfl, .inr ⟨trivial, _, rfl, .token⟩⟩
    · exact .inr ⟨_, rfl, .inl .token⟩
    · exact .inr ⟨_, rfl, .inl .token⟩
    · exact .inr ⟨_, rfl, .inl .token⟩
    · exact .inl rfl
  | itemsRest =>
    simp only [expand]
    split
    · exact .inr ⟨_, rfl, .inl .token⟩
    · exact .inl rfl

section

variable {options : Options} {tokens ended : Nat → Token} {stage next final : Stage}
  {verdict : Except ParseError Unit}

theorem Course.lt_taken_of_begins {taken depth : Nat} {pending : List Symbol}
    (begins : Begins (tokens taken).kind pending)
    (course : Course options tokens ⟨taken, pending, depth⟩ verdict final) :
    taken < final.taken := by
  induction begins with
  | token => exact (course.of_advances (.token rfl)).taken_le
  | phrase predicted _ inductionHypothesis =>
    exact inductionHypothesis (course.of_advances (.phrase predicted))

/-! ## Refusals at the end of the input -/

/-- `error.SameAt found other error'` says that two recognitions refuse for the same reason, the
one where it meets `found` and the other where it meets `other`. -/
inductive ParseError.SameAt (found other : Token) : ParseError → ParseError → Prop where
  | unexpectedToken {expected : Kind} :
      SameAt found other (.unexpectedToken expected found.kind found.position)
        (.unexpectedToken expected other.kind other.position)
  | unrecognizedStatement : SameAt found other .unrecognizedStatement .unrecognizedStatement
  | mismatchedTag {opening closing : String} {position : Position} :
      SameAt found other (.mismatchedTag opening closing position)
        (.mismatchedTag opening closing position)

inductive SameVerdictAt (found other : Token) :
    Except ParseError Unit → Except ParseError Unit → Prop where
  | accepted : SameVerdictAt found other (.ok ()) (.ok ())
  | refused {error error' : ParseError} :
      error.SameAt found other error' → SameVerdictAt found other (.error error) (.error error')

def Shallow (verdict : Except ParseError Unit) : Prop :=
  ∀ limit position, verdict ≠ .error (.nestingTooDeep limit position)

/-- A step in front of a token that is not taken is one in front of the end of the input. -/
theorem Stage.Advances.at_end (advances : stage.Advances options tokens next)
    (course : Course options tokens next verdict final) (here : final.taken = stage.taken)
    (shallow : Shallow verdict) (atEnd : (ended stage.taken).kind = .eof) :
    stage.Advances options ended next := by
  have untaken := course.taken_le
  cases advances with
  | token _ =>
    dsimp only at untaken here
    omega
  | openingName _ =>
    dsimp only at untaken here
    omega
  | closingName _ _ =>
    dsimp only at untaken here
    omega
  | enter deep => exact .enter deep
  | leave => exact .leave
  | @phrase taken depth rest expansion phrase predicted =>
    dsimp only at here atEnd
    rcases phrase.expand_eq_or_begins (tokens taken).kind with same | ⟨_, predicted', begins⟩
    · refine .phrase ?_
      rw [atEnd, ← same, predicted]
    · cases predicted.symm.trans predicted'
      -- The token would be taken, or a level be opened that cannot be.
      rcases begins with begins | ⟨_, inside, rfl, begins⟩
      · have further := Course.lt_taken_of_begins (begins.append rest) course
        omega
      · by_cases deep : depth < options.maxDepth
        · have further := Course.lt_taken_of_begins (begins.append rest)
            (course.of_advances (.enter deep))
          omega
        · obtain ⟨rfl, _⟩ := course.of_halts (.tooDeep (Nat.le_of_not_lt deep))
          exact absurd rfl (shallow _ _)

theorem Symbol.awaited?_ne_eof {symbol : Symbol} {expected : Kind}
    (awaited : symbol.awaited? = some expected) : expected ≠ .eof := by
  cases symbol with
  | token kind visible =>
    cases awaited
    exact visible
  | openingName | closingName _ =>
    cases awaited
    decide
  | _ => cases awaited

theorem Stage.Halts.at_end (halts : stage.Halts options tokens verdict final)
    (same : ∀ index < final.taken, tokens index = ended index) (shallow : Shallow verdict)
    (atEnd : (ended final.taken).kind = .eof) :
    ∃ verdict', stage.Halts options ended verdict' final ∧
      SameVerdictAt (tokens final.taken) (ended final.taken) verdict verdict' := by
  cases halts with
  | done => exact ⟨_, .done, .accepted⟩
  | unexpected awaited _ =>
    dsimp only [abandon] at atEnd
    refine ⟨_, .unexpected awaited ?_, .refused .unexpectedToken⟩
    rw [atEnd]
    exact (Symbol.awaited?_ne_eof awaited).symm
  | @mismatched taken depth rest opening strict name different =>
    have closing := same taken (Nat.lt_succ_self taken)
    rw [closing] at name different ⊢
    exact ⟨_, .mismatched strict name different, .refused .mismatchedTag⟩
  | tooDeep _ => exact absurd rfl (shallow _ _)
  | @unrecognized taken depth rest phrase refused =>
    obtain ⟨rfl, _⟩ := (Phrase.expand_eq_none_iff _ _).mp refused
    dsimp only [abandon] at atEnd
    refine ⟨_, .unrecognized ?_, .refused .unrecognizedStatement⟩
    rw [atEnd]
    rfl

/-- A recognition that ends in front of a token, but not for want of depth, ends in the same way
in front of an end of the input. -/
theorem Course.at_end (course : Course options tokens stage verdict final)
    (same : ∀ index < final.taken, tokens index = ended index) (shallow : Shallow verdict)
    (atEnd : (ended final.taken).kind = .eof) :
    ∃ verdict', Course options ended stage verdict' final ∧
      SameVerdictAt (tokens final.taken) (ended final.taken) verdict verdict' := by
  induction course with
  | halts halts =>
    obtain ⟨verdict', halts', alike⟩ := halts.at_end same shallow atEnd
    exact ⟨verdict', .halts halts', alike⟩
  | @advances stage next final verdict advances course inductionHypothesis =>
    obtain ⟨verdict', course', alike⟩ := inductionHypothesis same shallow atEnd
    refine ⟨verdict', .advances ?_ course', alike⟩
    rcases Nat.lt_or_eq_of_le (Nat.le_trans advances.taken_le course.taken_le) with before | here
    · exact advances.congr (same _ before)
    · exact advances.at_end course here.symm shallow (here ▸ atEnd)

/-! ## Sequences that are cut off -/

def cutOff (tokens : Nat → Token) (count : Nat) : Nat → Token := fun index =>
  if index < count then tokens index else .endOfInput .start

theorem cutOff_of_lt (tokens : Nat → Token) {index count : Nat} (before : index < count) :
    cutOff tokens count index = tokens index := if_pos before

theorem kind_cutOff (tokens : Nat → Token) (count : Nat) :
    (cutOff tokens count count).kind = .eof := by
  rw [cutOff, if_neg (Nat.lt_irrefl count)]
  rfl

theorem cutOff_congr {others : Nat → Token} {count : Nat}
    (same : ∀ index < count, tokens index = others index) :
    cutOff tokens count = cutOff others count := by
  funext index
  unfold cutOff
  split
  · exact same index ‹_›
  · rfl

theorem Course.at_cutOff (course : Course options tokens stage verdict final)
    (shallow : Shallow verdict) :
    ∃ verdict', Course options (cutOff tokens final.taken) stage verdict' final ∧
      SameVerdictAt (tokens final.taken) (cutOff tokens final.taken final.taken) verdict
        verdict' := by
  apply course.at_end _ shallow (kind_cutOff tokens final.taken)
  intro index before
  exact (cutOff_of_lt tokens before).symm

end

section

variable {σ : Type} [FiniteSource σ] {options : Options} {validator : Validator} {source : σ}
  {verdict : Except ParseError Unit} {final : Stage} {error : ParseError}

theorem Course.shallow_of_recognizeFrom (opens : (TokenSource.token source 0).kind = .lessThan)
    (course : Course options (TokenSource.token source) ⟨0, [.phrase .tags], 0⟩ verdict final)
    (failed : (recognizeFrom source options validator).verdict = .error error)
    (shallow : ∀ limit position, error ≠ .nestingTooDeep limit position) : Shallow verdict := by
  intro limit position deep
  rcases course.error_of_recognizeFrom opens failed with reached | ⟨accepted, _⟩
  · exact shallow limit position (Except.error.inj (reached.symm.trans deep))
  · cases accepted.symm.trans deep

end

end TemplateRecognizer
