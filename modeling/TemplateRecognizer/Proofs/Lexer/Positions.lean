import TemplateRecognizer.Proofs.Lexer.Stream

/-!
# Where tokens stand

A token stands where its lexeme begins, and the end of input where the text ends.  Every lexeme
covers a character, so that each token stands behind the one before it and no position is that
of two tokens.
-/

set_option autoImplicit false

namespace TemplateRecognizer

namespace Position

def Before (position other : Position) : Prop :=
  position.line < other.line ∨ position.line = other.line ∧ position.column < other.column

variable {position other further : Position}

theorem Before.trans (first : position.Before other) (second : other.Before further) :
    position.Before further := by
  unfold Before at *
  omega

theorem Before.ne (before : position.Before other) : position ≠ other := by
  rintro rfl
  unfold Before at before
  omega

theorem before_advance (position : Position) (character : Char) :
    position.Before (position.advance character) := by
  unfold advance Before
  split
  · exact .inl (Nat.lt_succ_self _)
  · exact .inr ⟨rfl, Nat.lt_succ_self _⟩

theorem eq_or_before_after (text : List Char) :
    ∀ position : Position,
      position.after text = position ∨ position.Before (position.after text) := by
  induction text with
  | nil =>
    intro position
    exact .inl rfl
  | cons character text inductionHypothesis =>
    intro position
    have moved := before_advance position character
    rw [after_cons]
    rcases inductionHypothesis (position.advance character) with same | further
    · rw [same]
      exact .inr moved
    · exact .inr (moved.trans further)

theorem before_after {text : List Char} (present : text ≠ []) (position : Position) :
    position.Before (position.after text) := by
  cases text with
  | nil => exact absurd rfl present
  | cons character text =>
    have moved := before_advance position character
    rw [after_cons]
    rcases eq_or_before_after text (position.advance character) with same | further
    · rw [same]
      exact moved
    · exact moved.trans further

end Position

namespace Lexer

/-- The tokens of a text stand one behind another, and none before the text. -/
theorem tokens_in_order (text : List Char) :
    ∀ position : Position,
      (tokens ⟨text, position⟩).Pairwise
          (fun token other => token.position.Before other.position) ∧
        ∀ token ∈ tokens ⟨text, position⟩,
          token.position = position ∨ position.Before token.position := by
  induction text using lexeme_induction with
  | blank text blank =>
    intro position
    rw [tokens_of_blank blank]
    refine ⟨List.pairwise_singleton _ _, ?_⟩
    intro token member
    rw [List.mem_singleton.mp member]
    exact Position.eq_or_before_after text position
  | lexeme blanks head tail behind foremost inductionHypothesis =>
    intro position
    have passed := Position.eq_or_before_after blanks position
    have covered := Position.before_after (Lexeme.first_spelling_ne_nil head tail)
      (position.after blanks)
    obtain ⟨ordered, later⟩ :=
      inductionHypothesis (position.after (blanks ++ (Lexeme.first head tail).spelling))
    rw [← Position.after_append] at covered
    have behindFirst : ∀ token ∈ tokens
        ⟨behind, position.after (blanks ++ (Lexeme.first head tail).spelling)⟩,
        (position.after blanks).Before token.position := by
      intro token member
      rcases later token member with same | further
      · rw [same]
        exact covered
      · exact covered.trans further
    rw [tokens_of_foremost foremost]
    refine ⟨List.pairwise_cons.mpr ⟨behindFirst, ordered⟩, ?_⟩
    intro token member
    rcases List.mem_cons.mp member with rfl | member
    · exact passed
    · rcases passed with same | further
      · exact .inr (same ▸ behindFirst token member)
      · exact .inr (further.trans (behindFirst token member))

theorem token_placed (text : List Char) :
    ∀ (before : List Char) (index : Nat),
      (∃ front head tail, text = front ++ head :: tail ∧ Lexeme.isBlank head = false ∧
        TokenSource.token (⟨text, .behind before⟩ : Lexer) index =
          (Lexeme.first head tail).tokenAt (.behind (before ++ front))) ∨
      TokenSource.token (⟨text, .behind before⟩ : Lexer) index =
        .endOfInput (.behind (before ++ text)) := by
  induction text using lexeme_induction with
  | blank text blank =>
    intro before index
    rw [token_of_blank blank, Position.after_behind]
    exact .inr rfl
  | lexeme blanks head tail behind foremost inductionHypothesis =>
    intro before index
    obtain ⟨first, others⟩ := token_of_foremost foremost (.behind before)
    cases index with
    | zero =>
      rw [first, Position.after_behind]
      exact .inl ⟨blanks, head, tail, rfl, foremost.visible, rfl⟩
    | succ index =>
      let passed := blanks ++ (Lexeme.first head tail).spelling
      have split : blanks ++ head :: tail = passed ++ behind := by
        rw [List.append_assoc, ← foremost.covers]
      rw [others, Position.after_behind]
      rcases inductionHypothesis (before ++ passed) index with
        ⟨front, head', tail', rfl, visible, answered⟩ | ended
      · refine .inl ⟨passed ++ front, head', tail', ?_, visible, ?_⟩
        · rw [List.append_assoc]
          exact split
        · rw [answered, List.append_assoc]
      · refine .inr ?_
        rw [ended, split, List.append_assoc]

theorem token_placed_ofString (text : String) (index : Nat) :
    (∃ front head tail, text.toList = front ++ head :: tail ∧ Lexeme.isBlank head = false ∧
      TokenSource.token (Lexer.ofString text) index =
        (Lexeme.first head tail).tokenAt (.behind front)) ∨
    TokenSource.token (Lexer.ofString text) index = .endOfInput (.behind text.toList) :=
  token_placed text.toList [] index

end Lexer

/-- No position is that of two tokens of a text. -/
theorem tokenize_splits_at_position {text : String} {token : Token}
    (member : token ∈ tokenize text) :
    ∃ front back, tokenize text = front ++ token :: back ∧
      ∀ other ∈ front ++ back, other.position ≠ token.position := by
  obtain ⟨front, back, split⟩ := List.append_of_mem member
  have ordered := (Lexer.tokens_in_order text.toList .start).1
  change (tokenize text).Pairwise _ at ordered
  rw [split, List.pairwise_append, List.pairwise_cons] at ordered
  obtain ⟨_, ⟨after, _⟩, before⟩ := ordered
  refine ⟨front, back, split, ?_⟩
  intro other present
  rcases List.mem_append.mp present with early | late
  · exact (before other early token List.mem_cons_self).ne
  · exact (after other late).ne.symm

/-! ## Names -/

theorem Lexeme.Candidate.isWord_of_identifier {text : List Char} {lexeme : Lexeme}
    (candidate : Candidate text lexeme) (name : lexeme.kind = .identifier) :
    ∃ word, lexeme = verbatim .identifier word ∧ IsWord word := by
  cases candidate with
  | unclosed _ _ _ => cases name
  | classified classified _ =>
    cases classified with
    | name isWord _ => exact ⟨_, rfl, isWord⟩
    | symbol fixed =>
      cases name
      cases fixed
    | integer _ => cases name
    | decimal _ _ => cases name
    | string _ _ => cases name
    | other _ _ _ _ => cases name

/-- The name of a tag holds letters, digits and underscores, and so no line feed. -/
theorem Lexer.isWordPart_of_identifier (text : String) (index : Nat)
    (name : (TokenSource.token (Lexer.ofString text) index).kind = .identifier) :
    ∀ character ∈ (TokenSource.token (Lexer.ofString text) index).textOrEmpty.toList,
      Lexeme.isWordPart character = true := by
  rcases token_placed_ofString text index with ⟨_, head, tail, _, nonblank, answered⟩ | ended
  · rw [answered] at name ⊢
    obtain ⟨word, same, isWord⟩ :=
      (Lexeme.first_candidate nonblank tail).isWord_of_identifier name
    rw [same]
    simpa [Lexeme.tokenAt, Token.textOrEmpty, Lexeme.verbatim] using isWord.part
  · rw [ended] at name
    cases name

end TemplateRecognizer
