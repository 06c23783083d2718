import TemplateRecognizer.Proofs.Lexer.Lossless
import TemplateRecognizer.Proofs.Token.Sequence

/-!
# A lexer and its tokens

A lexer hands out the tokens of its text and then one and the same end of input, without end.
A stream of its tokens does so too.
-/

set_option autoImplicit false

namespace TemplateRecognizer

theorem Lexer.token_at_end (position : Position) (index : Nat) :
    TokenSource.token (⟨[], position⟩ : Lexer) index = .endOfInput position := by
  induction index with
  | zero => rfl
  | succ index inductionHypothesis => exact inductionHypothesis

theorem TokenStream.token_at_end (position : Position) (index : Nat) :
    TokenSource.token (⟨[], position⟩ : TokenStream) index = .endOfInput position := by
  induction index with
  | zero => rfl
  | succ index inductionHypothesis => exact inductionHypothesis

theorem TokenStream.token_behind (front : List Token) (position : Position) :
    ∀ (last : Position) (index : Nat), front.length ≤ index →
      TokenSource.token (⟨front ++ [.endOfInput position], last⟩ : TokenStream) index =
        .endOfInput position := by
  induction front with
  | nil =>
    intro last index _
    cases index with
    | zero => rfl
    | succ index => exact token_at_end position index
  | cons token front inductionHypothesis =>
    intro last index beyond
    rw [List.length_cons] at beyond
    cases index with
    | zero => omega
    | succ index => exact inductionHypothesis token.position index (by omega)

namespace Lexer

theorem token_of_blank {blanks : List Char} (blank : Blank blanks) (position : Position)
    (index : Nat) :
    TokenSource.token (⟨blanks, position⟩ : Lexer) index =
      .endOfInput (position.after blanks) := by
  have read : TokenSource.next (⟨blanks, position⟩ : Lexer) = _ := next_of_blank blank position
  cases index with
  | zero => exact congrArg Prod.fst read
  | succ index =>
    change TokenSource.token (TokenSource.next (⟨blanks, position⟩ : Lexer)).2 index = _
    rw [read]
    exact token_at_end _ index

theorem token_of_foremost {blanks tail behind : List Char} {head : Char}
    (foremost : Foremost blanks head tail behind) (position : Position) :
    TokenSource.token (⟨blanks ++ head :: tail, position⟩ : Lexer) 0 =
        (Lexeme.first head tail).tokenAt (position.after blanks) ∧
      ∀ index, TokenSource.token (⟨blanks ++ head :: tail, position⟩ : Lexer) (index + 1) =
        TokenSource.token
          (⟨behind, position.after (blanks ++ (Lexeme.first head tail).spelling)⟩ : Lexer)
          index := by
  have read : TokenSource.next (⟨blanks ++ head :: tail, position⟩ : Lexer) = _ :=
    next_of_foremost foremost position
  refine ⟨congrArg Prod.fst read, ?_⟩
  intro index
  change TokenSource.token (TokenSource.next (⟨blanks ++ head :: tail, position⟩ : Lexer)).2 index =
    _
  rw [read]

/-- The tokens of a text, put into a stream, are handed out as its lexer does. -/
theorem agree_tokens (text : List Char) :
    ∀ position last : Position,
      Agree (⟨tokens ⟨text, position⟩, last⟩ : TokenStream) (⟨text, position⟩ : Lexer) := by
  induction text using lexeme_induction with
  | blank text blank =>
    intro position last index
    rw [tokens_of_blank blank, token_of_blank blank]
    exact TokenStream.token_behind [] _ last index (Nat.zero_le index)
  | lexeme blanks head tail behind foremost inductionHypothesis =>
    intro position last
    obtain ⟨first, others⟩ := token_of_foremost foremost position
    rw [tokens_of_foremost foremost]
    intro index
    cases index with
    | zero => exact first.symm
    | succ index =>
      rw [others]
      exact inductionHypothesis _ _ index

end Lexer

theorem agree_tokenize (text : String) :
    Agree (TokenStream.ofList (tokenize text)) (Lexer.ofString text) :=
  Lexer.agree_tokens text.toList .start .start

namespace Lexer

theorem token_eq_getElem (text : String) {index : Nat} (inside : index < (tokenize text).length) :
    TokenSource.token (Lexer.ofString text) index = (tokenize text)[index] := by
  rw [← agree_tokenize text index]
  exact TokenStream.token_eq_getElem (.ofList (tokenize text)) inside

theorem exists_visible_tokens (text : String) :
    ∃ front, tokenize text = front ++ [.endOfInput (.behind text.toList)] ∧
      ∀ token ∈ front, token.kind ≠ .eof := by
  obtain ⟨scanned, _, _, read, _, faithful⟩ := tokens_scanned text.toList []
  refine ⟨scanned.map Scanned.token, read, ?_⟩
  intro token member
  obtain ⟨piece, present, rfl⟩ := List.mem_map.mp member
  obtain ⟨front, back, divided⟩ := List.append_of_mem present
  exact (faithful front piece back divided).visible

/-- From the end of its text on, a lexer answers one and the same end of input. -/
theorem token_behind_text (text : String) {index : Nat}
    (beyond : (tokenize text).length ≤ index + 1) :
    TokenSource.token (Lexer.ofString text) index = .endOfInput (.behind text.toList) := by
  obtain ⟨front, ending, _⟩ := exists_visible_tokens text
  have short : front.length ≤ index := by
    rw [ending, List.length_append, List.length_singleton] at beyond
    omega
  rw [← agree_tokenize text index, ending]
  exact TokenStream.token_behind _ _ _ index short

theorem token_mem_tokenize (text : String) (index : Nat) :
    TokenSource.token (Lexer.ofString text) index ∈ tokenize text := by
  by_cases inside : index < (tokenize text).length
  · rw [token_eq_getElem text inside]
    exact List.getElem_mem inside
  · obtain ⟨front, ending, _⟩ := exists_visible_tokens text
    rw [token_behind_text text (by omega), ending]
    exact List.mem_append_right front List.mem_cons_self

theorem length_le_of_ended {text : String} {index : Nat}
    (ended : (TokenSource.token (Lexer.ofString text) index).kind = .eof) :
    (tokenize text).length ≤ index + 1 := by
  obtain ⟨front, ending, visible⟩ := exists_visible_tokens text
  by_contra early
  have total := congrArg List.length ending
  rw [List.length_append, List.length_singleton] at total
  have inside : index < front.length := by omega
  rw [token_eq_getElem text (by omega)] at ended
  simp only [ending, List.getElem_append_left inside] at ended
  exact visible _ (List.getElem_mem inside) ended

end Lexer

end TemplateRecognizer
