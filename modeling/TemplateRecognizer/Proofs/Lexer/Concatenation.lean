import TemplateRecognizer.Proofs.Lexer.Separation
import TemplateRecognizer.Proofs.Lexer.Stream

/-!
# Lexing texts put together

What is put behind a text may change its last lexeme, and no other: a number, a word or a
comparison can go on, and a string that was never closed can find its end.  A greater-than sign
can do neither, and protects every lexeme before it.  So behind a text whose last token is such a
sign, another text is read as if it stood alone, but for the positions of its tokens.
-/

set_option autoImplicit false

namespace TemplateRecognizer

/-! ## Lexemes before a greater-than sign -/

namespace Lexeme

theorem stops_greaterThan : Stops '>' :=
  ⟨by decide, by decide, by decide⟩

theorem closed_of_spelling {quote : Char} {covered behind : List Char}
    (quotes : isQuote quote = true) (present : behind ≠ [])
    (spelled : (first quote (covered ++ behind)).spelling = quote :: covered) :
    quote ∈ covered := by
  by_cases closed : quote ∈ covered ++ behind
  · obtain ⟨body, rest, split, free⟩ := List.eq_append_cons_of_mem closed
    rw [split, first_eq_string quotes free] at spelled
    rw [← (List.cons.inj spelled).2]
    simp
  · rw [first_eq_unclosed quotes closed] at spelled
    exact absurd (List.append_right_eq_self.mp (List.cons.inj spelled).2) present

theorem first_append {head : Char} {tail behind : List Char}
    (covers : head :: tail = (first head tail).spelling ++ behind) (closes : '>' ∈ behind)
    (more : List Char) : first head (tail ++ more) = first head tail := by
  obtain ⟨covered, _, spelled, _⟩ := exists_spelling head tail
  rw [spelled, List.cons_append] at covers
  obtain ⟨_, rfl⟩ := List.cons.inj covers
  have closed (quotes : isQuote head = true) : head ∈ covered :=
    closed_of_spelling quotes (List.ne_nil_of_mem closes) spelled
  obtain ⟨before, after, rfl⟩ := List.append_of_mem closes
  have closedBefore (quotes : isQuote head = true) : head ∈ covered ++ before :=
    List.mem_append_left _ (closed quotes)
  -- Both texts are read as if the sign were not there, nor what follows it.
  have alone := first_stop stops_greaterThan closedBefore after
  have further := first_stop stops_greaterThan closedBefore (after ++ more)
  rw [List.append_assoc] at alone further
  rw [alone, List.append_assoc, List.append_assoc]
  exact further

end Lexeme

theorem Foremost.append {blanks tail behind : List Char} {head : Char}
    (foremost : Foremost blanks head tail behind) (closes : '>' ∈ behind) (more : List Char) :
    Foremost blanks head (tail ++ more) (behind ++ more) := by
  refine ⟨foremost.blank, foremost.visible, ?_⟩
  rw [Lexeme.first_append foremost.covers closes, ← List.cons_append, foremost.covers,
    List.append_assoc]

/-! ## Tokens of a text and of another behind it -/

theorem Token.SpelledBy.eq_symbol {token : Token} {lexeme : List Char} {symbol : String}
    (spelled : token.SpelledBy lexeme) (fixed : token.kind.symbol? = some symbol) :
    lexeme = symbol.toList := by
  cases spelled with
  | symbol named =>
    cases named.symm.trans fixed
    rfl
  | verbatim kinds => rcases kinds with rfl | rfl | rfl | rfl <;> cases fixed
  | quoted _ _ => cases fixed

theorem Foremost.closing {blanks tail behind : List Char} {head : Char}
    (foremost : Foremost blanks head tail behind)
    (closes : (Lexeme.first head tail).kind = .greaterThan) : head = '>' ∧ tail = behind := by
  have spelled := (Lexeme.first_spelled foremost.visible tail .start).eq_symbol
    (by rw [Lexeme.tokenAt, closes]; rfl)
  have covers := foremost.covers
  rw [spelled] at covers
  exact List.cons.inj covers

namespace Lexer

theorem mem_of_closing (text : List Char) :
    ∀ (position : Position) (index : Nat),
      (TokenSource.token (⟨text, position⟩ : Lexer) index).kind = .greaterThan → '>' ∈ text := by
  induction text using lexeme_induction with
  | blank text blank =>
    intro position index closes
    rw [token_of_blank blank] at closes
    cases closes
  | lexeme blanks head tail behind foremost inductionHypothesis =>
    intro position index closes
    obtain ⟨first, others⟩ := token_of_foremost foremost position
    apply List.mem_append_right
    cases index with
    | zero =>
      rw [first] at closes
      rw [(foremost.closing closes).1]
      exact List.mem_cons_self
    | succ index =>
      rw [others] at closes
      rw [foremost.covers]
      exact List.mem_append_right _ (inductionHypothesis _ index closes)

theorem blank_of_ended {text : List Char} {position : Position}
    (ended : (TokenSource.token (⟨text, position⟩ : Lexer) 0).kind = .eof) : Blank text := by
  rcases blank_or_foremost text with blank | ⟨blanks, head, tail, behind, rfl, foremost⟩
  · exact blank
  · rw [(token_of_foremost foremost position).1] at ended
    exact absurd ended (Lexeme.first_kind_ne_eof head tail)

theorem ended_iff_blank (text : String) :
    (TokenSource.token (Lexer.ofString text) 0).kind = .eof ↔ Blank text.toList := by
  constructor
  · exact blank_of_ended
  · intro blank
    change (TokenSource.token (⟨text.toList, .start⟩ : Lexer) 0).kind = .eof
    rw [token_of_blank blank]
    rfl

theorem token_behind_blanks {blanks : List Char} (blank : Blank blanks) (text : List Char)
    (position : Position) (index : Nat) :
    TokenSource.token (⟨blanks ++ text, position⟩ : Lexer) index =
      TokenSource.token (⟨text, position.after blanks⟩ : Lexer) index := by
  have same := next_behind_blanks blank text position
  cases index with
  | zero => exact congrArg Prod.fst same
  | succ index => exact congrArg (fun read => TokenSource.token read.2 index) same

/-- Behind a text whose last token is a greater-than sign, another text is read from where the
first one ended. -/
theorem token_append (text more : List Char) :
    ∀ (position : Position) (last : Nat),
      (TokenSource.token (⟨text, position⟩ : Lexer) last).kind = .greaterThan →
      (TokenSource.token (⟨text, position⟩ : Lexer) (last + 1)).kind = .eof →
        (∀ index ≤ last, TokenSource.token (⟨text ++ more, position⟩ : Lexer) index =
          TokenSource.token (⟨text, position⟩ : Lexer) index) ∧
        ∀ index, TokenSource.token (⟨text ++ more, position⟩ : Lexer) (last + 1 + index) =
          TokenSource.token (⟨more, position.after text⟩ : Lexer) index := by
  induction text using lexeme_induction with
  | blank text blank =>
    intro position last closes _
    rw [token_of_blank blank] at closes
    cases closes
  | lexeme blanks head tail behind foremost inductionHypothesis =>
    intro position last closes ended
    obtain ⟨first, others⟩ := token_of_foremost foremost position
    rw [others] at ended
    have passed : position.after (blanks ++ head :: tail) =
        (position.after (blanks ++ (Lexeme.first head tail).spelling)).after behind := by
      rw [← Position.after_append, List.append_assoc, ← foremost.covers]
    cases last with
    | zero =>
      rw [first] at closes
      obtain ⟨rfl, rfl⟩ := foremost.closing closes
      have further : Foremost blanks '>' (tail ++ more) (tail ++ more) :=
        ⟨foremost.blank, foremost.visible, rfl⟩
      obtain ⟨first', others'⟩ := token_of_foremost further position
      rw [List.append_assoc, List.cons_append]
      refine ⟨?_, ?_⟩
      · intro index within
        obtain rfl := Nat.le_zero.mp within
        rw [first', first]
        rfl
      · intro index
        rw [Nat.zero_add, Nat.add_comm 1, others', passed]
        exact token_behind_blanks (blank_of_ended ended) more _ index
    | succ last =>
      rw [others] at closes
      have kept := foremost.append (mem_of_closing behind _ last closes) more
      have same := Lexeme.first_append foremost.covers (mem_of_closing behind _ last closes) more
      obtain ⟨first', others'⟩ := token_of_foremost kept position
      obtain ⟨before, further⟩ := inductionHypothesis _ last closes ended
      rw [List.append_assoc, List.cons_append]
      refine ⟨?_, ?_⟩
      · intro index within
        cases index with
        | zero => rw [first', first, same]
        | succ index =>
          rw [others', others, same]
          exact before index (Nat.le_of_succ_le_succ within)
      · intro index
        have count : last + 1 + 1 + index = last + 1 + index + 1 := by omega
        rw [count, others', same, passed]
        exact further index

/-- Where a text starts matters to nothing but the positions of its tokens. -/
theorem token_moved (text : List Char) :
    ∀ (position other : Position) (index : Nat),
      (TokenSource.token (⟨text, position⟩ : Lexer) index).kind =
          (TokenSource.token (⟨text, other⟩ : Lexer) index).kind ∧
        (TokenSource.token (⟨text, position⟩ : Lexer) index).text =
          (TokenSource.token (⟨text, other⟩ : Lexer) index).text := by
  induction text using lexeme_induction with
  | blank text blank =>
    intro position other index
    rw [token_of_blank blank, token_of_blank blank]
    exact ⟨rfl, rfl⟩
  | lexeme blanks head tail behind foremost inductionHypothesis =>
    intro position other index
    obtain ⟨first, others⟩ := token_of_foremost foremost position
    obtain ⟨first', others'⟩ := token_of_foremost foremost other
    cases index with
    | zero =>
      rw [first, first']
      exact ⟨rfl, rfl⟩
    | succ index =>
      rw [others, others']
      exact inductionHypothesis _ _ index

end Lexer

end TemplateRecognizer
