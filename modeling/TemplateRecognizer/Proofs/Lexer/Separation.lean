import TemplateRecognizer.Proofs.Lexer.Lossless

/-!
# Lexing across blanks

A blank ends every lexeme but a string that is still open.  So what stands in front of a blank is
read as if the text ended there, and what stands behind it as if the text began there, but for the
positions.
-/

set_option autoImplicit false

namespace TemplateRecognizer

namespace Lexeme

/-- Holds of the characters over which no number, word or comparison goes on. -/
structure Stops (stop : Char) : Prop where
  noPart : isWordPart stop = false
  noPoint : stop ≠ '.'
  noEqual : stop ≠ '='

theorem Stops.noDigit {stop : Char} (stops : Stops stop) : stop.isDigit = false := by
  have part := stops.noPart
  rw [isWordPart, Bool.or_eq_false_iff] at part
  exact part.2

theorem stops_of_isBlank {blank : Char} (isBlank : isBlank blank = true) : Stops blank := by
  simp only [Lexeme.isBlank, Bool.or_eq_true, beq_iff_eq] at isBlank
  rcases isBlank with ((rfl | rfl) | rfl) | rfl <;> exact ⟨by decide, by decide, by decide⟩

section

variable {holds : Char → Bool} {stop : Char}

theorem takeWhile_stop (refused : holds stop = false) (text more : List Char) :
    (text ++ stop :: more).takeWhile holds = text.takeWhile holds := by
  have none : (stop :: more).takeWhile holds = [] :=
    List.takeWhile_cons_of_neg (by simp [refused])
  rw [List.takeWhile_append, none, List.append_nil]
  split
  · rename_i all
    exact ((List.takeWhile_prefix holds).eq_of_length all).symm
  · rfl

theorem dropWhile_stop (refused : holds stop = false) (text more : List Char) :
    (text ++ stop :: more).dropWhile holds = text.dropWhile holds ++ stop :: more := by
  have whole := List.takeWhile_append_dropWhile (p := holds) (l := text ++ stop :: more)
  rw [takeWhile_stop refused] at whole
  conv at whole => rhs; rw [← List.takeWhile_append_dropWhile (p := holds) (l := text)]
  rw [List.append_assoc] at whole
  exact List.append_cancel_left whole

end

section

variable {stop : Char} (stops : Stops stop)

include stops

theorem number_stop (text more : List Char) : number (text ++ stop :: more) = number text := by
  unfold number
  rw [takeWhile_stop stops.noDigit, dropWhile_stop stops.noDigit]
  cases text.dropWhile Char.isDigit with
  | nil => simp [stops.noPoint]
  | cons next rest =>
    by_cases point : next = '.'
    · subst point
      simp only [List.cons_append, takeWhile_stop stops.noDigit]
    · simp [point]

theorem word_stop (text more : List Char) : word (text ++ stop :: more) = word text := by
  unfold word
  rw [takeWhile_stop stops.noPart]

theorem comparison_stop (kind : Kind) (head : Char) (tail more : List Char) :
    comparison kind head (tail ++ stop :: more) = comparison kind head tail := by
  cases tail with
  | nil => simp [comparison, stops.noEqual]
  | cons next rest =>
    by_cases equal : next = '='
    · subst equal
      rfl
    · simp [comparison, equal]

theorem sign_stop (head : Char) (tail more : List Char) :
    sign head (tail ++ stop :: more) = sign head tail := by
  unfold sign
  rw [comparison_stop stops, comparison_stop stops]

/-- A lexeme is read alike whether a stop or the end of the text is next, unless it is a string
that is not closed before. -/
theorem first_stop {head : Char} {tail : List Char} (closed : isQuote head = true → head ∈ tail)
    (more : List Char) : first head (tail ++ stop :: more) = first head tail := by
  by_cases quotes : isQuote head = true
  · obtain ⟨body, rest, rfl, free⟩ := List.eq_append_cons_of_mem (closed quotes)
    rw [List.append_assoc, List.cons_append, first_eq_string quotes free,
      first_eq_string quotes free]
  by_cases digit : head.isDigit = true
  · rw [first_eq_number digit, first_eq_number digit, ← List.cons_append]
    exact number_stop stops _ more
  by_cases letter : isWordStart head = true
  · rw [first_eq_word_of_start letter, first_eq_word_of_start letter, ← List.cons_append]
    exact word_stop stops _ more
  · rw [Bool.not_eq_true] at digit letter quotes
    rw [first_eq_sign digit letter quotes, first_eq_sign digit letter quotes]
    exact sign_stop stops head tail more

end

end Lexeme

theorem Foremost.stop {blanks tail behind : List Char} {head stop : Char}
    (foremost : Foremost blanks head tail behind) (stops : Lexeme.Stops stop)
    (closed : Lexeme.isQuote head = true → head ∈ tail) (more : List Char) :
    Foremost blanks head (tail ++ stop :: more) (behind ++ stop :: more) := by
  refine ⟨foremost.blank, foremost.visible, ?_⟩
  rw [Lexeme.first_stop stops closed, ← List.append_assoc, ← foremost.covers]
  rfl

/-! ## Tokens on both sides of a blank -/

/-- Holds of the token of a string that is never closed. -/
def Token.Unclosed (token : Token) : Prop :=
  token.kind = .unknown ∧ token.textOrEmpty.toList.head?.any Lexeme.isQuote = true

instance (token : Token) : Decidable token.Unclosed :=
  inferInstanceAs (Decidable (_ ∧ _))

theorem Lexeme.closed_of_token {head : Char} {tail : List Char} {position : Position}
    (closed : ¬ ((first head tail).tokenAt position).Unclosed) (quotes : isQuote head = true) :
    head ∈ tail := by
  by_contra free
  apply closed
  rw [first_eq_unclosed quotes free]
  refine ⟨rfl, ?_⟩
  simpa [tokenAt, Token.textOrEmpty, verbatim] using quotes

namespace Position

/-- Where a text that begins at `origin` has what stands at `position` in a text of its own. -/
def shiftedTo (position origin : Position) : Position :=
  if position.line = 1 then ⟨origin.line, origin.column + position.column - 1⟩
  else ⟨origin.line + position.line - 1, position.column⟩

theorem behind_shiftedTo (before : List Char) (origin : Position) :
    (behind before).shiftedTo origin = origin.after before := by
  induction before using List.reverseRecOn with
  | nil => rfl
  | append_singleton before character inductionHypothesis =>
    have counted : 1 ≤ (behind before).line ∧ 1 ≤ (behind before).column :=
      ⟨Nat.le_add_right 1 _, Nat.le_add_right 1 _⟩
    rw [← after_behind, after_append, ← inductionHypothesis]
    generalize behind before = position at counted ⊢
    by_cases lineFeed : character = '\n'
    · simp only [after_cons, after_nil, advance, if_pos lineFeed, shiftedTo]
      split <;> split <;> simp only [mk.injEq, and_true] <;> omega
    · simp only [after_cons, after_nil, advance, if_neg lineFeed, shiftedTo]
      split
      · simp only [mk.injEq, true_and]
        omega
      · rfl

end Position

namespace Token

def shiftedTo (token : Token) (origin : Position) : Token :=
  { token with position := token.position.shiftedTo origin }

@[simp] theorem shiftedTo_endOfInput (before : List Char) (origin : Position) :
    (endOfInput (.behind before)).shiftedTo origin = endOfInput (origin.after before) := by
  rw [← Position.behind_shiftedTo]
  rfl

@[simp] theorem shiftedTo_tokenAt (lexeme : Lexeme) (before : List Char) (origin : Position) :
    (lexeme.tokenAt (.behind before)).shiftedTo origin =
      lexeme.tokenAt (origin.after before) := by
  rw [← Position.behind_shiftedTo]
  rfl

end Token

namespace Lexer

/-- Where a text begins decides on the places of its tokens, and on nothing else. -/
theorem tokens_shiftedTo (text : List Char) (origin : Position) :
    ∀ before : List Char,
      (tokens ⟨text, .behind before⟩).map (fun token => token.shiftedTo origin) =
        tokens ⟨text, origin.after before⟩ := by
  induction text using lexeme_induction with
  | blank text blank =>
    intro before
    rw [tokens_of_blank blank, tokens_of_blank blank, Position.after_behind,
      ← Position.after_append, List.map_singleton, Token.shiftedTo_endOfInput]
  | lexeme blanks head tail behind foremost inductionHypothesis =>
    intro before
    rw [tokens_of_foremost foremost, tokens_of_foremost foremost, Position.after_behind,
      Position.after_behind, ← Position.after_append, ← Position.after_append, List.map_cons,
      inductionHypothesis, Token.shiftedTo_tokenAt]

theorem tokens_behind_blanks {blanks : List Char} (blank : Blank blanks) (text : List Char)
    (position : Position) :
    tokens ⟨blanks ++ text, position⟩ = tokens ⟨text, position.after blanks⟩ := by
  rw [tokens, tokens, FiniteSource.drain, next_behind_blanks blank, ← FiniteSource.drain]

theorem tokens_ne_nil (text : List Char) (position : Position) : tokens ⟨text, position⟩ ≠ [] := by
  rcases blank_or_foremost text with blank | ⟨blanks, head, tail, behind, rfl, foremost⟩
  · rw [tokens_of_blank blank]
    exact List.cons_ne_nil _ _
  · rw [tokens_of_foremost foremost]
    exact List.cons_ne_nil _ _

/-- What stands in front of a blank is read as if nothing followed, and then the lexer goes on
behind the blank. -/
theorem tokens_stop {blank : Char} (isBlank : Lexeme.isBlank blank = true) (more text : List Char) :
    ∀ position : Position, (∀ token ∈ tokens ⟨text, position⟩, ¬ token.Unclosed) →
      tokens ⟨text ++ blank :: more, position⟩ =
        (tokens ⟨text, position⟩).dropLast ++ tokens ⟨more, position.after (text ++ [blank])⟩ := by
  have single : Blank [blank] := by
    intro character member
    rwa [List.mem_singleton.mp member]
  induction text using lexeme_induction with
  | blank text nothing =>
    intro position _
    rw [List.append_cons, tokens_behind_blanks (nothing.append single), tokens_of_blank nothing]
    rfl
  | lexeme blanks head tail behind foremost inductionHypothesis =>
    intro position closed
    rw [tokens_of_foremost foremost] at closed ⊢
    obtain ⟨closedFirst, closedRest⟩ := List.forall_mem_cons.mp closed
    have stops := Lexeme.stops_of_isBlank isBlank
    have closes := Lexeme.closed_of_token closedFirst
    have passed : blanks ++ head :: tail ++ [blank] =
        blanks ++ (Lexeme.first head tail).spelling ++ (behind ++ [blank]) := by
      rw [foremost.covers]
      simp
    rw [List.append_assoc, List.cons_append, tokens_of_foremost (foremost.stop stops closes more),
      Lexeme.first_stop stops closes, inductionHypothesis _ closedRest,
      List.dropLast_cons_of_ne_nil (tokens_ne_nil _ _), passed,
      Position.after_append _ _ (behind ++ [blank])]
    rfl

theorem tokens_across_blanks {blanks : List Char} (blank : Blank blanks) (present : blanks ≠ [])
    (text more : List Char) (position : Position)
    (closed : ∀ token ∈ tokens ⟨text, position⟩, ¬ token.Unclosed) :
    tokens ⟨text ++ blanks ++ more, position⟩ =
      (tokens ⟨text, position⟩).dropLast ++ tokens ⟨more, position.after (text ++ blanks)⟩ := by
  obtain ⟨head, rest, rfl⟩ := List.exists_cons_of_ne_nil present
  obtain ⟨first, others⟩ := List.forall_mem_cons.mp blank
  rw [List.append_assoc, List.cons_append, tokens_stop first _ _ _ closed,
    tokens_behind_blanks others, ← Position.after_append, List.append_assoc]
  rfl

end Lexer

/-- Between two texts with blanks between them no lexeme is split or joined: the tokens are those
of the first, if it closes its strings, and those of the second, moved to where it stands now. -/
theorem tokenize_across_blanks {first blanks second : String} (blank : Blank blanks.toList)
    (present : blanks ≠ "") (closed : ∀ token ∈ tokenize first, ¬ token.Unclosed) :
    tokenize (first ++ blanks ++ second) =
      (tokenize first).dropLast ++
        (tokenize second).map fun token => token.shiftedTo (.behind (first ++ blanks).toList) := by
  have visible : blanks.toList ≠ [] := by simpa using present
  have front := Lexer.tokens_across_blanks blank visible first.toList second.toList .start closed
  have back := Lexer.tokens_shiftedTo second.toList (.behind (first ++ blanks).toList) []
  rw [Position.after_start, ← String.toList_append, ← String.toList_append] at front
  rw [Position.after_nil] at back
  change Lexer.tokens (Lexer.ofString _) = (Lexer.tokens (Lexer.ofString _)).dropLast ++
    (Lexer.tokens (Lexer.ofString _)).map _
  exact front.trans (congrArg _ back.symm)

/-- The first text ends a line within a string, and has marks and a number at its end that could
go on; the second begins on a line of its own. -/
theorem tokenize_across_blanks_string_and_number :
    Blank " \n".toList ∧ " \n" ≠ "" ∧ (∀ token ∈ tokenize "'a\nb'=7.", ¬ token.Unclosed) ∧
      tokenize ("'a\nb'=7." ++ " \n" ++ "=5\n'") =
        [⟨.stringConstant, some "a\nb", ⟨1, 1⟩⟩, ⟨.unknown, some "=", ⟨2, 3⟩⟩,
          ⟨.intConstant, some "7", ⟨2, 4⟩⟩, ⟨.unknown, some ".", ⟨2, 5⟩⟩,
          ⟨.unknown, some "=", ⟨3, 1⟩⟩, ⟨.intConstant, some "5", ⟨3, 2⟩⟩,
          ⟨.unknown, some "'", ⟨4, 1⟩⟩, .endOfInput ⟨4, 2⟩] := by
  have blank : Blank " \n".toList := List.all_eq_true.mp rfl
  have closed : ∀ token ∈ tokenize "'a\nb'=7.", ¬ token.Unclosed := by decide +kernel
  refine ⟨blank, by decide, closed, ?_⟩
  rw [tokenize_across_blanks blank (by decide) closed]
  decide +kernel

end TemplateRecognizer
