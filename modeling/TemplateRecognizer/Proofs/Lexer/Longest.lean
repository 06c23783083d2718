import TemplateRecognizer.Proofs.Lexer.Lossless

/-!
# Every token is the longest lexeme

A lexer stands somewhere in its text.  It passes over the blanks there and reads the longest
lexeme behind them, and then it stands right behind this lexeme.
-/

set_option autoImplicit false

namespace TemplateRecognizer

namespace Lexer

/-- One call reads the longest lexeme behind the blanks, or finds nothing but blanks. -/
theorem next_longest (rest before : List Char) :
    ∃ blanks ahead, rest = blanks ++ ahead ∧ Blank blanks ∧
      (ahead = [] ∧ next ⟨rest, .behind before⟩ =
          (.endOfInput (.behind (before ++ rest)), ⟨[], .behind (before ++ rest)⟩) ∨
        ∃ lexeme behind, ahead = lexeme.spelling ++ behind ∧ Lexeme.Longest ahead lexeme ∧
          next ⟨rest, .behind before⟩ =
            (lexeme.tokenAt (.behind (before ++ blanks)),
              ⟨behind, .behind (before ++ blanks ++ lexeme.spelling)⟩)) := by
  rcases blank_or_foremost rest with blank | ⟨blanks, head, tail, behind, rfl, foremost⟩
  · refine ⟨rest, [], by simp, blank, .inl ⟨rfl, ?_⟩⟩
    rw [next_of_blank blank, Position.after_behind]
  · refine ⟨blanks, head :: tail, rfl, foremost.blank, .inr ⟨Lexeme.first head tail, behind,
      foremost.covers, Lexeme.first_longest foremost.visible tail, ?_⟩⟩
    rw [next_of_foremost foremost, Position.after_behind, Position.after_behind, List.append_assoc]

/-- A lexer that has handed out tokens stands somewhere in its text, and knows the position. -/
theorem skip_reaches (text : String) (index : Nat) :
    ∃ front rest, text.toList = front ++ rest ∧
      TokenSource.skip index (ofString text) = ⟨rest, .behind front⟩ := by
  induction index with
  | zero => exact ⟨[], text.toList, rfl, rfl⟩
  | succ index inductionHypothesis =>
    obtain ⟨front, rest, split, reached⟩ := inductionHypothesis
    rw [TokenSource.skip_succ, reached]
    change ∃ front' rest', _ ∧ (next _).2 = _
    obtain ⟨blanks, ahead, rfl, _, ⟨rfl, ended⟩ | ⟨lexeme, behind, rfl, _, read⟩⟩ :=
      next_longest rest front
    · rw [ended, ← split]
      exact ⟨text.toList, [], by simp, rfl⟩
    · rw [read]
      refine ⟨front ++ blanks ++ lexeme.spelling, behind, ?_, rfl⟩
      rw [split]
      simp

end Lexer

/-- Whenever a lexer is asked for a token, it answers the longest lexeme behind the blanks that
it stands at, with the kind of its class, and goes on right behind this lexeme; and it answers the
end of input where nothing but blanks is left. -/
theorem token_is_longest_lexeme (text : String) (index : Nat) :
    ∃ front blanks ahead, text.toList = front ++ blanks ++ ahead ∧ Blank blanks ∧
      TokenSource.skip index (Lexer.ofString text) = ⟨blanks ++ ahead, .behind front⟩ ∧
      (ahead = [] ∧
          TokenSource.token (Lexer.ofString text) index = .endOfInput (.behind text.toList) ∨
        ∃ lexeme behind, ahead = lexeme.spelling ++ behind ∧ Lexeme.Longest ahead lexeme ∧
          TokenSource.token (Lexer.ofString text) index =
            lexeme.tokenAt (.behind (front ++ blanks)) ∧
          TokenSource.skip (index + 1) (Lexer.ofString text) =
            ⟨behind, .behind (front ++ blanks ++ lexeme.spelling)⟩) := by
  obtain ⟨front, rest, split, reached⟩ := Lexer.skip_reaches text index
  rw [TokenSource.skip_succ, TokenSource.token, reached]
  obtain ⟨blanks, ahead, rfl, blank, found⟩ := Lexer.next_longest rest front
  refine ⟨front, blanks, ahead, by rw [split, List.append_assoc], blank, rfl, ?_⟩
  rcases found with ⟨rfl, ended⟩ | ⟨lexeme, behind, rfl, longest, read⟩
  · left
    rw [← split] at ended
    exact ⟨rfl, congrArg Prod.fst ended⟩
  · right
    exact ⟨lexeme, behind, rfl, longest, congrArg Prod.fst read, congrArg Prod.snd read⟩

end TemplateRecognizer
