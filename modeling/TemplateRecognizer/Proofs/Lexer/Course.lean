import TemplateRecognizer.Lexer.Basic
import TemplateRecognizer.Proofs.Token.Sequence
import Mathlib.Data.List.TakeWhile

/-!
# The course of a lexer

One call of a lexer finds nothing but blanks up to the end of its text, or it passes over
blanks and covers the lexeme behind them.  The two cases are read off the text alone, so a
fact about all the tokens of a text is proved by induction along them.
-/

set_option autoImplicit false

namespace TemplateRecognizer

def Blank (text : List Char) : Prop :=
  ∀ character ∈ text, Lexeme.isBlank character = true

theorem Blank.append {front back : List Char} (first : Blank front) (second : Blank back) :
    Blank (front ++ back) := by
  intro character member
  exact (List.mem_append.mp member).elim (first character) (second character)

section

variable {holds : Char → Bool} {front : List Char} {stop : Char}
  (all : ∀ character ∈ front, holds character = true) (refused : holds stop = false)

include all refused

theorem takeWhile_append_cons (rest : List Char) :
    (front ++ stop :: rest).takeWhile holds = front := by
  rw [List.takeWhile_append_of_pos all, List.takeWhile_cons_of_neg (by simp [refused]),
    List.append_nil]

theorem dropWhile_append_cons (rest : List Char) :
    (front ++ stop :: rest).dropWhile holds = stop :: rest := by
  rw [List.dropWhile_append_of_pos all, List.dropWhile_cons_of_neg (by simp [refused])]

end

theorem bne_of_notMem {text : List Char} {stop : Char} (free : stop ∉ text) :
    ∀ character ∈ text, (character != stop) = true := by
  intro character member
  rw [bne_iff_ne]
  exact ne_of_mem_of_not_mem member free

/-- `Foremost blanks head tail behind` says that a text of `blanks` and `head :: tail` has its
first lexeme at `head`, and that `behind` is what this lexeme does not cover. -/
structure Foremost (blanks : List Char) (head : Char) (tail behind : List Char) : Prop where
  blank : Blank blanks
  visible : Lexeme.isBlank head = false
  covers : head :: tail = (Lexeme.first head tail).spelling ++ behind

theorem Foremost.length_lt {blanks tail behind : List Char} {head : Char}
    (foremost : Foremost blanks head tail behind) :
    behind.length < (blanks ++ head :: tail).length := by
  have covered := List.length_pos_iff.mpr (Lexeme.first_spelling_ne_nil head tail)
  rw [foremost.covers]
  simp only [List.length_append]
  omega

theorem blank_or_foremost (text : List Char) :
    Blank text ∨
      ∃ blanks head tail behind, text = blanks ++ head :: tail ∧
        Foremost blanks head tail behind := by
  have split := List.takeWhile_append_dropWhile (p := Lexeme.isBlank) (l := text)
  cases ahead : text.dropWhile Lexeme.isBlank with
  | nil =>
    left
    exact List.dropWhile_eq_nil_iff.mp ahead
  | cons head tail =>
    right
    obtain ⟨behind, covers⟩ := Lexeme.first_spelling_front head tail
    rw [ahead] at split
    refine ⟨_, head, tail, behind, split.symm, ⟨?_, ?_, covers.symm⟩⟩
    · intro character member
      exact List.all_eq_true.mp List.all_takeWhile character member
    · have first := List.head?_dropWhile_not Lexeme.isBlank text
      rw [ahead] at first
      simpa using first

theorem Lexeme.exists_spelling (head : Char) (tail : List Char) :
    ∃ more after, (first head tail).spelling = head :: more ∧ tail = more ++ after := by
  obtain ⟨after, covers⟩ := first_spelling_front head tail
  cases spelled : (first head tail).spelling with
  | nil => exact absurd spelled (first_spelling_ne_nil head tail)
  | cons character more =>
    rw [spelled] at covers
    obtain ⟨rfl, rfl⟩ := List.cons.inj covers
    exact ⟨more, after, rfl, rfl⟩

theorem lexeme_induction {motive : List Char → Prop}
    (blank : ∀ text, Blank text → motive text)
    (lexeme : ∀ blanks head tail behind, Foremost blanks head tail behind → motive behind →
      motive (blanks ++ head :: tail))
    (text : List Char) : motive text := by
  rcases blank_or_foremost text with nothing | ⟨blanks, head, tail, behind, split, foremost⟩
  · exact blank text nothing
  · have shorter : behind.length < text.length := split ▸ foremost.length_lt
    rw [split]
    exact lexeme blanks head tail behind foremost (lexeme_induction blank lexeme behind)
termination_by text.length

def Lexeme.tokenAt (lexeme : Lexeme) (position : Position) : Token :=
  ⟨lexeme.kind, lexeme.text, position⟩

namespace Lexer

theorem skipBlanks_of_blank {blanks : List Char} (blank : Blank blanks) (position : Position) :
    skipBlanks ⟨blanks, position⟩ = ⟨[], position.after blanks⟩ := by
  have all : blanks.takeWhile Lexeme.isBlank = blanks := List.takeWhile_eq_self_iff.mpr blank
  simp [skipBlanks, skip, all]

theorem skipBlanks_of_foremost {blanks tail behind : List Char} {head : Char}
    (foremost : Foremost blanks head tail behind) (position : Position) :
    skipBlanks ⟨blanks ++ head :: tail, position⟩ = ⟨head :: tail, position.after blanks⟩ := by
  simp [skipBlanks, skip, takeWhile_append_cons foremost.blank foremost.visible]

theorem next_of_blank {blanks : List Char} (blank : Blank blanks) (position : Position) :
    next ⟨blanks, position⟩ =
      (.endOfInput (position.after blanks), ⟨[], position.after blanks⟩) := by
  rw [next, skipBlanks_of_blank blank]

/-- A lexer answers the foremost lexeme, at the place behind the blanks, and stands behind it. -/
theorem next_of_foremost {blanks tail behind : List Char} {head : Char}
    (foremost : Foremost blanks head tail behind) (position : Position) :
    next ⟨blanks ++ head :: tail, position⟩ =
      ((Lexeme.first head tail).tokenAt (position.after blanks),
        ⟨behind, position.after (blanks ++ (Lexeme.first head tail).spelling)⟩) := by
  have dropped : (head :: tail).drop (Lexeme.first head tail).spelling.length = behind := by
    conv => lhs; rw [foremost.covers]
    exact List.drop_left
  have taken : (head :: tail).take (Lexeme.first head tail).spelling.length =
      (Lexeme.first head tail).spelling := by
    conv => lhs; rw [foremost.covers]
    exact List.take_left
  rw [next, skipBlanks_of_foremost foremost]
  simp only [Lexeme.tokenAt, skip, dropped, taken, Position.after_append]

theorem next_behind_blanks {blanks : List Char} (blank : Blank blanks) (text : List Char)
    (position : Position) :
    TokenSource.next (⟨blanks ++ text, position⟩ : Lexer) =
      TokenSource.next (⟨text, position.after blanks⟩ : Lexer) := by
  change next _ = next _
  rcases blank_or_foremost text with nothing | ⟨others, head, tail, behind, rfl, foremost⟩
  · rw [next_of_blank nothing, next_of_blank (blank.append nothing), Position.after_append]
  · have both : Foremost (blanks ++ others) head tail behind :=
      ⟨blank.append foremost.blank, foremost.visible, foremost.covers⟩
    rw [next_of_foremost foremost, ← List.append_assoc, next_of_foremost both, List.append_assoc,
      Position.after_append, Position.after_append position blanks]

def tokens (lexer : Lexer) : List Token := (FiniteSource.drain lexer).1

theorem tokens_of_blank {blanks : List Char} (blank : Blank blanks) (position : Position) :
    tokens ⟨blanks, position⟩ = [.endOfInput (position.after blanks)] := by
  have read : TokenSource.next (⟨blanks, position⟩ : Lexer) = _ := next_of_blank blank position
  have ended : (TokenSource.next (⟨blanks, position⟩ : Lexer)).1.kind = .eof := by
    rw [read]
    rfl
  rw [tokens, FiniteSource.drain_of_ended ended, read]

theorem tokens_of_foremost {blanks tail behind : List Char} {head : Char}
    (foremost : Foremost blanks head tail behind) (position : Position) :
    tokens ⟨blanks ++ head :: tail, position⟩ =
      (Lexeme.first head tail).tokenAt (position.after blanks) ::
        tokens ⟨behind, position.after (blanks ++ (Lexeme.first head tail).spelling)⟩ := by
  have read : TokenSource.next (⟨blanks ++ head :: tail, position⟩ : Lexer) = _ :=
    next_of_foremost foremost position
  have visible : (TokenSource.next (⟨blanks ++ head :: tail, position⟩ : Lexer)).1.kind ≠ .eof := by
    rw [read]
    exact Lexeme.first_kind_ne_eof head tail
  rw [tokens, FiniteSource.drain_of_visible visible, read]
  rfl

end Lexer

end TemplateRecognizer
