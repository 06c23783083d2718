import TemplateRecognizer.Proofs.Lexer.Lossless
import TemplateRecognizer.Snippet

/-!
# Lines of a text

A lexer counts line feeds, and an author is shown lines.  The line that is shown for a position
is the one that the position is in: it begins behind the last line feed in front of the
position, and its characters up to there are those that the column counts.
-/

set_option autoImplicit false

namespace TemplateRecognizer

namespace Snippet

/-- `IsLine text number line behind` says that `line` is what stands between the line feed
`number - 1` of `text`, or its start, and the next one, or its end, and that `behind` is the
text from there on. -/
def IsLine (text : List Char) (number : Nat) (line behind : List Char) : Prop :=
  ∃ before, text = before ++ line ++ behind ∧ (before = [] ∨ before.getLast? = some '\n') ∧
    number = before.count '\n' + 1 ∧ '\n' ∉ line ∧ (behind = [] ∨ behind.head? = some '\n')

/-- `Shows line behind shown` says that a line which `behind` follows is shown as `shown`: less a
carriage return right before the line feed, and whole if there is none. -/
inductive Shows : List Char → List Char → List Char → Prop where
  | last {line : List Char} : Shows line [] line
  | returned {line rest : List Char} : Shows (line ++ ['\r']) ('\n' :: rest) line
  | plain {line rest : List Char} :
      line.getLast? ≠ some '\r' → Shows line ('\n' :: rest) line

section

variable {line behind shown : List Char}

theorem Shows.mem (displayed : Shows line behind shown) {character : Char}
    (member : character ∈ shown) : character ∈ line := by
  cases displayed with
  | last => exact member
  | returned => exact List.mem_append_left _ member
  | plain _ => exact member

theorem Shows.getElem? {whole : List Char} (displayed : Shows whole behind shown) {index : Nat}
    {character : Char} (here : whole[index]? = some character) (kept : character ≠ '\r') :
    shown[index]? = some character := by
  cases displayed with
  | last => exact here
  | plain _ => exact here
  | returned =>
    by_cases inside : index < shown.length
    · rwa [List.getElem?_append_left inside] at here
    · rw [List.getElem?_append_right (Nat.le_of_not_lt inside), List.getElem?_singleton] at here
      split at here
      · cases here
        exact absurd rfl kept
      · cases here

theorem exists_line_end (text : List Char) :
    ∃ line behind, text = line ++ behind ∧ '\n' ∉ line ∧
      (behind = [] ∨ behind.head? = some '\n') := by
  induction text with
  | nil => exact ⟨[], [], rfl, by simp, .inl rfl⟩
  | cons character text inductionHypothesis =>
    by_cases lineFeed : character = '\n'
    · exact ⟨[], character :: text, rfl, by simp, .inr (congrArg some lineFeed)⟩
    · obtain ⟨line, behind, rfl, inside, boundary⟩ := inductionHypothesis
      exact ⟨character :: line, behind, rfl, by simp [inside, Ne.symm lineFeed], boundary⟩

theorem takeWhile_line (inside : '\n' ∉ line) (boundary : behind = [] ∨ behind.head? = some '\n') :
    (line ++ behind).takeWhile (· != '\n') = line := by
  cases behind with
  | nil => rw [List.append_nil, List.takeWhile_eq_self_iff.mpr (bne_of_notMem inside)]
  | cons head rest =>
    obtain rfl : head = '\n' := by simpa using boundary
    exact takeWhile_append_cons (bne_of_notMem inside) rfl rest

theorem dropWhile_line (inside : '\n' ∉ line) (boundary : behind = [] ∨ behind.head? = some '\n') :
    (line ++ behind).dropWhile (· != '\n') = behind := by
  have whole := List.takeWhile_append_dropWhile (p := (· != '\n')) (l := line ++ behind)
  rw [takeWhile_line inside boundary] at whole
  exact List.append_cancel_left whole

theorem shows_firstLine (inside : '\n' ∉ line)
    (boundary : behind = [] ∨ behind.head? = some '\n') :
    Shows line behind (firstLine (line ++ behind)) := by
  unfold firstLine
  rw [takeWhile_line inside boundary, dropWhile_line inside boundary]
  cases behind with
  | nil => exact .last
  | cons head rest =>
    obtain rfl : head = '\n' := by simpa using boundary
    dsimp only [dropReturn]
    by_cases returns : line.getLast? = some '\r'
    · rw [if_pos returns]
      obtain ⟨front, rfl⟩ := List.getLast?_eq_some_iff.mp returns
      rw [List.dropLast_concat]
      exact .returned
    · rw [if_neg returns]
      exact .plain returns

end

theorem dropLines_append {before : List Char} (rest : List Char)
    (ends : before = [] ∨ before.getLast? = some '\n') :
    dropLines (before.count '\n') (before ++ rest) = rest := by
  induction before with
  | nil => simp [dropLines]
  | cons character before inductionHypothesis =>
    have endsBehind : before = [] ∨ before.getLast? = some '\n' := by
      cases before with
      | nil => exact .inl rfl
      | cons next before => simpa using ends
    have dropped := inductionHypothesis endsBehind
    by_cases lineFeed : character = '\n'
    · subst lineFeed
      rw [List.count_cons_self, List.cons_append, dropLines, if_pos rfl]
      exact dropped
    · -- A character that ends no line is followed by the line feed that does.
      have further : '\n' ∈ before := by
        rcases endsBehind with rfl | last
        · simp [lineFeed] at ends
        · exact List.mem_of_getLast? last
      obtain ⟨count, counted⟩ := Nat.exists_eq_succ_of_ne_zero
        (Nat.ne_of_gt (List.count_pos_iff.mpr further))
      rw [List.count_cons_of_ne lineFeed, counted, List.cons_append, dropLines, if_neg lineFeed]
      rw [counted] at dropped
      exact dropped

theorem IsLine.shows {source : String} {number : Nat} {line behind : List Char}
    (isLine : IsLine source.toList number line behind) :
    Shows line behind (sourceLine source number) := by
  obtain ⟨before, split, ends, rfl, inside, boundary⟩ := isLine
  rw [sourceLine, split, Nat.add_sub_cancel, List.append_assoc, dropLines_append _ ends]
  exact shows_firstLine inside boundary

end Snippet

/-- A position is in a line that begins as many characters before it as its column tells. -/
theorem Position.exists_line_start (front : List Char) :
    ∃ before lead, front = before ++ lead ∧ (before = [] ∨ before.getLast? = some '\n') ∧
      '\n' ∉ lead ∧ behind front = ⟨before.count '\n' + 1, lead.length + 1⟩ := by
  induction front using List.reverseRecOn with
  | nil => exact ⟨[], [], rfl, .inl rfl, by simp, rfl⟩
  | append_singleton front character inductionHypothesis =>
    obtain ⟨before, lead, split, ends, inside, place⟩ := inductionHypothesis
    have moved := after_behind front [character]
    rw [place, after_cons, after_nil] at moved
    by_cases lineFeed : character = '\n'
    · refine ⟨front ++ [character], [], by simp, .inr (by simp [lineFeed]), by simp, ?_⟩
      have none : lead.count '\n' = 0 := List.count_eq_zero_of_not_mem inside
      rw [← moved, advance, if_pos lineFeed, split, lineFeed]
      simp [none]
    · refine ⟨before, lead ++ [character], by simp [split], ends, ?_, ?_⟩
      · simp [inside, Ne.symm lineFeed]
      · rw [← moved, advance, if_neg lineFeed]
        simp

/-- The line of a position goes on with what stands there, up to the next line feed. -/
theorem Position.exists_isLine (front rest : List Char) :
    ∃ lead tail behind, rest = tail ++ behind ∧
      (Position.behind front).column = lead.length + 1 ∧
      Snippet.IsLine (front ++ rest) (Position.behind front).line (lead ++ tail) behind := by
  obtain ⟨before, lead, split, ends, inside, place⟩ := exists_line_start front
  obtain ⟨tail, behind, rfl, insideTail, boundary⟩ := Snippet.exists_line_end rest
  rw [place]
  refine ⟨lead, tail, behind, rfl, rfl, before, ?_, ends, rfl, ?_, boundary⟩
  · rw [split]
    simp
  · rw [List.mem_append, not_or]
    exact ⟨inside, insideTail⟩

end TemplateRecognizer
