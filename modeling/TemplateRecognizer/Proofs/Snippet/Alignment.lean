import TemplateRecognizer.Proofs.Snippet.Rendering

/-!
# The caret and its column

A line of the source is shown behind its number, and the caret below it behind a gutter of its
own.  A number is filled up to three characters and goes on with three more, while the gutter of
the caret has five.  So the caret is always left of the character that it is meant for: by one
character up to line 999, and by one more for every further digit.
-/

set_option autoImplicit false

namespace TemplateRecognizer

namespace Snippet

theorem IsLine.unique {text line other behind below : List Char} {number : Nat}
    (isLine : IsLine text number line behind) (isOther : IsLine text number other below) :
    line = other := by
  have front {line behind : List Char} (isLine : IsLine text number line behind) :
      (dropLines (number - 1) text).takeWhile (· != '\n') = line := by
    obtain ⟨before, rfl, ends, rfl, inside, boundary⟩ := isLine
    rw [Nat.add_sub_cancel, List.append_assoc, dropLines_append _ ends]
    exact takeWhile_line inside boundary
  exact (front isLine).symm.trans (front isOther)

theorem isLine_getElem {lines : List (List Char)} (inside : ∀ line ∈ lines, '\n' ∉ line)
    (index : Nat) (within : index < lines.length) :
    ∃ behind,
      IsLine (lines.flatMap fun line => line ++ ['\n']) (index + 1) lines[index] behind := by
  induction lines generalizing index with
  | nil => cases within
  | cons first lines inductionHypothesis =>
    have plain := inside first List.mem_cons_self
    cases index with
    | zero =>
      exact ⟨'\n' :: lines.flatMap fun line => line ++ ['\n'], [], by simp, .inl rfl, rfl, plain,
        .inr rfl⟩
    | succ index =>
      obtain ⟨behind, before, split, ends, number, rest⟩ := inductionHypothesis
        (fun line member => inside line (List.mem_cons_of_mem _ member)) index
        (Nat.lt_of_succ_lt_succ within)
      refine ⟨behind, first ++ '\n' :: before, ?_, .inr ?_, ?_, rest⟩
      · simp [split]
      · rcases ends with rfl | ends <;> simp [List.getLast?_cons, *]
      · have none : first.count '\n' = 0 := List.count_eq_zero_of_not_mem plain
        rw [List.count_append, none, List.count_cons_self, number, Nat.zero_add]

/-- `CaretLeftBy rendering shown column distance` says that the caret in the fifth line of
`rendering` is the distance to the left of where the fourth line, which ends with `shown`, has
the character of `shown` that the column counts. -/
def CaretLeftBy (rendering shown : List Char) (column distance : Nat) : Prop :=
  ∃ gutter lead behind below,
    IsLine rendering 4 (gutter ++ shown) behind ∧ IsLine rendering 5 (lead ++ ['^']) below ∧
      '^' ∉ lead ∧ lead.length + distance = gutter.length + (column - 1)

theorem CaretLeftBy.unique {rendering shown : List Char} {column distance other : Nat}
    (left : CaretLeftBy rendering shown column distance)
    (leftOther : CaretLeftBy rendering shown column other) : distance = other := by
  obtain ⟨gutter, lead, _, _, snippet, caret, _, measured⟩ := left
  obtain ⟨gutter', lead', _, _, snippet', caret', _, measured'⟩ := leftOther
  obtain rfl := List.append_cancel_right (snippet.unique snippet')
  obtain rfl := List.append_cancel_right (caret.unique caret')
  omega

end Snippet

namespace ParseError

variable {error : ParseError} {file source : String} {position : Position}

theorem namesOneLine_of_message (oneLine : OneLine error.message) : error.NamesOneLine := by
  rintro opening closing place rfl
  have parts : OneLine (_ ++ closing ++ _ ++ opening ++ _ ++ _) := oneLine
  rw [oneLine_append, oneLine_append, oneLine_append, oneLine_append, oneLine_append] at parts
  exact ⟨parts.1.1.2, parts.1.1.1.1.2⟩

theorem caretLeftBy_render (source : String) (placed : error.position? = some position)
    (plain : OneLine file) (oneLine : OneLine error.message) :
    Snippet.CaretLeftBy (error.render file source).toList
      (Snippet.sourceLine source position.line) position.column
      (max 3 (toString position.line).length - 2) := by
  have inside : ∀ line ∈ error.lines file source, '\n' ∉ line :=
    lineFeed_notMem_lines plain (namesOneLine_of_message oneLine)
  rw [render, String.toList_ofList]
  rw [lines_of_position file source placed] at inside ⊢
  obtain ⟨behind, snippet⟩ := Snippet.isLine_getElem inside 3 (by simp)
  obtain ⟨below, caret⟩ := Snippet.isLine_getElem inside 4 (by simp)
  refine ⟨_, _, behind, below, snippet, caret, ?_, ?_⟩
  · simp
  · simp only [List.length_append, List.length_replicate, String.length_toList]
    have number : " | ".length = 3 := rfl
    have gutter : "   | ".length = 5 := rfl
    omega

end ParseError

/-- The caret of an error is never under the column of the error, but left of it: by one character
where the number of the line has up to three digits, and by one more for each further digit. -/
theorem caret_stands_left_of_column {error : ParseError} {file source : String}
    {position : Position} {distance : Nat} (placed : error.position? = some position)
    (plain : OneLine file) (oneLine : OneLine error.message) :
    Snippet.CaretLeftBy (error.render file source).toList
        (Snippet.sourceLine source position.line) position.column distance ↔
      distance = max 3 (toString position.line).length - 2 := by
  have left := ParseError.caretLeftBy_render source placed plain oneLine
  constructor
  · intro measured
    exact measured.unique left
  · rintro rfl
    exact left

/-- On a line whose number has four digits the caret is two characters to the left. -/
theorem caret_stands_left_of_column_line_thousand :
    ParseError.position? (.unexpectedToken .greaterThan .eof ⟨1000, 3⟩) = some ⟨1000, 3⟩ ∧
      OneLine "page.html" ∧
      OneLine (ParseError.message (.unexpectedToken .greaterThan .eof ⟨1000, 3⟩)) ∧
      Snippet.CaretLeftBy
        (ParseError.render (.unexpectedToken .greaterThan .eof ⟨1000, 3⟩) "page.html" "<p").toList
        (Snippet.sourceLine "<p" 1000) 3 2 := by
  have plain : OneLine "page.html" := by decide
  have oneLine : OneLine (ParseError.message (.unexpectedToken .greaterThan .eof ⟨1000, 3⟩)) :=
    ParseError.oneLine_message (by rintro _ _ _ ⟨⟩)
  exact ⟨rfl, plain, oneLine, (caret_stands_left_of_column rfl plain oneLine).mpr (by decide)⟩

/-- The caret for the second comparison of a chain is not under its sign. -/
theorem caret_not_under_column :
    ParseError.position? (.unexpectedToken .closeBrace .lessThan ⟨1, 13⟩) = some ⟨1, 13⟩ ∧
      OneLine "index.html" ∧
      OneLine (ParseError.message (.unexpectedToken .closeBrace .lessThan ⟨1, 13⟩)) ∧
      ¬ Snippet.CaretLeftBy
        (ParseError.render (.unexpectedToken .closeBrace .lessThan ⟨1, 13⟩) "index.html"
          "<p>\x7b\x7b 1 < 2 < 3 \x7d\x7d</p>").toList
        (Snippet.sourceLine "<p>\x7b\x7b 1 < 2 < 3 \x7d\x7d</p>" 1) 13 0 := by
  have plain : OneLine "index.html" := by decide
  have oneLine : OneLine (ParseError.message (.unexpectedToken .closeBrace .lessThan ⟨1, 13⟩)) :=
    ParseError.oneLine_message (by rintro _ _ _ ⟨⟩)
  refine ⟨rfl, plain, oneLine, ?_⟩
  intro aligned
  have distance := aligned.unique (ParseError.caretLeftBy_render _ rfl plain oneLine)
  revert distance
  decide

end TemplateRecognizer
