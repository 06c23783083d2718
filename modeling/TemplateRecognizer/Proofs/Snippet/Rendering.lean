import TemplateRecognizer.Proofs.Snippet.Lines

/-!
# The lines of a rendering

An error with a position is rendered as five lines, and one more if it has a hint.  None of them
holds a line feed if the name of the file does not, and the names that the error quotes do not.
-/

set_option autoImplicit false

namespace TemplateRecognizer

/-! ## Texts of one line -/

def OneLine (text : String) : Prop := '\n' ∉ text.toList

instance (text : String) : Decidable (OneLine text) :=
  inferInstanceAs (Decidable ('\n' ∉ text.toList))

@[simp] theorem oneLine_append (front back : String) :
    OneLine (front ++ back) ↔ OneLine front ∧ OneLine back := by
  rw [OneLine, String.toList_append, List.mem_append, not_or]
  exact Iff.rfl

theorem oneLine_number (number : Nat) : OneLine (toString number) := by
  intro member
  have digits : (toString number).toList = Nat.toDigits 10 number := Nat.toList_repr
  rw [digits] at member
  exact absurd (Nat.isDigit_of_mem_toDigits (by decide) (by decide) member) (by decide)

theorem Kind.oneLine_name (kind : Kind) : OneLine kind.name := by
  cases kind <;> decide

theorem Kind.oneLine_symbol {kind : Kind} {symbol : String} (fixed : kind.symbol? = some symbol) :
    OneLine symbol := by
  cases kind <;> cases fixed <;> decide

theorem Construct.oneLine_tag (construct : Construct) : OneLine construct.tag := by
  cases construct <;> decide

namespace ParseError

def NamesOneLine (error : ParseError) : Prop :=
  ∀ opening closing position, error = .mismatchedTag opening closing position →
    OneLine opening ∧ OneLine closing

theorem oneLine_whereAt (position : Position) : OneLine (whereAt position) := by
  simp only [whereAt, oneLine_append, oneLine_number, and_true]
  decide

theorem oneLine_code (error : ParseError) : OneLine error.code := by
  unfold code
  split <;> decide

theorem oneLine_message {error : ParseError} (names : error.NamesOneLine) :
    OneLine error.message := by
  unfold message
  split
  · simp only [oneLine_append, oneLine_whereAt, Kind.oneLine_name, and_true]
    decide
  · decide
  · simp only [oneLine_append, oneLine_whereAt, Kind.oneLine_name, and_true]
    decide
  · rename_i opening closing position
    obtain ⟨first, second⟩ := names opening closing position rfl
    simp only [oneLine_append, oneLine_whereAt, first, second, and_true]
    decide
  · simp only [oneLine_append, oneLine_whereAt, oneLine_number, and_true]
    decide
  · simp only [oneLine_append, Construct.oneLine_tag, and_true]
    decide

theorem oneLine_help {error : ParseError} (names : error.NamesOneLine) {help : String}
    (helps : error.help? = some help) : OneLine help := by
  unfold help? at helps
  split at helps
  · obtain ⟨symbol, fixed, rfl⟩ := Option.map_eq_some_iff.mp helps
    simp only [oneLine_append, Kind.oneLine_symbol fixed, and_true]
    decide
  · cases helps
    decide
  · cases helps
    decide
  · rename_i opening closing position
    cases helps
    simp only [oneLine_append, (names opening closing position rfl).1, and_true]
    decide
  · cases helps
  · cases helps

end ParseError

/-! ## The lines -/

theorem Snippet.lineFeed_notMem_sourceLine (source : String) (number : Nat) :
    '\n' ∉ sourceLine source number := by
  obtain ⟨line, behind, split, inside, boundary⟩ :=
    exists_line_end (dropLines (number - 1) source.toList)
  intro member
  rw [sourceLine, split] at member
  exact inside ((shows_firstLine inside boundary).mem member)

namespace ParseError

variable {error : ParseError} {file source : String}

theorem lines_of_position (file source : String) {position : Position}
    (placed : error.position? = some position) :
    error.lines file source =
      [("error[" ++ error.code ++ "]: " ++ error.message).toList,
        ("  --> " ++ file ++ ":" ++ toString position.line ++ ":" ++
          toString position.column).toList,
        "   |".toList,
        List.replicate (3 - (toString position.line).length) ' ' ++
          (toString position.line).toList ++ " | ".toList ++
            Snippet.sourceLine source position.line,
        "   | ".toList ++ List.replicate (position.column - 1) ' ' ++ ['^']] ++
      (error.help?.map fun help => ("help: " ++ help).toList).toList := by
  unfold lines
  rw [placed, ← String.length_toList]
  cases error.help? <;>
    simp [Snippet.gutter, Snippet.shownLine, Snippet.lineNumber, Snippet.caretLine,
      Position.toText, String.append_assoc]

theorem lineFeed_notMem_lines (plain : OneLine file) (names : error.NamesOneLine) :
    ∀ line ∈ error.lines file source, '\n' ∉ line := by
  intro line member
  unfold lines at member
  rcases List.mem_cons.mp member with rfl | member
  · have header : OneLine ("error[" ++ error.code ++ "]: " ++ error.message) := by
      simp only [oneLine_append, oneLine_code, oneLine_message names, and_true]
      decide
    exact header
  rcases List.mem_append.mp member with place | hint
  · split at place
    · rename_i position _
      simp only [List.mem_cons, List.not_mem_nil, or_false] at place
      rcases place with rfl | rfl | rfl | rfl
      · have located : OneLine ("  --> " ++ file ++ ":" ++ position.toText) := by
          simp only [Position.toText, oneLine_append, oneLine_number, plain, and_true]
          decide
        exact located
      · decide
      · have shown := Snippet.lineFeed_notMem_sourceLine source position.line
        simp only [Snippet.shownLine, Snippet.lineNumber, List.mem_append, not_or]
        exact ⟨⟨⟨by simp, oneLine_number position.line⟩, by decide⟩, shown⟩
      · simp [Snippet.caretLine, Snippet.gutter]
    · obtain rfl := List.mem_singleton.mp place
      have located : OneLine ("  --> " ++ file) := by
        simp only [oneLine_append, plain, and_true]
        decide
      exact located
  · split at hint
    · rename_i help helps
      obtain rfl := List.mem_singleton.mp hint
      have hinted : OneLine ("help: " ++ help) := by
        simp only [oneLine_append, oneLine_help names helps, and_true]
        decide
      exact hinted
    · cases hint

end ParseError

end TemplateRecognizer
