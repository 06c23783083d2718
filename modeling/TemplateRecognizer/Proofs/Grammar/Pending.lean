import TemplateRecognizer.Grammar.Prediction

/-!
# Walking through pending symbols

What is still waited for can be walked through before any token is read.  If every symbol is
given its moves between the states of some watcher, the symbols that are pending lead from
the state of now to that of the end.  A watcher can follow a recognition if every expansion
leads where the phrase does that it replaces.
-/

set_option autoImplicit false

namespace TemplateRecognizer

/-- `Leads moves symbols start finish` says that the moves of `symbols`, one after another,
lead from `start` to `finish`. -/
def Leads {α : Type} (moves : Symbol → α → α → Prop) : List Symbol → α → α → Prop
  | [], start, finish => start = finish
  | symbol :: rest, start, finish =>
    ∃ middle, moves symbol start middle ∧ Leads moves rest middle finish

theorem Leads.append {α : Type} {moves : Symbol → α → α → Prop} {start middle finish : α}
    {front back : List Symbol} (first : Leads moves front start middle)
    (second : Leads moves back middle finish) : Leads moves (front ++ back) start finish := by
  induction front generalizing start with
  | nil =>
    cases first
    exact second
  | cons symbol front inductionHypothesis =>
    obtain ⟨between, move, rest⟩ := first
    exact ⟨between, move, inductionHypothesis rest⟩

/-! ## Names that are waited for -/

def Symbol.closes? : Symbol → Option String
  | .closingName opening => some opening
  | _ => none

/-- A phrase has tags inside it, but none that is open already. -/
theorem Phrase.closes?_of_expand {phrase : Phrase} {ahead : Kind} {expansion : List Symbol}
    (predicted : phrase.expand ahead = some expansion) :
    ∀ symbol ∈ expansion, symbol.closes? = none := by
  cases phrase <;> simp only [expand] at predicted
  all_goals first
    | (split at predicted <;> cases predicted <;> simp [Symbol.closes?])
    | (cases predicted; simp [Symbol.closes?])

end TemplateRecognizer
