import TemplateRecognizer.Proofs.Grammar.Pending

/-!
# Brackets that are properly nested

Two families of brackets run through a template: the keywords that begin and end conditionals
and loops, and the braces, parentheses and square brackets.  Each family is read by itself.  A
word of brackets is nested if whatever it closes is the innermost bracket that is open.

While a word is read from left to right, the brackets that are open form a stack.  What the
grammar still waits for takes this stack to the empty one.
-/

set_option autoImplicit false

namespace TemplateRecognizer

inductive Mark (β : Type) where
  | opens (bracket : β)
  | closes (bracket : β)
deriving DecidableEq, Repr

/-- The words in which every bracket is closed, and none before those inside of it. -/
inductive Nested {β : Type} : List (Mark β) → Prop where
  | nil : Nested []
  | enclosed (bracket : β) {inside rest : List (Mark β)} :
      Nested inside → Nested rest →
        Nested (.opens bracket :: (inside ++ .closes bracket :: rest))

/-! ## The two families -/

inductive Block where
  | conditional
  | loop
deriving DecidableEq, Repr

inductive Bracket where
  | brace
  | parenthesis
  | square
deriving DecidableEq, Repr

namespace Kind

def block? : Kind → Option (Mark Block)
  | ifKeyword => some (.opens .conditional)
  | endIfKeyword => some (.closes .conditional)
  | forEachKeyword => some (.opens .loop)
  | endForEachKeyword => some (.closes .loop)
  | _ => none

def bracket? : Kind → Option (Mark Bracket)
  | openBrace => some (.opens .brace)
  | closeBrace => some (.closes .brace)
  | leftParens => some (.opens .parenthesis)
  | rightParens => some (.closes .parenthesis)
  | openBracket => some (.opens .square)
  | closeBracket => some (.closes .square)
  | _ => none

end Kind

/-! ## Stacks of open brackets -/

section

variable {β : Type} {bracket : β} {start middle finish : List β} {marks more : List (Mark β)}

/-- `Stacks marks start finish` says that `marks` take the open brackets `start`, innermost
first, to `finish`. -/
inductive Stacks : List (Mark β) → List β → List β → Prop where
  | nil {start : List β} : Stacks [] start start
  | opens {bracket : β} {marks : List (Mark β)} {start finish : List β} :
      Stacks marks (bracket :: start) finish → Stacks (.opens bracket :: marks) start finish
  | closes {bracket : β} {marks : List (Mark β)} {start finish : List β} :
      Stacks marks start finish → Stacks (.closes bracket :: marks) (bracket :: start) finish

theorem Stacks.append (first : Stacks marks start middle) (second : Stacks more middle finish) :
    Stacks (marks ++ more) start finish := by
  induction first with
  | nil => exact second
  | opens _ inductionHypothesis => exact .opens (inductionHypothesis second)
  | closes _ inductionHypothesis => exact .closes (inductionHypothesis second)

theorem Nested.insert (nested : Nested marks) (bracket : β) {front back : List (Mark β)}
    (split : marks = front ++ back) :
    Nested (front ++ .opens bracket :: .closes bracket :: back) := by
  induction nested generalizing front back with
  | nil =>
    obtain ⟨rfl, rfl⟩ := List.append_eq_nil_iff.mp split.symm
    exact .enclosed bracket .nil .nil
  | @enclosed outer inside rest nestedInside nestedRest inductionInside inductionRest =>
    cases front with
    | nil =>
      rw [List.nil_append] at split
      rw [← split]
      exact .enclosed bracket .nil (.enclosed outer nestedInside nestedRest)
    | cons first front =>
      rw [List.cons_append, List.cons.injEq] at split
      obtain ⟨rfl, split⟩ := split
      rcases List.append_eq_append_iff.mp split with ⟨between, rfl, behind⟩ | ⟨between, rfl, rfl⟩
      · cases between with
        | nil =>
          -- The place is right in front of the bracket that closes the outer one.
          rw [List.nil_append] at behind
          rw [← behind, List.append_nil]
          have grown := inductionInside (List.append_nil inside).symm
          simpa using Nested.enclosed outer grown nestedRest
        | cons closing between =>
          rw [List.cons_append, List.cons.injEq] at behind
          obtain ⟨rfl, rfl⟩ := behind
          have grown := inductionRest rfl
          simpa using Nested.enclosed outer nestedInside grown
      · have grown := inductionInside rfl
        simpa using Nested.enclosed outer grown nestedRest

theorem nested_stack (stack : List β) :
    Nested (stack.reverse.map Mark.opens ++ stack.map Mark.closes) := by
  induction stack with
  | nil => exact .nil
  | cons bracket stack inductionHypothesis => simpa using inductionHypothesis.insert bracket rfl

theorem Stacks.nested (runs : Stacks marks start finish) :
    Nested (start.reverse.map Mark.opens ++ (marks ++ finish.map Mark.closes)) := by
  induction runs with
  | nil => exact nested_stack _
  | opens _ inductionHypothesis => simpa using inductionHypothesis
  | @closes bracket marks start finish _ inductionHypothesis =>
    simpa using inductionHypothesis.insert bracket rfl

/-- Whatever is open can still be closed. -/
theorem Stacks.exists_nested (runs : Stacks marks [] finish) :
    ∃ rest, Nested (marks ++ rest) :=
  ⟨finish.map Mark.closes, runs.nested⟩

end

/-! ## What is still waited for -/

section

variable {β : Type}

def Mark.Turns : Mark β → List β → List β → Prop
  | .opens bracket, start, finish => finish = bracket :: start
  | .closes bracket, start, finish => start = bracket :: finish

theorem Mark.Turns.stacks {mark : Mark β} {start finish : List β}
    (turns : mark.Turns start finish) : Stacks [mark] start finish := by
  cases mark with
  | opens bracket =>
    cases turns
    exact .opens .nil
  | closes bracket =>
    cases turns
    exact .closes .nil

/-- Moves between stacks of open brackets.  A phrase leaves the stack as it was, but for the
brackets `owed` that were opened in front of the phrase and are closed in it. -/
def Symbol.Turns (mark? : Kind → Option (Mark β)) (owed : Phrase → List β) :
    Symbol → List β → List β → Prop
  | .token kind _, start, finish => match mark? kind with
    | some mark => mark.Turns start finish
    | none => finish = start
  | .phrase inner, start, finish => start = owed inner ++ finish
  | .openingName, start, finish | .closingName _, start, finish
  | .enter, start, finish | .leave, start, finish => finish = start

structure Nests (mark? : Kind → Option (Mark β)) where
  owed : Phrase → List β
  mark?_identifier : mark? .identifier = none
  leads_afterOpeningName : ∀ (name : String) (stack : List β),
    Leads (Symbol.Turns mark? owed) (Symbol.afterOpeningName name) stack stack
  leads_expand : ∀ {phrase : Phrase} {ahead : Kind} {expansion : List Symbol},
    phrase.expand ahead = some expansion → ∀ stack : List β,
      Leads (Symbol.Turns mark? owed) expansion (owed phrase ++ stack) stack

end

/-- Both keywords of a block stand in the one phrase that it is. -/
def nestsBlocks : Nests Kind.block? where
  owed _ := []
  mark?_identifier := rfl
  leads_afterOpeningName name stack := by
    simp [Symbol.afterOpeningName, Leads, Symbol.Turns, Kind.block?]
  leads_expand {phrase ahead expansion} predicted stack := by
    cases phrase <;> simp only [Phrase.expand] at predicted
    all_goals first
      | (split at predicted <;> cases predicted <;>
          simp [Leads, Symbol.Turns, Kind.block?])
      | (cases predicted; simp [Leads, Symbol.Turns, Mark.Turns, Kind.block?])

/-- A statement opens a brace before the token that tells which statement it is. -/
def nestsBrackets : Nests Kind.bracket? where
  owed
    | .directive | .conditional | .loop => [.brace]
    | _ => []
  mark?_identifier := rfl
  leads_afterOpeningName name stack := by
    simp [Symbol.afterOpeningName, Leads, Symbol.Turns, Kind.bracket?]
  leads_expand {phrase ahead expansion} predicted stack := by
    cases phrase <;> simp only [Phrase.expand] at predicted
    all_goals first
      | (split at predicted <;> cases predicted <;>
          simp [Leads, Symbol.Turns, Mark.Turns, Kind.bracket?])
      | (cases predicted; simp [Leads, Symbol.Turns, Mark.Turns, Kind.bracket?])

end TemplateRecognizer
