import TemplateRecognizer.Proofs.Grammar.Nesting
import TemplateRecognizer.Proofs.Recognizer.Course

/-!
# What is consumed is properly nested

A recognition keeps no stack of brackets.  It matches them all the same, because what it waits
for always closes just the brackets that are open: at every point its tokens can go on to a
nested word, and they are one when it accepts.
-/

set_option autoImplicit false

namespace TemplateRecognizer

section

variable {β : Type} {mark? : Kind → Option (Mark β)} {options : Options} {tokens : Nat → Token}
  {stage next final : Stage} {verdict : Except ParseError Unit} {stack finish : List β}

def marks (mark? : Kind → Option (Mark β)) (tokens : List Token) : List (Mark β) :=
  tokens.filterMap fun token => mark? token.kind

theorem marks_append (front back : List Token) :
    marks mark? (front ++ back) = marks mark? front ++ marks mark? back :=
  List.filterMap_append

theorem marks_between_self (index : Nat) : marks mark? (between tokens index index) = [] := by
  rw [between_self]
  exact List.filterMap_nil

theorem marks_between_name (nests : Nests mark?) {index : Nat}
    (name : (tokens index).kind = .identifier) :
    marks mark? (between tokens index (index + 1)) = [] := by
  rw [between_succ, marks, List.filterMap_cons_none, List.filterMap_nil]
  rw [name, nests.mark?_identifier]

/-- A step reads brackets from the stack that is open, and leaves open what is waited for. -/
theorem Stage.Advances.stacks (nests : Nests mark?) (advances : stage.Advances options tokens next)
    (leads : Leads (Symbol.Turns mark? nests.owed) stage.pending stack finish) :
    ∃ reached, Stacks (marks mark? (between tokens stage.taken next.taken)) stack reached ∧
      Leads (Symbol.Turns mark? nests.owed) next.pending reached finish := by
  cases advances with
  | @token taken depth rest kind visible same =>
    obtain ⟨reached, turns, behind⟩ := leads
    refine ⟨reached, ?_, behind⟩
    rw [between_succ]
    dsimp only [Symbol.Turns] at turns
    cases marked : mark? kind with
    | none =>
      rw [marked] at turns
      subst turns
      rw [marks, List.filterMap_cons_none (by rw [same, marked]), List.filterMap_nil]
      exact .nil
    | some mark =>
      rw [marked] at turns
      rw [marks, List.filterMap_cons_some (by rw [same, marked]), List.filterMap_nil]
      exact Mark.Turns.stacks turns
  | openingName name =>
    obtain ⟨_, rfl, behind⟩ := leads
    rw [marks_between_name nests name]
    exact ⟨_, .nil, (nests.leads_afterOpeningName _ _).append behind⟩
  | closingName name _ =>
    obtain ⟨_, rfl, behind⟩ := leads
    rw [marks_between_name nests name]
    exact ⟨_, .nil, behind⟩
  | enter _ =>
    obtain ⟨_, rfl, behind⟩ := leads
    rw [marks_between_self]
    exact ⟨_, .nil, behind⟩
  | leave =>
    obtain ⟨_, rfl, behind⟩ := leads
    rw [marks_between_self]
    exact ⟨_, .nil, behind⟩
  | phrase predicted =>
    obtain ⟨_, rfl, behind⟩ := leads
    rw [marks_between_self]
    exact ⟨_, .nil, (nests.leads_expand predicted _).append behind⟩

theorem Stage.Halts.marks_between (nests : Nests mark?)
    (halts : stage.Halts options tokens verdict final) :
    marks mark? (between tokens stage.taken final.taken) = [] := by
  cases halts with
  | mismatched _ name _ => exact marks_between_name nests name
  | _ => exact marks_between_self _

theorem Course.stacks (nests : Nests mark?) (course : Course options tokens stage verdict final)
    (leads : Leads (Symbol.Turns mark? nests.owed) stage.pending stack finish) :
    ∃ reached, Stacks (marks mark? (between tokens stage.taken final.taken)) stack reached ∧
      (verdict = .ok () → reached = finish) := by
  induction course generalizing stack with
  | halts halts =>
    rw [halts.marks_between nests]
    refine ⟨stack, .nil, ?_⟩
    rintro rfl
    cases halts
    exact leads
  | advances advances course inductionHypothesis =>
    obtain ⟨middle, first, behind⟩ := advances.stacks nests leads
    obtain ⟨reached, rest, closed⟩ := inductionHypothesis behind
    refine ⟨reached, ?_, closed⟩
    rw [← between_append tokens advances.taken_le course.taken_le, marks_append]
    exact first.append rest

end

section

variable {β : Type} {mark? : Kind → Option (Mark β)} {σ : Type} [FiniteSource σ]

theorem Nests.stacks_consumed (nests : Nests mark?) (start : nests.owed .tags = []) (source : σ)
    (options : Options) (validator : Validator) :
    ∃ reached,
      Stacks (marks mark? (TokenSource.upcoming
        ((recognizeFrom source options validator).pulled - 1) source)) [] reached ∧
      ((recognizeFrom source options validator).verdict = .ok () → reached = []) := by
  by_cases opens : (TokenSource.token source 0).kind = .lessThan
  · obtain ⟨verdict, final, course⟩ :=
      Course.exists_of_source options source ⟨0, [.phrase .tags], 0⟩
    have waiting : Leads (Symbol.Turns mark? nests.owed) [.phrase .tags] [] [] := by
      refine ⟨[], ?_, rfl⟩
      rw [Symbol.Turns, start, List.append_nil]
    obtain ⟨reached, runs, closed⟩ := course.stacks nests waiting
    rw [recognizeFrom_of_course opens course, Recognition.pulled_checkEnd,
      TokenSource.upcoming_eq_between]
    refine ⟨reached, runs, ?_⟩
    intro accepted
    cases verdict with
    | ok _ => exact closed rfl
    | error error =>
      rw [Recognition.checkEnd_of_error rfl] at accepted
      cases accepted
  · rw [recognizeFrom_of_noTemplate options opens, Recognition.pulled_checkEnd,
      pulled_recognizeAtOnce]
    exact ⟨[], .nil, fun _ => rfl⟩

/-- At every point of a recognition, what it has taken can go on to a nested word; and when it
accepts, what it has taken is one. -/
theorem Nests.nested_consumed (nests : Nests mark?) (start : nests.owed .tags = []) (source : σ)
    (options : Options) (validator : Validator) :
    let recognition := recognizeFrom source options validator
    (∀ count < recognition.pulled,
      ∃ rest, Nested (marks mark? (TokenSource.upcoming count source) ++ rest)) ∧
    (recognition.verdict = .ok () →
      Nested (marks mark? (TokenSource.upcoming (recognition.pulled - 1) source))) := by
  intro recognition
  obtain ⟨reached, runs, closed⟩ := nests.stacks_consumed start source options validator
  obtain ⟨ending, nested⟩ := runs.exists_nested
  refine ⟨?_, ?_⟩
  · intro count taken
    have whole : recognition.pulled - 1 = count + (recognition.pulled - 1 - count) := by omega
    change Nested
      (marks mark? (TokenSource.upcoming (recognition.pulled - 1) source) ++ _) at nested
    rw [whole, TokenSource.upcoming_add, marks_append, List.append_assoc] at nested
    exact ⟨_, nested⟩
  · intro accepted
    obtain rfl := closed accepted
    have balanced := runs.nested
    simpa using balanced

end

/-- Consumed input is properly nested, whatever the options and however the recognition ends.
The keywords of conditionals and loops are one family of brackets, and braces, parentheses and
square brackets are the other.  At every point of a run nothing has been closed that was not the
innermost open bracket of its family, and when a recognition accepts nothing is left open. -/
theorem consumed_is_nested {σ : Type} [FiniteSource σ] (source : σ) (options : Options)
    (validator : Validator) :
    let recognition := recognizeFrom source options validator
    let blocks := fun count => marks Kind.block? (TokenSource.upcoming count source)
    let brackets := fun count => marks Kind.bracket? (TokenSource.upcoming count source)
    (∀ count < recognition.pulled,
      (∃ rest, Nested (blocks count ++ rest)) ∧ ∃ rest, Nested (brackets count ++ rest)) ∧
    (recognition.verdict = .ok () →
      Nested (blocks (recognition.pulled - 1)) ∧ Nested (brackets (recognition.pulled - 1))) := by
  intro recognition blocks brackets
  obtain ⟨openBlocks, closedBlocks⟩ := nestsBlocks.nested_consumed rfl source options validator
  obtain ⟨openBrackets, closedBrackets⟩ :=
    nestsBrackets.nested_consumed rfl source options validator
  refine ⟨?_, ?_⟩
  · intro count taken
    exact ⟨openBlocks count taken, openBrackets count taken⟩
  · intro accepted
    exact ⟨closedBlocks accepted, closedBrackets accepted⟩

end TemplateRecognizer
