import TemplateRecognizer.Grammar.Prediction
import TemplateRecognizer.Options
import TemplateRecognizer.ParseError
import TemplateRecognizer.Token.Source

/-!
# The recognizing machine

The machine keeps the symbols it still waits for, the number of open levels and
one token of lookahead.  A step replaces a phrase by what it predicts, opens or
closes a level, or takes the lookahead, and only then is another token pulled.

Over a finite source the machine always halts: between two tokens it can only
replace phrases by what they begin with and open or close levels, and every such
step lowers `slack`.
-/

set_option autoImplicit false

namespace TemplateRecognizer

/-- A recognition in progress over a source of tokens. -/
structure Machine (σ : Type) where
  /-- What is still waited for, first to last. -/
  pending : List Symbol
  depth : Nat
  /-- The one token pulled and not taken. -/
  lookahead : Token
  source : σ
  pulled : Nat

inductive Step (σ : Type) where
  | moved (machine : Machine σ)
  | halted (verdict : Except ParseError Unit) (machine : Machine σ)

/-- The number of levels that are open while `pending` is waited for.  A level
that is still to be entered is left again, but it is not open. -/
def openLevels (pending : List Symbol) : Nat := pending.count .leave - pending.count .enter

namespace Machine

variable {σ : Type} [TokenSource σ]

def take (machine : Machine σ) (pending : List Symbol) : Machine σ :=
  { machine with
    pending
    lookahead := (TokenSource.next machine.source).1
    source := (TokenSource.next machine.source).2
    pulled := machine.pulled + 1 }

/-- Gives up what is pending, and leaves the levels that it would have left. -/
def abandon (machine : Machine σ) : Machine σ :=
  { machine with
    pending := []
    depth := machine.depth - openLevels machine.pending }

/-- The depth when the levels that `pending` leaves are left one at a time, but for the first
`refused` of them, which were never entered. -/
def unwind : Nat → List Symbol → Nat → Nat
  | _, [], depth => depth
  | 0, .leave :: rest, depth => unwind 0 rest (depth - 1)
  | refused + 1, .leave :: rest, depth => unwind refused rest depth
  | refused, _ :: rest, depth => unwind refused rest depth

theorem unwind_eq (refused : Nat) (pending : List Symbol) (depth : Nat) :
    unwind refused pending depth = depth - (pending.count .leave - refused) := by
  induction pending generalizing refused depth with
  | nil => simp [unwind]
  | cons symbol rest inductionHypothesis =>
    cases symbol with
    | leave =>
      rw [List.count_cons_self]
      cases refused with
      | zero =>
        rw [unwind, inductionHypothesis]
        omega
      | succ refused =>
        rw [unwind, inductionHypothesis]
        omega
    | _ =>
      rw [List.count_cons_of_ne (by simp)]
      simpa only [unwind] using inductionHypothesis refused depth

omit [TokenSource σ] in
/-- To give up is to take one away for each level that was entered, from the innermost on. -/
theorem depth_abandon (machine : Machine σ) :
    machine.abandon.depth =
      unwind (machine.pending.count .enter) machine.pending machine.depth :=
  (unwind_eq _ _ _).symm

def fail (machine : Machine σ) (error : ParseError) : Step σ :=
  .halted (.error error) machine.abandon

def unexpected (machine : Machine σ) (expected : Kind) : ParseError :=
  .unexpectedToken expected machine.lookahead.kind machine.lookahead.position

def perform (options : Options) (machine : Machine σ) (rest : List Symbol) : Symbol → Step σ
  | .token kind _ =>
    if machine.lookahead.kind = kind then .moved (machine.take rest)
    else machine.fail (machine.unexpected kind)
  | .openingName =>
    if machine.lookahead.kind = .identifier then
      .moved (machine.take (Symbol.afterOpeningName machine.lookahead.textOrEmpty ++ rest))
    else machine.fail (machine.unexpected .identifier)
  | .closingName opening =>
    if machine.lookahead.kind = .identifier then
      let closing := machine.lookahead.textOrEmpty
      if options.strictTagNames && opening != closing then
        (machine.take rest).fail (.mismatchedTag opening closing machine.lookahead.position)
      else .moved (machine.take rest)
    else machine.fail (machine.unexpected .identifier)
  | .enter =>
    if machine.depth < options.maxDepth then
      .moved { machine with pending := rest, depth := machine.depth + 1 }
    else machine.fail (.nestingTooDeep options.maxDepth machine.lookahead.position)
  | .leave => .moved { machine with pending := rest, depth := machine.depth - 1 }
  | .phrase phrase =>
    match phrase.expand machine.lookahead.kind with
    | some expansion => .moved { machine with pending := expansion ++ rest }
    | none => machine.fail .unrecognizedStatement

/-- One step.  A machine that waits for nothing more has recognized its phrase. -/
def step (options : Options) (machine : Machine σ) : Step σ :=
  match machine.pending with
  | [] => .halted (.ok ()) machine
  | symbol :: rest => machine.perform options rest symbol

/-! ## The machine halts -/

/-- Holds of the symbols that may be done with while no token is taken. -/
def mayVanish : Symbol → Bool
  | .enter | .leave => true
  | .phrase phrase => match phrase with
    | .tags | .statements | .equalityRest | .relationRest | .sumRest | .productRest
    | .itemsRest => true
    | _ => false
  | _ => false

/-- A bound on the steps that a symbol allows before it takes a token or is done. -/
def weight : Symbol → Nat
  | .phrase phrase => match phrase with
    | .tags | .statements | .directive | .operand => 3
    | .tag | .statement | .conditional | .loop => 2
    | .equalityRest | .relationRest | .sumRest | .productRest | .itemsRest => 2
    | .body | .product => 4
    | .sum => 5
    | .relation => 6
    | .equality => 7
    | .items => 8
  | _ => 1

def slack : List Symbol → Nat
  | [] => 0
  | symbol :: rest => weight symbol + if mayVanish symbol then slack rest else 0

theorem slack_expand {phrase : Phrase} {kind : Kind} {expansion : List Symbol}
    (predicted : phrase.expand kind = some expansion) (rest : List Symbol) :
    slack (expansion ++ rest) < slack (.phrase phrase :: rest) := by
  cases phrase <;> simp only [Phrase.expand] at predicted
  all_goals first
    | (split at predicted <;> cases predicted <;> simp [slack, weight, mayVanish] <;> omega)
    | (cases predicted; simp [slack, weight, mayVanish])

section

variable {σ : Type} [FiniteSource σ]

def ahead (machine : Machine σ) : Nat :=
  FiniteSource.left machine.source + if machine.lookahead.kind = .eof then 0 else 1

theorem ahead_take_lt (machine : Machine σ) (pending : List Symbol)
    (visible : machine.lookahead.kind ≠ .eof) : (machine.take pending).ahead < machine.ahead := by
  have fewer : FiniteSource.left (machine.take pending).source ≤ FiniteSource.left machine.source :=
    FiniteSource.left_next_le machine.source
  unfold ahead
  rw [if_neg visible]
  by_cases ended : (machine.take pending).lookahead.kind = .eof
  · rw [if_pos ended]
    omega
  · have strictly : FiniteSource.left (machine.take pending).source <
        FiniteSource.left machine.source := FiniteSource.left_next_lt machine.source ended
    rw [if_neg ended]
    omega

/-- A step that goes on takes a token, or takes none and lowers the slack. -/
theorem step_descends {options : Options} {machine next : Machine σ}
    (moved : step options machine = .moved next) :
    Prod.Lex (· < ·) (· < ·) (next.ahead, slack next.pending)
      (machine.ahead, slack machine.pending) := by
  obtain ⟨pending, depth, lookahead, source, pulled⟩ := machine
  cases pending with
  | nil => simp [step] at moved
  | cons symbol rest =>
    cases symbol with
    | token kind visible =>
      simp only [step, perform, fail] at moved
      split at moved
      · cases moved
        rename_i same
        exact Prod.Lex.left _ _ (ahead_take_lt _ rest (same ▸ visible))
      · cases moved
    | openingName =>
      simp only [step, perform, fail] at moved
      split at moved
      · cases moved
        rename_i same
        exact Prod.Lex.left _ _ (ahead_take_lt _ _ (same ▸ by decide))
      · cases moved
    | closingName opening =>
      simp only [step, perform, fail] at moved
      split at moved
      · rename_i same
        split at moved
        · cases moved
        · cases moved
          exact Prod.Lex.left _ _ (ahead_take_lt _ rest (same ▸ by decide))
      · cases moved
    | enter =>
      simp only [step, perform, fail] at moved
      split at moved
      · cases moved
        exact Prod.Lex.right _ (by simp [slack, weight, mayVanish])
      · cases moved
    | leave =>
      simp only [step, perform] at moved
      cases moved
      exact Prod.Lex.right _ (by simp [slack, weight, mayVanish])
    | phrase phrase =>
      simp only [step, perform, fail] at moved
      split at moved
      · cases moved
        rename_i expansion predicted
        exact Prod.Lex.right _ (slack_expand predicted rest)
      · cases moved

def run (options : Options) (machine : Machine σ) : Except ParseError Unit × Machine σ :=
  match _moved : step options machine with
  | .halted verdict final => (verdict, final)
  | .moved next => run options next
termination_by (machine.ahead, slack machine.pending)
decreasing_by exact step_descends _moved

theorem run_of_halted {options : Options} {machine final : Machine σ}
    {verdict : Except ParseError Unit} (halted : step options machine = .halted verdict final) :
    run options machine = (verdict, final) := by
  rw [run]
  split
  · rename_i verdict' final' same
    cases halted.symm.trans same
    rfl
  · rename_i next same
    cases halted.symm.trans same

theorem run_of_moved {options : Options} {machine next : Machine σ}
    (moved : step options machine = .moved next) :
    run options machine = run options next := by
  rw [run]
  split
  · rename_i verdict final same
    cases moved.symm.trans same
  · rename_i next' same
    cases moved.symm.trans same
    rfl

end

end Machine

end TemplateRecognizer
