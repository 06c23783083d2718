import Mathlib.Data.Set.Card
import TemplateRecognizer.Recognizer.Machine
import TemplateRecognizer.Token.Stream

/-!
# The depth counts the levels that are open

A machine counts its levels up and down in one place, and nothing in it remembers which levels
these are.  Here a level is told by the step at which it begins: it is open from when it has been
entered until nothing but what was waited for behind it is waited for.  Whatever phrase a machine
is set to, its depth is at every step what it was at the start and one more for each open level,
and it is again what it was when the machine halts, however that comes about.
-/

set_option autoImplicit false

namespace TemplateRecognizer

/-! ## Where levels begin -/

/-- Holds of the phrases that begin a level when a token of kind `ahead` is next: the body of a
conditional or of a loop, and an operand in parentheses or in square brackets. -/
def Phrase.beginsLevel (ahead : Kind) : Phrase → Bool
  | body => true
  | operand => ahead == .leftParens || ahead == .openBracket
  | _ => false

def Symbol.staysLevel : Symbol → Bool
  | .enter | .leave => false
  | _ => true

/-- Only a phrase that begins a level enters one, first of all, and leaves it at its end. -/
theorem Phrase.expand_levels {phrase : Phrase} {ahead : Kind} {expansion : List Symbol}
    (predicted : phrase.expand ahead = some expansion) :
    phrase.beginsLevel ahead = false ∧ (∀ symbol ∈ expansion, symbol.staysLevel = true) ∨
      phrase.beginsLevel ahead = true ∧ ∃ inner, expansion = .enter :: (inner ++ [.leave]) ∧
        ∀ symbol ∈ inner, symbol.staysLevel = true := by
  cases phrase
  case body =>
    cases predicted
    exact .inr ⟨rfl, [.phrase .tag, .phrase .tags], rfl, by simp [Symbol.staysLevel]⟩
  case operand =>
    simp only [expand] at predicted
    split at predicted <;> cases predicted
    · exact .inr ⟨rfl, [.token .leftParens, .phrase .equality, .token .rightParens], rfl,
        by simp [Symbol.staysLevel]⟩
    · exact .inr ⟨rfl, [.token .openBracket, .phrase .items, .token .closeBracket], rfl,
        by simp [Symbol.staysLevel]⟩
    · exact .inl ⟨rfl, by simp [Symbol.staysLevel]⟩
    · exact .inl ⟨rfl, by simp [Symbol.staysLevel]⟩
    · exact .inl ⟨rfl, by simp [Symbol.staysLevel]⟩
    · rename_i noParens noBracket _ _ _
      have noLevel : ¬(ahead == Kind.leftParens || ahead == Kind.openBracket) = true := by
        simpa using ⟨noParens, noBracket⟩
      exact .inl ⟨Bool.eq_false_iff.mpr noLevel, by simp [Symbol.staysLevel]⟩
  all_goals
    refine .inl ⟨rfl, ?_⟩
    simp only [expand] at predicted
    first
      | (split at predicted <;> cases predicted <;> simp [Symbol.staysLevel])
      | (cases predicted; simp [Symbol.staysLevel])

namespace Machine

variable {σ : Type} [TokenSource σ]

/-- What is waited for behind the level that the next step begins, if it begins one. -/
def behindLevel? (machine : Machine σ) : Option (List Symbol) :=
  match machine.pending with
  | .phrase phrase :: behind =>
    if phrase.beginsLevel machine.lookahead.kind then some behind else none
  | _ => none

/-! ## What a step does to the levels -/

/-- `Shifts options machine next` says what a step from `machine` to `next` does to the depth and
to the levels that are waited for. -/
inductive Shifts (options : Options) (machine next : Machine σ) : Prop where
  | within {symbol : Symbol} {expansion rest : List Symbol} :
      machine.behindLevel? = none → machine.pending = symbol :: rest →
        symbol.staysLevel = true → (∀ symbol ∈ expansion, symbol.staysLevel = true) →
          next.pending = expansion ++ rest → next.depth = machine.depth →
            Shifts options machine next
  | begins {symbol : Symbol} {inner behind : List Symbol} :
      machine.behindLevel? = some behind → machine.pending = symbol :: behind →
        symbol.staysLevel = true → (∀ symbol ∈ inner, symbol.staysLevel = true) →
          next.pending = .enter :: (inner ++ .leave :: behind) → next.depth = machine.depth →
            Shifts options machine next
  | enters {rest : List Symbol} :
      machine.pending = .enter :: rest → machine.depth < options.maxDepth →
        next.pending = rest → next.depth = machine.depth + 1 → Shifts options machine next
  | leaves {behind : List Symbol} :
      machine.pending = .leave :: behind → next.pending = behind →
        next.depth = machine.depth - 1 → Shifts options machine next

theorem shifts_of_moved {options : Options} {machine next : Machine σ}
    (moved : step options machine = .moved next) : Shifts options machine next := by
  obtain ⟨pending, depth, lookahead, source, pulled⟩ := machine
  cases pending with
  | nil => cases moved
  | cons symbol rest =>
    cases symbol with
    | token kind visible =>
      simp only [step, perform, fail] at moved
      split at moved <;> cases moved
      exact .within rfl rfl rfl (List.forall_mem_nil _) (List.nil_append rest).symm rfl
    | openingName =>
      simp only [step, perform, fail] at moved
      split at moved <;> cases moved
      exact .within rfl rfl rfl (by simp [Symbol.afterOpeningName, Symbol.staysLevel]) rfl rfl
    | closingName opening =>
      simp only [step, perform, fail] at moved
      split at moved
      · split at moved <;> cases moved
        exact .within rfl rfl rfl (List.forall_mem_nil _) (List.nil_append rest).symm rfl
      · cases moved
    | enter =>
      simp only [step, perform, fail] at moved
      split at moved <;> cases moved
      exact .enters rfl ‹_› rfl rfl
    | leave =>
      simp only [step, perform] at moved
      cases moved
      exact .leaves rfl rfl rfl
    | phrase phrase =>
      simp only [step, perform, fail] at moved
      split at moved <;> cases moved
      rename_i expansion predicted
      rcases Phrase.expand_levels predicted with ⟨noLevel, stays⟩ | ⟨level, inner, rfl, stays⟩
      · exact .within (by simp [behindLevel?, noLevel]) rfl rfl stays rfl rfl
      · exact .begins (by simp [behindLevel?, level]) rfl rfl stays (by simp) rfl

theorem depth_of_halted {options : Options} {machine final : Machine σ}
    {verdict : Except ParseError Unit} (halted : step options machine = .halted verdict final) :
    final.depth = machine.depth - openLevels machine.pending := by
  obtain ⟨pending, depth, lookahead, source, pulled⟩ := machine
  cases pending with
  | nil =>
    cases halted
    rfl
  | cons symbol rest =>
    cases symbol with
    | closingName opening =>
      simp only [step, perform, fail] at halted
      split at halted
      · -- The name has been taken, and what is given up is what was pending behind it.
        split at halted <;> cases halted
        simp [abandon, take, openLevels]
      · cases halted
        rfl
    | leave => cases halted
    | _ =>
      simp only [step, perform, fail] at halted
      split at halted <;> cases halted
      rfl

/-! ## Runs -/

/-- The machine after `count` steps, unless it has halted before. -/
def after? (options : Options) (start : Machine σ) : Nat → Option (Machine σ)
  | 0 => some start
  | count + 1 => match after? options start count with
    | none => none
    | some machine => match step options machine with
      | .moved next => some next
      | .halted _ _ => none

def BeginsAt (options : Options) (start : Machine σ) (first : Nat) (behind : List Symbol) : Prop :=
  ∃ machine, start.after? options first = some machine ∧ machine.behindLevel? = some behind

/-- Says that the level which begins at step `first` of a run is open after `count` steps.  It has
been entered, which is done by the second step, and since it began what was waited for has never
been just what was waited for behind it. -/
def OpenAt (options : Options) (start : Machine σ) (count first : Nat) : Prop :=
  ∃ behind, start.BeginsAt options first behind ∧ first + 2 ≤ count ∧
    ∀ later, first < later → later ≤ count →
      ∀ machine, start.after? options later = some machine → machine.pending ≠ behind

section

variable {options : Options} {start machine next : Machine σ} {first count : Nat}
  {behind pending : List Symbol} {firsts : List Nat}

theorem after?_succ_of_moved (reached : start.after? options count = some machine)
    (moved : step options machine = .moved next) :
    start.after? options (count + 1) = some next := by
  simp only [after?, reached, moved]

theorem exists_moved_of_after? (reached : start.after? options (count + 1) = some next) :
    ∃ machine, start.after? options count = some machine ∧ step options machine = .moved next := by
  rw [after?] at reached
  split at reached
  · cases reached
  · rename_i machine before
    split at reached <;> cases reached
    exact ⟨machine, before, ‹_›⟩

theorem BeginsAt.unique {other : List Symbol} (begins : start.BeginsAt options first behind)
    (another : start.BeginsAt options first other) : behind = other := by
  obtain ⟨machine, reached, here⟩ := begins
  obtain ⟨machine', reached', there⟩ := another
  cases reached.symm.trans reached'
  exact Option.some.inj (here.symm.trans there)

theorem BeginsAt.waits_to_enter (begins : start.BeginsAt options first behind)
    (reached : start.after? options (first + 1) = some next) :
    ∃ rest, next.pending = .enter :: rest := by
  obtain ⟨machine, before, level⟩ := begins
  obtain ⟨machine', before', moved⟩ := exists_moved_of_after? reached
  cases before.symm.trans before'
  cases shifts_of_moved moved with
  | within noLevel _ _ _ _ _ => cases noLevel.symm.trans level
  | begins _ _ _ _ guarded _ => exact ⟨_, guarded⟩
  | enters waiting _ _ _ => simp [behindLevel?, waiting] at level
  | leaves waiting _ _ => simp [behindLevel?, waiting] at level

/-! ### Levels that stay open -/

theorem BeginsAt.openAt (begins : start.BeginsAt options first behind)
    (reached : start.after? options (first + 1) = some machine)
    (reachedNext : start.after? options (first + 2) = some next)
    (waits : machine.pending ≠ behind) (inside : next.pending ≠ behind) :
    start.OpenAt options (first + 2) first := by
  refine ⟨behind, begins, Nat.le_refl _, ?_⟩
  intro later after within other reachedOther
  obtain rfl | rfl : later = first + 1 ∨ later = first + 2 := by omega
  · cases reached.symm.trans reachedOther
    exact waits
  · cases reachedNext.symm.trans reachedOther
    exact inside

theorem OpenAt.succ (isOpen : start.OpenAt options count first)
    (reached : start.after? options (count + 1) = some next)
    (inside : ∀ behind, start.BeginsAt options first behind → next.pending ≠ behind) :
    start.OpenAt options (count + 1) first := by
  obtain ⟨behind, begins, entered, kept⟩ := isOpen
  refine ⟨behind, begins, by omega, ?_⟩
  intro later after within machine reached'
  rcases Nat.lt_or_eq_of_le within with before | rfl
  · exact kept later after (by omega) machine reached'
  · cases reached.symm.trans reached'
    exact inside behind begins

/-- What is open was open before, unless it is entered just now. -/
theorem OpenAt.of_succ (isOpen : start.OpenAt options (count + 1) first)
    (other : first + 1 ≠ count) : start.OpenAt options count first := by
  obtain ⟨behind, begins, entered, kept⟩ := isOpen
  exact ⟨behind, begins, by omega, fun later after within => kept later after (by omega)⟩

theorem OpenAt.succ_ne {symbol : Symbol} {rest : List Symbol}
    (isOpen : start.OpenAt options (count + 1) first)
    (reached : start.after? options count = some machine)
    (waiting : machine.pending = symbol :: rest) (other : symbol ≠ .enter) : first + 1 ≠ count := by
  rintro rfl
  obtain ⟨behind, begins, _, _⟩ := isOpen
  obtain ⟨rest', entering⟩ := begins.waits_to_enter reached
  cases waiting.symm.trans entering
  exact other rfl

theorem OpenAt.pending_ne (isOpen : start.OpenAt options count first)
    (reached : start.after? options count = some machine)
    (begins : start.BeginsAt options first behind) : machine.pending ≠ behind := by
  obtain ⟨behind', begins', entered, kept⟩ := isOpen
  rw [begins.unique begins']
  exact kept count (by omega) (Nat.le_refl _) machine reached

/-! ### What is waited for -/

/-- `Opened options start pending firsts` says that `pending` leaves the levels that began at the
steps `firsts`, innermost first, and that behind each of them is what its beginning found there. -/
inductive Opened (options : Options) (start : Machine σ) : List Symbol → List Nat → Prop where
  | nil : Opened options start [] []
  | stays {symbol : Symbol} {rest : List Symbol} {firsts : List Nat} :
      symbol.staysLevel = true → Opened options start rest firsts →
        Opened options start (symbol :: rest) firsts
  | leave {first : Nat} {behind : List Symbol} {firsts : List Nat} :
      start.BeginsAt options first behind → Opened options start behind firsts →
        Opened options start (.leave :: behind) (first :: firsts)

/-- As `Opened`, where another level may have begun at the last step and wait to be entered. -/
inductive Stands (options : Options) (start : Machine σ) (count : Nat) :
    List Symbol → List Nat → Prop where
  | settled {pending : List Symbol} {firsts : List Nat} :
      Opened options start pending firsts → Stands options start count pending firsts
  | guard {first : Nat} {inner behind : List Symbol} {firsts : List Nat} :
      count = first + 1 → start.BeginsAt options first behind →
        (∀ symbol ∈ inner, symbol.staysLevel = true) → Opened options start behind firsts →
          Stands options start count (.enter :: (inner ++ .leave :: behind)) firsts

theorem Opened.append {front : List Symbol} (opened : Opened options start pending firsts)
    (stays : ∀ symbol ∈ front, symbol.staysLevel = true) :
    Opened options start (front ++ pending) firsts := by
  induction front with
  | nil => exact opened
  | cons symbol front inductionHypothesis =>
    rw [List.forall_mem_cons] at stays
    exact .stays stays.1 (inductionHypothesis stays.2)

theorem Opened.length_lt (opened : Opened options start pending firsts) (member : first ∈ firsts)
    (begins : start.BeginsAt options first behind) : behind.length < pending.length := by
  induction opened with
  | nil => cases member
  | stays _ _ inductionHypothesis => exact Nat.lt_succ_of_lt (inductionHypothesis member)
  | leave begins' _ inductionHypothesis =>
    rcases List.mem_cons.mp member with rfl | further
    · rw [begins.unique begins', List.length_cons]
      exact Nat.lt_succ_self _
    · exact Nat.lt_succ_of_lt (inductionHypothesis further)

theorem Opened.pending_ne (opened : Opened options start pending firsts) (front : List Symbol)
    (member : first ∈ firsts) (begins : start.BeginsAt options first behind) :
    front ++ pending ≠ behind := by
  rintro rfl
  have shorter := opened.length_lt member begins
  rw [List.length_append] at shorter
  omega

theorem Opened.count_eq (opened : Opened options start pending firsts) :
    pending.count .leave = firsts.length ∧ pending.count .enter = 0 := by
  induction opened with
  | nil => exact ⟨rfl, rfl⟩
  | @stays symbol rest firsts stays _ inductionHypothesis =>
    have noLeave : symbol ≠ .leave := by
      rintro rfl
      cases stays
    have noEnter : symbol ≠ .enter := by
      rintro rfl
      cases stays
    rwa [List.count_cons_of_ne noLeave, List.count_cons_of_ne noEnter]
  | leave _ _ inductionHypothesis => simpa using inductionHypothesis

theorem Stands.openLevels_eq (stands : Stands options start count pending firsts) :
    openLevels pending = firsts.length := by
  cases stands with
  | settled opened =>
    obtain ⟨leaves, enters⟩ := opened.count_eq
    rw [openLevels, leaves, enters, Nat.sub_zero]
  | guard _ begins stays opened =>
    -- The level that waits to be entered is left once, and so it makes no difference.
    obtain ⟨leaves, enters⟩ := ((Opened.leave begins opened).append stays).count_eq
    rw [openLevels, List.count_cons_of_ne (by decide), leaves, List.count_cons_self, enters,
      List.length_cons]
    omega

/-! ### The depth -/

/-- Says that the levels which are open after `count` steps began at the steps `firsts`, and that
the depth counts them. -/
structure Accounted (options : Options) (start : Machine σ) (count : Nat) (machine : Machine σ)
    (firsts : List Nat) : Prop where
  stands : Stands options start count machine.pending firsts
  isOpen : ∀ first, first ∈ firsts ↔ start.OpenAt options count first
  distinct : firsts.Nodup
  depth : machine.depth = start.depth + firsts.length
  within : machine.depth ≤ options.maxDepth

theorem accounted_start (waiting : ∀ symbol ∈ start.pending, symbol.staysLevel = true)
    (within : start.depth ≤ options.maxDepth) : Accounted options start 0 start [] where
  stands := by
    have nothing : Opened options start [] [] := .nil
    have opened := nothing.append waiting
    rw [List.append_nil] at opened
    exact .settled opened
  isOpen first := by
    constructor
    · intro member
      cases member
    · rintro ⟨_, _, entered, _⟩
      omega
  distinct := .nil
  depth := rfl
  within := within

theorem Stands.opened_of_stays {symbol : Symbol} {rest : List Symbol}
    (stands : Stands options start count (symbol :: rest) firsts)
    (stays : symbol.staysLevel = true) : Opened options start rest firsts := by
  cases stands with
  | guard _ _ _ _ => cases stays
  | settled opened =>
    cases opened with
    | leave _ _ => cases stays
    | stays _ opened => exact opened

/-- A step at which no level is entered or left keeps the same levels open. -/
theorem Accounted.keep {symbol : Symbol} {rest front : List Symbol}
    (accounted : Accounted options start count machine firsts)
    (reached : start.after? options count = some machine)
    (reachedNext : start.after? options (count + 1) = some next)
    (waiting : machine.pending = symbol :: rest) (stays : symbol.staysLevel = true)
    (waitingNext : next.pending = front ++ rest)
    (stands : Stands options start (count + 1) next.pending firsts)
    (same : next.depth = machine.depth) : Accounted options start (count + 1) next firsts where
  stands := stands
  isOpen first := by
    have opened := (waiting ▸ accounted.stands).opened_of_stays stays
    have noEnter : symbol ≠ .enter := by
      rintro rfl
      cases stays
    constructor
    · intro member
      refine ((accounted.isOpen first).mp member).succ reachedNext ?_
      intro behind begins
      rw [waitingNext]
      exact opened.pending_ne front member begins
    · intro isOpen
      exact (accounted.isOpen first).mpr (isOpen.of_succ (isOpen.succ_ne reached waiting noEnter))
  distinct := accounted.distinct
  depth := same.trans accounted.depth
  within := same ▸ accounted.within

theorem Accounted.enter {rest : List Symbol}
    (accounted : Accounted options start count machine firsts)
    (reached : start.after? options count = some machine)
    (reachedNext : start.after? options (count + 1) = some next)
    (waiting : machine.pending = .enter :: rest) (shallow : machine.depth < options.maxDepth)
    (waitingNext : next.pending = rest) (deeper : next.depth = machine.depth + 1) :
    ∃ first, Accounted options start (count + 1) next (first :: firsts) := by
  have stands := accounted.stands
  rw [waiting] at stands
  cases stands with
  | settled opened =>
    cases opened with
    | stays impossible _ => cases impossible
  | @guard last inner behind _ place begins stays opened =>
    subst place
    have inside := (Opened.leave begins opened).append stays
    rw [← waitingNext] at inside
    refine ⟨last, .settled inside, ?_, ?_, ?_, ?_⟩
    · intro first
      constructor
      · intro member
        rcases List.mem_cons.mp member with rfl | further
        · refine begins.openAt reached reachedNext ?_ (inside.pending_ne [] member begins)
          rw [waiting, ← waitingNext]
          exact inside.pending_ne [.enter] member begins
        · exact ((accounted.isOpen first).mp further).succ reachedNext
            fun behind begins => inside.pending_ne [] member begins
      · intro isOpen
        by_cases same : first = last
        · rw [same]
          exact List.mem_cons_self
        · exact List.mem_cons_of_mem _
            ((accounted.isOpen first).mpr (isOpen.of_succ (by omega)))
    · refine List.nodup_cons.mpr ⟨?_, accounted.distinct⟩
      intro member
      obtain ⟨_, _, entered, _⟩ := (accounted.isOpen last).mp member
      omega
    · rw [deeper, accounted.depth, List.length_cons, Nat.add_assoc]
    · rw [deeper]
      exact shallow

theorem Accounted.leave (accounted : Accounted options start count machine firsts)
    (reached : start.after? options count = some machine)
    (reachedNext : start.after? options (count + 1) = some next)
    (waiting : machine.pending = .leave :: behind) (waitingNext : next.pending = behind)
    (shallower : next.depth = machine.depth - 1) :
    ∃ last others, firsts = last :: others ∧ Accounted options start (count + 1) next others := by
  obtain ⟨stands, isOpen, distinct, depth, within⟩ := accounted
  rw [waiting] at stands
  cases stands with
  | settled opened =>
    cases opened with
    | stays impossible _ => cases impossible
    | @leave last _ others begins opened =>
      refine ⟨last, others, rfl, .settled (waitingNext ▸ opened), ?_,
        (List.nodup_cons.mp distinct).2, ?_, ?_⟩
      · intro first
        constructor
        · intro member
          refine ((isOpen first).mp (List.mem_cons_of_mem _ member)).succ reachedNext ?_
          intro behind' begins'
          rw [waitingNext]
          exact opened.pending_ne [] member begins'
        · intro open'
          have earlier := open'.succ_ne reached waiting (by decide)
          have member := (isOpen first).mpr (open'.of_succ earlier)
          rcases List.mem_cons.mp member with rfl | further
          · exact absurd waitingNext (open'.pending_ne reachedNext begins)
          · exact further
      · rw [shallower, depth, List.length_cons]
        omega
      · omega

theorem Accounted.succ (accounted : Accounted options start count machine firsts)
    (reached : start.after? options count = some machine)
    (moved : step options machine = .moved next) :
    ∃ firsts, Accounted options start (count + 1) next firsts := by
  have reachedNext := after?_succ_of_moved reached moved
  cases shifts_of_moved moved with
  | within _ waiting stays expanded waitingNext same =>
    have opened := (waiting ▸ accounted.stands).opened_of_stays stays
    have stands : Stands options start (count + 1) _ firsts := .settled (opened.append expanded)
    rw [← waitingNext] at stands
    exact ⟨firsts, accounted.keep reached reachedNext waiting stays waitingNext stands same⟩
  | @begins symbol inner behind level waiting stays expanded waitingNext same =>
    have opened := (waiting ▸ accounted.stands).opened_of_stays stays
    have stands := Stands.guard rfl ⟨machine, reached, level⟩ expanded opened
    rw [← waitingNext] at stands
    have parted : next.pending = (.enter :: (inner ++ [.leave])) ++ behind := by
      rw [waitingNext]
      simp
    exact ⟨firsts, accounted.keep reached reachedNext waiting stays parted stands same⟩
  | enters waiting shallow waitingNext deeper =>
    obtain ⟨first, further⟩ :=
      accounted.enter reached reachedNext waiting shallow waitingNext deeper
    exact ⟨_, further⟩
  | leaves waiting waitingNext shallower =>
    obtain ⟨_, others, _, further⟩ :=
      accounted.leave reached reachedNext waiting waitingNext shallower
    exact ⟨others, further⟩

theorem exists_accounted (waiting : ∀ symbol ∈ start.pending, symbol.staysLevel = true)
    (within : start.depth ≤ options.maxDepth)
    (reached : start.after? options count = some machine) :
    ∃ firsts, Accounted options start count machine firsts := by
  induction count generalizing machine with
  | zero =>
    cases reached
    exact ⟨[], accounted_start waiting within⟩
  | succ count inductionHypothesis =>
    obtain ⟨before, reachedBefore, moved⟩ := exists_moved_of_after? reached
    obtain ⟨firsts, accounted⟩ := inductionHypothesis reachedBefore
    exact accounted.succ reachedBefore moved

theorem Accounted.depth_of_halted {verdict : Except ParseError Unit}
    (accounted : Accounted options start count machine firsts)
    (halted : step options machine = .halted verdict next) : next.depth = start.depth := by
  rw [Machine.depth_of_halted halted, accounted.stands.openLevels_eq, accounted.depth,
    Nat.add_sub_cancel]

theorem Accounted.ncard_eq (accounted : Accounted options start count machine firsts) :
    {first | start.OpenAt options count first}.ncard = firsts.length := by
  have same : {first | start.OpenAt options count first} = firsts.toFinset := by
    ext first
    rw [List.coe_toFinset]
    exact (accounted.isOpen first).symm
  rw [same, Set.ncard_coe_finset, List.toFinset_card_of_nodup accounted.distinct]

/-! ### Runs over a finite source -/

theorem after?_of_moved (moved : step options start = .moved next) (count : Nat) :
    start.after? options (count + 1) = next.after? options count := by
  induction count with
  | zero => exact after?_succ_of_moved rfl moved
  | succ count inductionHypothesis => rw [after?, inductionHypothesis, after?]

theorem exists_halted_run {τ : Type} [FiniteSource τ] (options : Options) (start : Machine τ) :
    ∃ count machine, start.after? options count = some machine ∧
      step options machine = .halted (start.run options).1 (start.run options).2 := by
  refine run.induct options (fun start =>
    ∃ count machine, start.after? options count = some machine ∧
      step options machine = .halted (start.run options).1 (start.run options).2) ?_ ?_ start
  · intro machine verdict final halted
    refine ⟨0, machine, rfl, ?_⟩
    rw [run_of_halted halted]
    exact halted
  · intro machine next moved inductionHypothesis
    obtain ⟨count, last, reached, halted⟩ := inductionHypothesis
    refine ⟨count + 1, last, (after?_of_moved moved count).trans reached, ?_⟩
    rw [run_of_moved moved]
    exact halted

end

/-- However a run over a finite source ends, it ends at the depth where it started. -/
theorem depth_run {τ : Type} [FiniteSource τ] (options : Options) (start : Machine τ)
    (waiting : ∀ symbol ∈ start.pending, symbol.staysLevel = true)
    (within : start.depth ≤ options.maxDepth) :
    (start.run options).2.depth = start.depth := by
  obtain ⟨count, machine, reached, halted⟩ := exists_halted_run options start
  obtain ⟨firsts, accounted⟩ := exists_accounted waiting within reached
  exact accounted.depth_of_halted halted

end Machine

/-- The depth counts the levels that are open, on every path.  Let a machine be set to any phrase
at a depth within the limit.  At each of its steps the depth is that of the start and one more for
each open level, and it is within the limit.  A step adds one only below the limit, and takes one
away only above the depth of the start.  When the machine halts, whatever its verdict, it leaves as
many levels as are open, and so it ends at the depth of the start. -/
theorem depth_counts_open_levels {σ : Type} [TokenSource σ] (options : Options) (phrase : Phrase)
    (lookahead : Token) (source : σ) (pulled : Nat) {depth : Nat}
    (within : depth ≤ options.maxDepth) :
    let start : Machine σ := ⟨[.phrase phrase], depth, lookahead, source, pulled⟩
    ∀ count machine, start.after? options count = some machine →
      let opened := {first | start.OpenAt options count first}.ncard
      machine.depth = depth + opened ∧ machine.depth ≤ options.maxDepth ∧
      (∀ next, Machine.step options machine = .moved next →
        next.depth = machine.depth ∨
          machine.depth + 1 ≤ options.maxDepth ∧ next.depth = machine.depth + 1 ∨
            depth < machine.depth ∧ next.depth = machine.depth - 1) ∧
      ∀ verdict final, Machine.step options machine = .halted verdict final →
        openLevels machine.pending = opened ∧ final.depth = depth := by
  intro start count machine reached opened
  obtain ⟨firsts, accounted⟩ :=
    Machine.exists_accounted (by simp [start, Symbol.staysLevel]) within reached
  have counted : opened = firsts.length := accounted.ncard_eq
  refine ⟨?_, accounted.within, ?_, ?_⟩
  · rw [counted]
    exact accounted.depth
  · intro next moved
    cases Machine.shifts_of_moved moved with
    | within _ _ _ _ _ same => exact .inl same
    | begins _ _ _ _ _ same => exact .inl same
    | enters _ shallow _ deeper => exact .inr (.inl ⟨shallow, deeper⟩)
    | leaves waiting waitingNext shallower =>
      obtain ⟨_, _, rfl, _⟩ := accounted.leave reached
        (Machine.after?_succ_of_moved reached moved) waiting waitingNext shallower
      have above : depth < machine.depth := by
        rw [accounted.depth, List.length_cons]
        exact Nat.lt_add_of_pos_right (Nat.succ_pos _)
      exact .inr (.inr ⟨above, shallower⟩)
  · intro verdict final halted
    refine ⟨?_, accounted.depth_of_halted halted⟩
    rw [counted]
    exact accounted.stands.openLevels_eq

/-- A list inside of parentheses is refused by the limit, and the level of the parentheses is left
again, but not that of the list. -/
theorem depth_counts_open_levels_refused_list :
    let token := fun kind column => Token.mk kind none ⟨1, column⟩
    let options : Options := ⟨true, false, 2⟩
    let source := TokenStream.ofList [token .identifier 2, token .plus 3, token .openBracket 4]
    let start : Machine TokenStream := ⟨[.phrase .operand], 1, token .leftParens 1, source, 7⟩
    1 ≤ options.maxDepth ∧ ∃ machine final,
      start.after? options 14 = some machine ∧ machine.depth = 2 ∧
        {first | start.OpenAt options 14 first}.ncard = 1 ∧
          Machine.step options machine = .halted (.error (.nestingTooDeep 2 ⟨1, 4⟩)) final ∧
            final.depth = 1 := by
  intro token options source start
  have within : 1 ≤ options.maxDepth := by decide
  have reached : ∃ machine, start.after? options 14 = some machine ∧ machine.depth = 2 ∧
      ∃ final, Machine.step options machine = .halted (.error (.nestingTooDeep 2 ⟨1, 4⟩)) final :=
    ⟨_, rfl, rfl, _, rfl⟩
  obtain ⟨machine, reached, deep, final, halted⟩ := reached
  obtain ⟨depth, _, _, halts⟩ := depth_counts_open_levels options .operand (token .leftParens 1)
    source 7 within 14 machine reached
  exact ⟨within, machine, final, reached, deep, (Nat.add_left_cancel (deep.symm.trans depth)).symm,
    halted, (halts _ _ halted).2⟩

end TemplateRecognizer
