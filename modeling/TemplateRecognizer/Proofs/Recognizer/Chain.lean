import TemplateRecognizer.Proofs.Grammar.Chain
import TemplateRecognizer.Proofs.Recognizer.Reading

/-!
# Chains are read operand by operand

Behind an operand of a chain a recognition waits for the rests of all four levels of operators,
but for that of a relation whose second operand it has read.  Every operator but a second
relational one leads from there to the next operand and to the same rests again.  So a chain is
read in one pass, whatever its operators, and a row of operands that is no chain is read up to
the first relational operator that crowds another.
-/

set_option autoImplicit false

namespace TemplateRecognizer

def restsBehind : Bool → List Symbol
  | true => [Phrase.productRest, Phrase.sumRest, Phrase.equalityRest]
  | false => [Phrase.productRest, Phrase.sumRest, Phrase.relationRest, Phrase.equalityRest]

section

variable {options : Options} {tokens : Nat → Token} {taken behind depth : Nat}
  {rest : List Symbol} {verdict : Except ParseError Unit} {final : Stage} {related : Bool}

theorem Course.begin_chain
    (course : Course options tokens ⟨taken, .phrase .operand :: restsBehind false ++ rest, depth⟩
      verdict final) :
    Course options tokens ⟨taken, .phrase .equality :: rest, depth⟩ verdict final :=
  .advances (.phrase rfl) (.advances (.phrase rfl) (.advances (.phrase rfl)
    (.advances (.phrase rfl) course)))

/-- Products, sums and a first relation end before every operator that does not belong to
them. -/
theorem Course.end_rests (arithmetic : (tokens behind).kind.isArithmetic = false)
    (relational : (tokens behind).kind.isRelational = true → related = true)
    (course : Course options tokens ⟨behind, .phrase .equalityRest :: rest, depth⟩ verdict final) :
    Course options tokens ⟨behind, restsBehind related ++ rest, depth⟩ verdict final := by
  have product : Phrase.productRest.expand (tokens behind).kind = some [] := by
    revert arithmetic
    generalize (tokens behind).kind = ahead
    cases ahead <;> simp [Phrase.expand, Kind.isArithmetic]
  have sum : Phrase.sumRest.expand (tokens behind).kind = some [] := by
    revert arithmetic
    generalize (tokens behind).kind = ahead
    cases ahead <;> simp [Phrase.expand, Kind.isArithmetic]
  cases related with
  | true => exact .advances (.phrase product) (.advances (.phrase sum) course)
  | false =>
    refine .advances (.phrase product) (.advances (.phrase sum) (Course.end_relation ?_ course))
    constructor
    · intro same
      cases relational (same ▸ rfl)
    · intro same
      cases relational (same ▸ rfl)

theorem Course.next_operand {operator : Kind} (joins : operator.isOperator = true)
    (free : operator.isRelational = true → related = false)
    (here : (tokens taken).kind = operator)
    (course : Course options tokens
      ⟨taken + 1, .phrase .operand :: restsBehind (relatedBehind related operator) ++ rest, depth⟩
      verdict final) :
    Course options tokens ⟨taken, restsBehind related ++ rest, depth⟩ verdict final := by
  have expands (phrase : Phrase) : phrase.expand (tokens taken).kind = phrase.expand operator := by
    rw [here]
  cases operator
  case asterisk | slash =>
    cases related <;> exact .advances (.phrase (expands _)) (.advances (.token here) course)
  case plus | hyphen =>
    cases related <;> exact .advances (.phrase (expands _)) (.advances (.phrase (expands _))
      (.advances (.token here) (.advances (.phrase rfl) course)))
  case lessThan | greaterThan =>
    cases free rfl
    exact .advances (.phrase (expands _)) (.advances (.phrase (expands _))
      (.advances (.phrase (expands _)) (.advances (.token here) (.advances (.phrase rfl)
        (.advances (.phrase rfl) course)))))
  case equal | notEqual =>
    apply Course.end_rests
    · rw [here]
      rfl
    · rw [here]
      intro relational
      cases relational
    · simp only [relatedBehind, Kind.isRelational, Kind.isEquality, Bool.not_true, Bool.and_false,
        Bool.or_false] at course
      exact .advances (.phrase (expands _)) (.advances (.token here) (.advances (.phrase rfl)
        (.advances (.phrase rfl) (.advances (.phrase rfl) course))))
  all_goals cases joins

def ReadsOperand (options : Options) (tokens : Nat → Token) (depth : Nat) (kinds : List Kind) :
    Prop :=
  ∃ levels, Category.operand.Reads options tokens levels kinds ∧ depth + levels ≤ options.maxDepth

theorem ReadsOperand.course {kinds : List Kind} (reads : ReadsOperand options tokens depth kinds)
    (here : KindsAt tokens taken kinds)
    (course : Course options tokens ⟨taken + kinds.length, rest, depth⟩ verdict final) :
    Course options tokens ⟨taken, .phrase .operand :: rest, depth⟩ verdict final := by
  obtain ⟨levels, reads, shallow⟩ := reads
  exact reads here rfl (by simp [Category.binding]) shallow course

/-- The operators of a row lead from each of its operands to the next, as long as none of them
crowds another. -/
theorem Course.further_operands {further : List (Kind × List Kind)}
    (joins : ∀ pair ∈ further, pair.1.isOperator = true)
    (operands : ∀ pair ∈ further, ReadsOperand options tokens depth pair.2)
    (free : ∀ (before : List Kind) (operator : Kind) (behind : List Kind),
      further.map Prod.fst = before ++ operator :: behind →
        operator.isRelational = true → before.foldl relatedBehind related = false)
    (here : KindsAt tokens taken (further.flatMap fun pair => pair.1 :: pair.2))
    (place : behind = taken + (further.flatMap fun pair => pair.1 :: pair.2).length)
    (course : Course options tokens
      ⟨behind, restsBehind ((further.map Prod.fst).foldl relatedBehind related) ++ rest, depth⟩
      verdict final) :
    Course options tokens ⟨taken, restsBehind related ++ rest, depth⟩ verdict final := by
  -- What has been read of the row is told by `related` alone, and so it varies with the place.
  induction further generalizing taken related with
  | nil =>
    subst place
    exact course
  | cons pair further inductionHypothesis =>
    obtain ⟨operator, operand⟩ := pair
    rw [List.forall_mem_cons] at joins operands
    rw [List.flatMap_cons, List.cons_append, kindsAt_cons, kindsAt_append] at here
    obtain ⟨same, hereOperand, hereFurther⟩ := here
    rw [List.flatMap_cons, List.cons_append, List.length_cons, List.length_append] at place
    apply Course.next_operand joins.1 (free [] operator _ rfl) same
    apply operands.1.course hereOperand
    refine inductionHypothesis joins.2 operands.2 ?_ hereFurther (by omega) course
    intro before operator' behind' split relational
    refine free (operator :: before) operator' behind' ?_ relational
    rw [List.map_cons, split, List.cons_append]

/-- A chain is read up to a token that is no operator, or that crowds an operator of it. -/
theorem Course.chain {first : List Kind} {further : List (Kind × List Kind)}
    (operand : ReadsOperand options tokens depth first)
    (joins : ∀ pair ∈ further, pair.1.isOperator = true)
    (operands : ∀ pair ∈ further, ReadsOperand options tokens depth pair.2)
    (separated : Separated (further.map Prod.fst))
    (here : KindsAt tokens taken (chainOf first further))
    (place : behind = taken + (chainOf first further).length)
    (arithmetic : (tokens behind).kind.isArithmetic = false)
    (relational : (tokens behind).kind.isRelational = true → Related (further.map Prod.fst))
    (course : Course options tokens ⟨behind, .phrase .equalityRest :: rest, depth⟩ verdict final) :
    Course options tokens ⟨taken, .phrase .equality :: rest, depth⟩ verdict final := by
  rw [chainOf, kindsAt_append] at here
  rw [chainOf, List.length_append, ← Nat.add_assoc] at place
  have behindFirst : Course options tokens
      ⟨taken + first.length, restsBehind false ++ rest, depth⟩ verdict final := by
    apply Course.further_operands joins operands _ here.2 place
    · apply Course.end_rests arithmetic _ course
      rwa [related_iff] at relational
    · intro before operator behind' split holds
      rw [← Bool.not_eq_true, ← related_iff]
      exact separated.not_related split holds
  exact Course.begin_chain (operand.course here.1 behindFirst)

end

/-! ## Every flat expression is read -/

def Part.category : Part → Category
  | operand => .operand
  | chain => .equality
  | items => .items

theorem mem_binding_equality (kind : Kind) :
    kind ∈ Category.equality.binding ↔ kind.isRelational = true ∨ kind.isArithmetic = true := by
  cases kind <;> decide

theorem mem_extending_equality (kind : Kind) :
    kind ∈ Category.equality.extending ↔ kind.isEquality = true := by
  cases kind <;> decide

theorem Kind.relational_only {kind : Kind} (relational : kind.isRelational = true) :
    kind.isEquality = false ∧ kind.isArithmetic = false := by
  cases kind <;> first | exact ⟨rfl, rfl⟩ | cases relational

theorem Flat.reads {options : Options} {tokens : Nat → Token} {part : Part} {levels : Nat}
    {kinds : List Kind} (flat : Flat part levels kinds) :
    part.category.Reads options tokens levels kinds := by
  induction flat with
  | token kind =>
    rcases kind with rfl | rfl | rfl | rfl
    · exact Category.Reads.oneToken rfl
    · exact Category.Reads.oneToken rfl
    · exact Category.Reads.oneToken rfl
    · exact Category.Reads.oneToken rfl
  | parentheses _ chain => exact chain.enclosed rfl rfl (by decide)
  | list _ items => exact items.enclosed rfl rfl (by decide)
  | chain _ joins _ separated operand operands =>
    -- No relational operator follows an equality that is read as a part, crowding or not.
    intro taken depth behind rest verdict final here place free shallow course
    rw [Part.category, mem_binding_equality, not_or, Bool.not_eq_true, Bool.not_eq_true] at free
    apply Course.chain ⟨_, operand, shallow⟩ joins (fun pair member => ⟨_, operands pair member,
      shallow⟩) separated here place free.2 _ course
    intro relational
    cases free.1.symm.trans relational
  | oneItem _ chain => exact chain.first rfl (fun _ => rfl) rfl rfl (by decide)
  | anotherItem _ _ items chain =>
    exact items.operator rfl rfl rfl (by decide) (by decide) chain

theorem OperandFits.reads {options : Options} {tokens : Nat → Token} {depth : Nat}
    {kinds : List Kind} (fits : OperandFits options.maxDepth depth kinds) :
    ReadsOperand options tokens depth kinds := by
  obtain ⟨levels, flat, shallow⟩ := fits
  exact ⟨levels, flat.reads, shallow⟩

/-! ## What an equality takes -/

section

variable {σ : Type} [FiniteSource σ] {options : Options} {source : σ} {taken depth count : Nat}
  {phrase : Phrase}

/-- `phrase.Takes options source taken depth count` says that a phrase which is waited for behind
`taken` tokens, with `depth` levels open, is recognized in just the next `count` tokens, whatever
is waited for behind it. -/
def Phrase.Takes (options : Options) (source : σ) (taken depth count : Nat) (phrase : Phrase) :
    Prop :=
  Machine.run options (Stage.machine source ⟨taken, [.phrase phrase], depth⟩) =
      (.ok (), Stage.machine source ⟨taken + count, [], depth⟩) ∧
    ∀ rest, Machine.run options (Stage.machine source ⟨taken, .phrase phrase :: rest, depth⟩) =
      Machine.run options (Stage.machine source ⟨taken + count, rest, depth⟩)

theorem Phrase.Takes.of_courses
    (leads : ∀ {rest : List Symbol} {verdict : Except ParseError Unit} {final : Stage},
      Course options (TokenSource.token source) ⟨taken + count, rest, depth⟩ verdict final →
        Course options (TokenSource.token source) ⟨taken, .phrase phrase :: rest, depth⟩ verdict
          final) :
    phrase.Takes options source taken depth count := by
  refine ⟨(leads (.halts .done)).run_machine, ?_⟩
  intro rest
  obtain ⟨verdict, final, course⟩ :=
    Course.exists_of_source options source ⟨taken + count, rest, depth⟩
  rw [course.run_machine, (leads course).run_machine]

theorem equality_takes {first : List Kind} {further : List (Kind × List Kind)}
    (operand : OperandFits options.maxDepth depth first)
    (joins : ∀ pair ∈ further, pair.1.isOperator = true)
    (operands : ∀ pair ∈ further, OperandFits options.maxDepth depth pair.2)
    (separated : Separated (further.map Prod.fst))
    (here : KindsAt (TokenSource.token source) taken (chainOf first further))
    {ahead : Kind}
    (behind : (TokenSource.token source (taken + (chainOf first further).length)).kind = ahead)
    (equality : ahead.isEquality = false) (arithmetic : ahead.isArithmetic = false)
    (relational : ahead.isRelational = true → Related (further.map Prod.fst)) :
    Phrase.equality.Takes options source taken depth (chainOf first further).length := by
  subst behind
  apply Phrase.Takes.of_courses
  intro rest verdict final course
  rw [← Bool.not_eq_true, ← mem_extending_equality] at equality
  exact Course.chain operand.reads joins (fun pair member => (operands pair member).reads)
    separated here rfl arithmetic relational (Course.end_repetition equality course)

end

/-- Operators are chained without limit, but for relational ones.  Let a row of operands be
joined by any of the eight operators, and let a token that is no operator follow.  If any two
relational operators have an equality operator between them, an equality takes the whole row.
Otherwise it takes the tokens before the first relational operator that lacks one, and this
operator is the lookahead then. -/
theorem equality_takes_chain {σ : Type} [FiniteSource σ] (options : Options) (source : σ)
    {taken depth : Nat} {first : List Kind} {further : List (Kind × List Kind)}
    (operand : OperandFits options.maxDepth depth first)
    (joins : ∀ pair ∈ further, pair.1.isOperator = true)
    (operands : ∀ pair ∈ further, OperandFits options.maxDepth depth pair.2)
    (here : KindsAt (TokenSource.token source) taken (chainOf first further))
    (ended : (TokenSource.token source
      (taken + (chainOf first further).length)).kind.isOperator = false) :
    let operators := further.map Prod.fst
    (Separated operators →
      Phrase.equality.Takes options source taken depth (chainOf first further).length) ∧
    (¬ Separated operators →
      ∃ index, CrowdedAt operators index ∧ (∀ earlier < index, ¬ CrowdedAt operators earlier) ∧
        let front := chainOf first (further.take index)
        Phrase.equality.Takes options source taken depth front.length ∧
          operators[index]? = some (TokenSource.token source (taken + front.length)).kind) := by
  intro operators
  refine ⟨?_, ?_⟩
  · intro separated
    simp only [Kind.isOperator, Bool.or_eq_false_iff] at ended
    obtain ⟨⟨equality, relational⟩, arithmetic⟩ := ended
    apply equality_takes operand joins operands separated here rfl equality arithmetic
    intro holds
    cases relational.symm.trans holds
  · intro crowded
    obtain ⟨index, found, least, separated⟩ := exists_first_crowded crowded
    obtain ⟨operator, operand', back, split, at_index, relational, related⟩ := found.exists_split
    rw [split, chainOf_append, kindsAt_append] at here
    obtain ⟨hereFront, same, _⟩ := here
    rw [← List.map_take] at separated
    obtain ⟨equality, arithmetic⟩ := Kind.relational_only relational
    refine ⟨index, found, least, ?_, ?_⟩
    · apply equality_takes operand _ _ separated hereFront same equality arithmetic
        (fun _ => related)
      · exact fun pair member => joins pair (List.mem_of_mem_take member)
      · exact fun pair member => operands pair (List.mem_of_mem_take member)
    · rw [same]
      exact at_index

/-- With one level left and inside of it, a row is taken up to its third relational operator,
the second one being behind an equality operator. -/
theorem equality_takes_chain_third_relation :
    let row : List Kind := [.identifier, .lessThan, .leftParens, .identifier, .plus, .intConstant,
      .rightParens, .equal, .openBracket, .identifier, .closeBracket, .greaterThan, .identifier,
      .asterisk, .identifier]
    let source := TokenStream.ofList
      ((.openBrace :: row ++ [Kind.lessThan, .floatConstant, .closeBrace]).map
        fun kind => ⟨kind, none, .start⟩)
    ¬ Separated [.lessThan, .equal, .greaterThan, .asterisk, .lessThan] ∧
      Phrase.equality.Takes ⟨false, false, 2⟩ source 1 1 row.length ∧
        (TokenSource.token source (1 + row.length)).kind = .lessThan := by
  intro row source
  let further : List (Kind × List Kind) := [
    (.lessThan, [.leftParens, .identifier, .plus, .intConstant, .rightParens]),
    (.equal, [.openBracket, .identifier, .closeBracket]), (.greaterThan, [.identifier]),
    (.asterisk, [.identifier]), (.lessThan, [.floatConstant])]
  have sum : Flat .chain 0 (chainOf [.identifier] [(.plus, [.intConstant])]) :=
    .chain (.token (.inl rfl)) (by decide) (by simp [Flat.token]) (by decide)
  have item : Flat .chain 0 (chainOf [.identifier] []) :=
    .chain (.token (.inl rfl)) (by simp) (by simp) (by decide)
  have name : OperandFits 2 1 [.identifier] := ⟨0, .token (.inl rfl), by decide⟩
  have operands : ∀ pair ∈ further, OperandFits 2 1 pair.2 := by
    simp only [further, List.forall_mem_cons]
    refine ⟨?_, ?_, name, name, ?_, by simp⟩
    · exact ⟨1, .parentheses sum, by decide⟩
    · exact ⟨1, .list (.oneItem item), by decide⟩
    · exact ⟨0, .token (by simp), by decide⟩
  have crowded : ¬ Separated (further.map Prod.fst) := by decide
  have here : KindsAt (TokenSource.token source) 1 (chainOf [.identifier] further) :=
    (kindsAt_upcoming source 18).2
  obtain ⟨index, found, least, takes, behind⟩ :=
    (equality_takes_chain ⟨false, false, 2⟩ source name (by decide) operands here rfl).2 crowded
  have fifth : index = 4 := by
    rcases Nat.lt_trichotomy index 4 with before | same | later
    · have none : ∀ earlier < 4, ¬ CrowdedAt (further.map Prod.fst) earlier := by decide
      exact absurd found (none index before)
    · exact same
    · exact absurd (by decide) (least 4 later)
  subst fifth
  exact ⟨crowded, takes, (Option.some.inj behind).symm⟩

end TemplateRecognizer
