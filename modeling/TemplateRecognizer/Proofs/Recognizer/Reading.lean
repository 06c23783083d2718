import TemplateRecognizer.Grammar.Derivation
import TemplateRecognizer.Proofs.Recognizer.Course

/-!
# What is derived is read

A derivation is read off the tokens from left to right.  One token of lookahead
is enough, because the token behind a phrase always tells that the phrase is
over: no operator that binds stronger can follow an operand, no less-than sign
an expression, and no opening brace but that of a statement the statements of a
tag.  Each production is one lemma here, and says so of its own tokens.
-/

set_option autoImplicit false

namespace TemplateRecognizer

namespace Category

/-- What is waited for where a phrase of this category begins. -/
def opening : Category → List Symbol
  | template => [Phrase.tag, Phrase.tags]
  | tag => [Phrase.tag]
  | statements => [Phrase.statements]
  | statement => [Phrase.statement]
  | equality => [Phrase.equality]
  | relation => [Phrase.relation]
  | sum => [Phrase.sum]
  | product => [Phrase.product]
  | operand => [Phrase.operand]
  | items => [Phrase.items]

/-- What is still waited for where such a phrase may end. -/
def ending : Category → List Symbol
  | template => [Phrase.tags]
  | statements => [Phrase.statements]
  | equality => [Phrase.equalityRest]
  | sum => [Phrase.sumRest]
  | product => [Phrase.productRest]
  | items => [Phrase.itemsRest]
  | tag | statement | relation | operand => []

/-- The kinds that, behind a phrase of this category, would still belong to the
last part of it. -/
def binding : Category → List Kind
  | equality | relation => [.lessThan, .greaterThan, .plus, .hyphen, .asterisk, .slash]
  | sum => [.asterisk, .slash]
  | items =>
    [.equal, .notEqual, .lessThan, .greaterThan, .plus, .hyphen, .asterisk, .slash]
  | template | tag | statements | statement | product | operand => []

def extending : Category → List Kind
  | template => [.lessThan]
  | statements => [.openBrace]
  | equality => [.equal, .notEqual]
  | sum => [.plus, .hyphen]
  | product => [.asterisk, .slash]
  | items => [.comma]
  | tag | statement | relation | operand => []

end Category

section Reading

variable {options : Options} {tokens : Nat → Token} {taken behind depth : Nat}
  {rest : List Symbol} {verdict : Except ParseError Unit} {final : Stage}

theorem Course.end_repetition {category : Category}
    (ended : (tokens behind).kind ∉ category.extending)
    (course : Course options tokens ⟨behind, rest, depth⟩ verdict final) :
    Course options tokens ⟨behind, category.ending ++ rest, depth⟩ verdict final := by
  have leaving {repetition : Phrase}
      (empty : repetition.expand (tokens behind).kind = some []) :
      Course options tokens ⟨behind, .phrase repetition :: rest, depth⟩ verdict final :=
    .advances (.phrase empty) course
  generalize (tokens behind).kind = ahead at ended leaving
  cases category with
  | tag | statement | relation | operand => exact course
  | _ =>
    refine leaving ?_
    cases ahead <;> first | rfl | simp [Category.extending] at ended

theorem Course.end_relation
    (ended : (tokens behind).kind ≠ .lessThan ∧ (tokens behind).kind ≠ .greaterThan)
    (course : Course options tokens ⟨behind, rest, depth⟩ verdict final) :
    Course options tokens ⟨behind, .phrase .relationRest :: rest, depth⟩ verdict final := by
  have empty : Phrase.relationRest.expand (tokens behind).kind = some [] := by
    simp only [Phrase.expand]
    split
    · exact absurd ‹_› ended.1
    · exact absurd ‹_› ended.2
    · rfl
  exact .advances (.phrase empty) course

end Reading

/-- A recognition that stands before `kinds` reads them as a phrase of `category`,
if the token behind them does not belong to the last part of it. -/
def Category.Reads (options : Options) (tokens : Nat → Token) (levels : Nat) (kinds : List Kind)
    (category : Category) : Prop :=
  ∀ {taken depth behind : Nat} {rest : List Symbol} {verdict : Except ParseError Unit}
    {final : Stage},
    KindsAt tokens taken kinds → behind = taken + kinds.length →
      (tokens behind).kind ∉ category.binding → depth + levels ≤ options.maxDepth →
        Course options tokens ⟨behind, category.ending ++ rest, depth⟩ verdict final →
          Course options tokens ⟨taken, category.opening ++ rest, depth⟩ verdict final

namespace Category.Reads

variable {options : Options} {tokens : Nat → Token} {levels : Nat} {kinds front back : List Kind}
  {part whole : Category}

/-- A phrase is read to its end where no token behind it could belong to it. -/
theorem closed (reads : part.Reads options tokens levels kinds) {taken depth behind : Nat}
    {rest : List Symbol} {verdict : Except ParseError Unit} {final : Stage}
    (here : KindsAt tokens taken kinds) (place : behind = taken + kinds.length)
    (ended : (tokens behind).kind ∉ part.binding ++ part.extending)
    (shallow : depth + levels ≤ options.maxDepth)
    (course : Course options tokens ⟨behind, rest, depth⟩ verdict final) :
    Course options tokens ⟨taken, part.opening ++ rest, depth⟩ verdict final := by
  rw [List.mem_append, not_or] at ended
  exact reads here place ended.1 shallow (Course.end_repetition ended.2 course)

theorem first {begun inner more : Phrase} (opening : whole.opening = [.phrase begun])
    (expands : ∀ ahead, begun.expand ahead = some [.phrase inner, .phrase more])
    (ending : whole.ending = [.phrase more]) (starts : part.opening = [.phrase inner])
    (within : part.binding ++ part.extending ⊆ whole.binding)
    (reads : part.Reads options tokens levels kinds) :
    whole.Reads options tokens levels kinds := by
  intro taken depth behind rest verdict final here place free shallow course
  rw [opening]
  refine .advances (.phrase (expands _)) ?_
  have inside : Course options tokens ⟨taken, part.opening ++ .phrase more :: rest, depth⟩
      verdict final :=
    reads.closed here place (fun bound => free (within bound)) shallow (by rwa [ending] at course)
  rwa [starts] at inside

theorem operator {inner more : Phrase} {operator : Kind} {visible : operator ≠ .eof}
    (expands : more.expand operator =
      some [.token operator visible, .phrase inner, .phrase more])
    (ending : whole.ending = [.phrase more]) (starts : part.opening = [.phrase inner])
    (free : operator ∉ whole.binding) (within : part.binding ++ part.extending ⊆ whole.binding)
    (left : whole.Reads options tokens levels front)
    (right : part.Reads options tokens levels back) :
    whole.Reads options tokens levels (front ++ operator :: back) := by
  intro taken depth behind rest verdict final here place free' shallow course
  rw [kindsAt_append, kindsAt_cons] at here
  obtain ⟨hereLeft, same, hereRight⟩ := here
  rw [List.length_append, List.length_cons] at place
  refine left hereLeft rfl (same ▸ free) shallow ?_
  have predicted : more.expand (tokens (taken + front.length)).kind =
      some [.token operator visible, .phrase inner, .phrase more] := by
    rw [same]
    exact expands
  rw [ending]
  refine .advances (.phrase predicted) (.advances (.token same) ?_)
  have inside : Course options tokens
      ⟨taken + front.length + 1, part.opening ++ .phrase more :: rest, depth⟩ verdict final :=
    right.closed hereRight (by omega) (fun bound => free' (within bound)) shallow
      (by rwa [ending] at course)
  rwa [starts] at inside

/-! ### Statements -/

theorem oneTag (tag : Category.tag.Reads options tokens levels kinds) :
    template.Reads options tokens levels kinds := by
  intro taken depth behind rest verdict final here place _ shallow course
  exact tag here place (by simp [binding]) shallow course

theorem anotherTag (template : template.Reads options tokens levels front)
    (tag : Category.tag.Reads options tokens levels (.lessThan :: back)) :
    Category.template.Reads options tokens levels (front ++ .lessThan :: back) := by
  intro taken depth behind rest verdict final here place _ shallow course
  rw [kindsAt_append] at here
  rw [List.length_append] at place
  refine template here.1 rfl (by simp [binding]) shallow ?_
  refine .advances (.furtherTag here.2.1) ?_
  exact tag here.2 (by omega) (by simp [binding]) shallow course

theorem anotherStatement (statements : statements.Reads options tokens levels front)
    (statement : Category.statement.Reads options tokens levels (.openBrace :: back)) :
    Category.statements.Reads options tokens levels (front ++ .openBrace :: back) := by
  intro taken depth behind rest verdict final here place _ shallow course
  rw [kindsAt_append] at here
  rw [List.length_append] at place
  refine statements here.1 rfl (by simp [binding]) shallow ?_
  have another : Phrase.statements.expand (tokens (taken + front.length)).kind =
      some [.phrase .statement, .phrase .statements] := by
    rw [here.2.1]
    rfl
  refine .advances (.phrase another) ?_
  exact statement here.2 (by omega) (by simp [binding]) shallow course

theorem tag (permissive : options.strictTagNames = false)
    (statements : statements.Reads options tokens levels kinds) :
    Category.tag.Reads options tokens levels
      ([Kind.lessThan, .identifier, .greaterThan] ++ kinds ++
        [Kind.lessThan, .slash, .identifier, .greaterThan]) := by
  intro taken depth behind rest verdict final here place _ shallow course
  simp only [List.cons_append, List.nil_append, kindsAt_cons, kindsAt_append, kindsAt_nil,
    and_true] at here
  obtain ⟨opens, name, opened, inside, closes, slash, closingName, closed⟩ := here
  refine .advances (.phrase rfl) (.advances (.token opens) (.advances (.openingName name)
    (.advances (.token opened) ?_)))
  refine statements.closed inside rfl (by simp [binding, extending, closes]) shallow ?_
  refine .advances (.token closes) (.advances (.token slash) (.advances (.closingName closingName
    ?_) (.advances (.token closed) ?_)))
  · intro strict
    exact absurd (permissive.symm.trans strict) Bool.false_ne_true
  · have total : behind = taken + 1 + 1 + 1 + kinds.length + 1 + 1 + 1 + 1 := by
      simp only [List.length_append, List.length_cons, List.length_nil] at place
      omega
    exact total ▸ course

theorem interpolation (value : equality.Reads options tokens levels kinds) :
    statement.Reads options tokens levels
      ([Kind.openBrace, .openBrace] ++ kinds ++ [Kind.closeBrace, .closeBrace]) := by
  intro taken depth behind rest verdict final here place _ shallow course
  simp only [List.cons_append, List.nil_append, kindsAt_cons, kindsAt_append, kindsAt_nil,
    and_true] at here
  obtain ⟨brace, again, inside, closes, closed⟩ := here
  have directive : Phrase.directive.expand (tokens (taken + 1)).kind =
      Phrase.directive.expand .openBrace := by rw [again]
  refine .advances (.phrase rfl) (.advances (.token brace) (.advances (.phrase directive)
    (.advances (.token again) ?_)))
  refine value.closed inside rfl (by simp [binding, extending, closes]) shallow ?_
  refine .advances (.token closes) (.advances (.token closed) ?_)
  have total : behind = taken + 1 + 1 + kinds.length + 1 + 1 := by
    simp only [List.length_append, List.length_cons, List.length_nil] at place
    omega
  exact total ▸ course

/-- The body of a conditional or of a loop is read one level further in. -/
theorem body (template : template.Reads options tokens levels kinds) {taken depth behind : Nat}
    {rest : List Symbol} {verdict : Except ParseError Unit} {final : Stage}
    (here : KindsAt tokens taken kinds) (place : behind = taken + kinds.length)
    (ended : (tokens behind).kind = .openBrace) (shallow : depth + 1 + levels ≤ options.maxDepth)
    (course : Course options tokens ⟨behind, rest, depth⟩ verdict final) :
    Course options tokens ⟨taken, .phrase .body :: rest, depth⟩ verdict final := by
  refine .advances (.phrase rfl) (.advances (.enter (by omega)) ?_)
  refine template.closed here place (by simp [binding, extending, ended]) shallow ?_
  exact .advances .leave course

theorem conditional (condition : equality.Reads options tokens (levels + 1) front)
    (body : template.Reads options tokens levels back) :
    statement.Reads options tokens (levels + 1)
      ([Kind.openBrace, .percentage, .ifKeyword] ++ front ++ [Kind.percentage, .closeBrace] ++
        back ++ [Kind.openBrace, .percentage, .endIfKeyword, .percentage, .closeBrace]) := by
  intro taken depth behind rest verdict final here place _ shallow course
  simp only [List.cons_append, List.nil_append, List.append_assoc, kindsAt_cons, kindsAt_append,
    kindsAt_nil, and_true] at here
  obtain ⟨brace, opens, keyword, inside, closes, closed, within, braceEnd, opensEnd, keywordEnd,
    closesEnd, closedEnd⟩ := here
  have directive : Phrase.directive.expand (tokens (taken + 1)).kind =
      Phrase.directive.expand .percentage := by rw [opens]
  refine .advances (.phrase rfl) (.advances (.token brace) (.advances (.phrase directive)
    (.advances (.phrase rfl) (.advances (.token opens) (.advances (.token keyword) ?_)))))
  refine condition.closed inside rfl (by simp [binding, extending, closes]) shallow ?_
  refine .advances (.token closes) (.advances (.token closed) ?_)
  refine body.body within rfl braceEnd (by omega) ?_
  refine .advances (.token braceEnd) (.advances (.token opensEnd) (.advances (.token keywordEnd)
    (.advances (.token closesEnd) (.advances (.token closedEnd) ?_))))
  have total : behind =
      taken + 1 + 1 + 1 + front.length + 1 + 1 + back.length + 1 + 1 + 1 + 1 + 1 := by
    simp only [List.length_append, List.length_cons, List.length_nil] at place
    omega
  exact total ▸ course

theorem loop (body : template.Reads options tokens levels kinds) :
    statement.Reads options tokens (levels + 1)
      ([Kind.openBrace, .hyphen, .percentage, .forEachKeyword, .identifier, .inKeyword, .identifier,
          .percentage, .closeBrace] ++
        kinds ++ [Kind.openBrace, .percentage, .endForEachKeyword, .percentage, .closeBrace]) := by
  intro taken depth behind rest verdict final here place _ shallow course
  simp only [List.cons_append, List.nil_append, kindsAt_cons, kindsAt_append, kindsAt_nil,
    and_true] at here
  obtain ⟨brace, hyphen, opens, keyword, item, within, list, closes, closed, inside, braceEnd,
    opensEnd, keywordEnd, closesEnd, closedEnd⟩ := here
  have directive : Phrase.directive.expand (tokens (taken + 1)).kind =
      Phrase.directive.expand .hyphen := by rw [hyphen]
  refine .advances (.phrase rfl) (.advances (.token brace) (.advances (.phrase directive)
    (.advances (.phrase rfl) (.advances (.token hyphen) (.advances (.token opens)
      (.advances (.token keyword) (.advances (.token item) (.advances (.token within)
        (.advances (.token list) (.advances (.token closes) (.advances (.token closed)
          ?_)))))))))))
  refine body.body inside rfl braceEnd (by omega) ?_
  refine .advances (.token braceEnd) (.advances (.token opensEnd) (.advances (.token keywordEnd)
    (.advances (.token closesEnd) (.advances (.token closedEnd) ?_))))
  have total : behind =
      taken + 1 + 1 + 1 + 1 + 1 + 1 + 1 + 1 + 1 + kinds.length + 1 + 1 + 1 + 1 + 1 := by
    simp only [List.length_append, List.length_cons, List.length_nil] at place
    omega
  exact total ▸ course

/-! ### Expressions -/

theorem oneSum (sum : sum.Reads options tokens levels kinds) :
    relation.Reads options tokens levels kinds := by
  intro taken depth behind rest verdict final here place free shallow course
  refine .advances (.phrase rfl) ?_
  refine sum.closed here place ?_ shallow ?_
  · exact fun bound => free ((by decide : Category.sum.binding ++ Category.sum.extending ⊆
      relation.binding) bound)
  · refine Course.end_relation ⟨?_, ?_⟩ course <;> exact fun same => free (by simp [binding, same])

theorem twoSums {operator : Kind} (operator_eq : operator = .lessThan ∨ operator = .greaterThan)
    (left : sum.Reads options tokens levels front) (right : sum.Reads options tokens levels back) :
    relation.Reads options tokens levels (front ++ operator :: back) := by
  intro taken depth behind rest verdict final here place free shallow course
  rw [kindsAt_append, kindsAt_cons] at here
  obtain ⟨hereLeft, same, hereRight⟩ := here
  rw [List.length_append, List.length_cons] at place
  have weaker : operator ∉ Category.sum.binding ++ Category.sum.extending := by
    rcases operator_eq with rfl | rfl <;> decide
  refine .advances (.phrase rfl) ?_
  refine left.closed hereLeft rfl (by rwa [same]) shallow ?_
  have behindRight : Course options tokens ⟨taken + front.length + 1, .phrase .sum :: rest, depth⟩
      verdict final := by
    refine right.closed hereRight (by omega) ?_ shallow course
    exact fun bound => free ((by decide : Category.sum.binding ++ Category.sum.extending ⊆
      relation.binding) bound)
  rcases operator_eq with rfl | rfl
  · have expands : Phrase.relationRest.expand (tokens (taken + front.length)).kind =
        some [.token .lessThan, .phrase .sum] := by rw [same]; rfl
    exact .advances (.phrase expands) (.advances (.token same) behindRight)
  · have expands : Phrase.relationRest.expand (tokens (taken + front.length)).kind =
        some [.token .greaterThan, .phrase .sum] := by rw [same]; rfl
    exact .advances (.phrase expands) (.advances (.token same) behindRight)

theorem oneToken {kind : Kind} {visible : kind ≠ .eof}
    (expands : Phrase.operand.expand kind = some [.token kind visible]) :
    operand.Reads options tokens levels [kind] := by
  intro taken depth behind rest verdict final here place _ _ course
  have predicted : Phrase.operand.expand (tokens taken).kind = some [.token kind visible] := by
    rw [here.1]
    exact expands
  subst place
  exact .advances (.phrase predicted) (.advances (.token here.1) course)

theorem enclosed {begun : Phrase} {opener closer : Kind} {visible : opener ≠ .eof}
    {visible' : closer ≠ .eof} (starts : part.opening = [.phrase begun])
    (expands : Phrase.operand.expand opener =
      some [.enter, .token opener visible, .phrase begun, .token closer visible', .leave])
    (free : closer ∉ part.binding ++ part.extending)
    (inner : part.Reads options tokens levels kinds) :
    operand.Reads options tokens (levels + 1) ([opener] ++ kinds ++ [closer]) := by
  intro taken depth behind rest verdict final here place _ shallow course
  simp only [List.cons_append, List.nil_append, kindsAt_cons, kindsAt_append, kindsAt_nil,
    and_true] at here
  obtain ⟨opens, inside, closes⟩ := here
  have predicted : Phrase.operand.expand (tokens taken).kind =
      some [.enter, .token opener visible, .phrase begun, .token closer visible', .leave] := by
    rw [opens]
    exact expands
  refine .advances (.phrase predicted) (.advances (.enter (by omega)) (.advances (.token opens) ?_))
  have closing : Course options tokens
      ⟨taken + 1 + kinds.length, .token closer visible' :: .leave :: rest, depth + 1⟩
      verdict final := by
    refine .advances (.token closes) (.advances .leave ?_)
    have total : behind = taken + 1 + kinds.length + 1 := by
      simp only [List.length_append, List.length_cons, List.length_nil] at place
      omega
    exact total ▸ course
  have reading := inner.closed inside rfl (by rwa [closes]) (by omega) closing
  rwa [starts] at reading

end Category.Reads

theorem Derives.exists_eq_cons_of_tag {levels : Nat} {kinds : List Kind}
    (derived : Derives .tag levels kinds) : ∃ rest, kinds = .lessThan :: rest := by
  cases derived
  exact ⟨_, rfl⟩

theorem Derives.exists_eq_cons_of_statement {levels : Nat} {kinds : List Kind}
    (derived : Derives .statement levels kinds) : ∃ rest, kinds = .openBrace :: rest := by
  cases derived <;> exact ⟨_, rfl⟩

theorem Derives.reads {options : Options} {tokens : Nat → Token} {category : Category}
    {levels : Nat} {kinds : List Kind} (permissive : options.strictTagNames = false)
    (derived : Derives category levels kinds) : category.Reads options tokens levels kinds := by
  induction derived with
  | oneTag _ tag => exact tag.oneTag
  | anotherTag _ derivedTag tags tag =>
    obtain ⟨rest, rfl⟩ := derivedTag.exists_eq_cons_of_tag
    exact tags.anotherTag tag
  | tag _ statements => exact statements.tag permissive
  | noStatement =>
    intro taken depth behind rest verdict final _ place _ _ course
    subst place
    exact course
  | anotherStatement _ derivedStatement statements statement =>
    obtain ⟨rest, rfl⟩ := derivedStatement.exists_eq_cons_of_statement
    exact statements.anotherStatement statement
  | interpolation _ value => exact value.interpolation
  | conditional _ _ condition body => exact condition.conditional body
  | loop _ body => exact body.loop
  | oneRelation _ relation => exact relation.first rfl (fun _ => rfl) rfl rfl (by decide)
  | anotherRelation operator _ _ left right =>
    rcases operator with rfl | rfl
    · exact left.operator rfl rfl rfl (by decide) (by decide) right
    · exact left.operator rfl rfl rfl (by decide) (by decide) right
  | oneSum _ sum => exact sum.oneSum
  | twoSums operator _ _ left right => exact left.twoSums operator right
  | oneProduct _ product => exact product.first rfl (fun _ => rfl) rfl rfl (by decide)
  | anotherProduct operator _ _ left right =>
    rcases operator with rfl | rfl
    · exact left.operator rfl rfl rfl (by decide) (by decide) right
    · exact left.operator rfl rfl rfl (by decide) (by decide) right
  | oneOperand _ operand => exact operand.first rfl (fun _ => rfl) rfl rfl (by decide)
  | anotherOperand operator _ _ left right =>
    rcases operator with rfl | rfl
    · exact left.operator rfl rfl rfl (by decide) (by decide) right
    · exact left.operator rfl rfl rfl (by decide) (by decide) right
  | name => exact Category.Reads.oneToken rfl
  | constant kind =>
    rcases kind with rfl | rfl | rfl
    · exact Category.Reads.oneToken rfl
    · exact Category.Reads.oneToken rfl
    · exact Category.Reads.oneToken rfl
  | parentheses _ value => exact value.enclosed rfl rfl (by decide)
  | list _ items => exact items.enclosed rfl rfl (by decide)
  | oneItem _ item => exact item.first rfl (fun _ => rfl) rfl rfl (by decide)
  | anotherItem _ _ items item => exact items.operator rfl rfl rfl (by decide) (by decide) item

end TemplateRecognizer
