import TemplateRecognizer.Grammar.Derivation
import TemplateRecognizer.Grammar.Prediction

/-!
# What is still waited for, as a language

The grammar relation grows its repetitions at their end, and a recognizer grows
them at their front.  The two meet in what a pending phrase covers: the rest of
a repetition covers exactly what may be put behind any front of it.  So read,
what a predicted expansion covers is covered by the phrase it replaces, whatever
token it was predicted by, and nothing that is waited for covers nothing.
-/

set_option autoImplicit false

namespace TemplateRecognizer

/-- What may be put behind a phrase of category `front` to make up one of
category `whole`. -/
def Extends (front whole : Category) (levels : Nat) (kinds : List Kind) : Prop :=
  ∀ before, Derives front levels before → Derives whole levels (before ++ kinds)

namespace Extends

variable {front middle whole : Category} {levels : Nat} {kinds more : List Kind}

theorem nothing : Extends whole whole levels [] := by
  intro before derived
  rw [List.append_nil]
  exact derived

theorem append (first : Extends front middle levels kinds)
    (second : Extends middle whole levels more) : Extends front whole levels (kinds ++ more) := by
  intro before derived
  rw [← List.append_assoc]
  exact second _ (first before derived)

end Extends

namespace Phrase

/-- `phrase.Covers levels kinds` says that `kinds` is what `phrase` stands for,
in at most `levels` levels. -/
def Covers (levels : Nat) (kinds : List Kind) : Phrase → Prop
  | tags => Extends .template .template levels kinds
  | tag => Derives .tag levels kinds
  | statements => Extends .statements .statements levels kinds
  | statement => Derives .statement levels kinds
  | directive | conditional | loop => Derives .statement levels (.openBrace :: kinds)
  | body => ∃ inside, levels = inside + 1 ∧ Derives .template inside kinds
  | equality => Derives .equality levels kinds
  | equalityRest => Extends .equality .equality levels kinds
  | relation => Derives .relation levels kinds
  | relationRest => Extends .sum .relation levels kinds
  | sum => Derives .sum levels kinds
  | sumRest => Extends .sum .sum levels kinds
  | product => Derives .product levels kinds
  | productRest => Extends .product .product levels kinds
  | operand => Derives .operand levels kinds
  | items => Derives .items levels kinds
  | itemsRest => Extends .items .items levels kinds

end Phrase

/-- `Covers limit depth pending kinds` says that `kinds` is what `pending` stands
for when `depth` of at most `limit` levels are open. -/
def Covers (limit : Nat) : Nat → List Symbol → List Kind → Prop
  | _, [], kinds => kinds = []
  | depth, .token kind _ :: rest, kinds =>
    ∃ back, kinds = kind :: back ∧ Covers limit depth rest back
  | depth, .openingName :: rest, kinds =>
    ∃ inside back, kinds = .identifier :: .greaterThan :: inside ++
        .lessThan :: .slash :: .identifier :: .greaterThan :: back ∧
      Derives .statements (limit - depth) inside ∧ Covers limit depth rest back
  | depth, .closingName _ :: rest, kinds =>
    ∃ back, kinds = .identifier :: back ∧ Covers limit depth rest back
  | depth, .enter :: rest, kinds => depth < limit ∧ Covers limit (depth + 1) rest kinds
  | depth, .leave :: rest, kinds => Covers limit (depth - 1) rest kinds
  | depth, .phrase phrase :: rest, kinds =>
    ∃ front back, kinds = front ++ back ∧ phrase.Covers (limit - depth) front ∧
      Covers limit depth rest back

/-! ## Expansions -/

section

variable {limit depth : Nat} {rest : List Symbol} {kinds : List Kind}

theorem covers_openingName {name : String}
    (covered : Covers limit depth (Symbol.afterOpeningName name ++ rest) kinds) :
    Covers limit depth (.openingName :: rest) (.identifier :: kinds) := by
  obtain ⟨_, rfl, inside, _, rfl, statements, _, rfl, _, rfl, _, rfl, back, rfl, covered⟩ := covered
  have derived : Derives .statements (limit - depth) inside := by
    simpa using statements [] .noStatement
  exact ⟨inside, back, by simp, derived, covered⟩

theorem covers_vanishing {whole : Phrase} (empty : whole.Covers (limit - depth) [])
    (covered : Covers limit depth rest kinds) : Covers limit depth (.phrase whole :: rest) kinds :=
  ⟨[], kinds, rfl, empty, covered⟩

theorem covers_two {whole first second : Phrase}
    (covered : Covers limit depth (.phrase first :: .phrase second :: rest) kinds)
    (together : ∀ front back, first.Covers (limit - depth) front →
      second.Covers (limit - depth) back → whole.Covers (limit - depth) (front ++ back)) :
    Covers limit depth (.phrase whole :: rest) kinds := by
  obtain ⟨front, _, rfl, derived, middle, back, rfl, extended, covered⟩ := covered
  exact ⟨front ++ middle, back, by simp, together front middle derived extended, covered⟩

theorem covers_operator {whole next more : Phrase} {operator : Kind}
    {visible : operator ≠ .eof}
    (covered : Covers limit depth
      (.token operator visible :: .phrase next :: .phrase more :: rest) kinds)
    (together : ∀ front back, next.Covers (limit - depth) front →
      more.Covers (limit - depth) back → whole.Covers (limit - depth) (operator :: front ++ back)) :
    Covers limit depth (.phrase whole :: rest) kinds := by
  obtain ⟨_, rfl, front, _, rfl, derived, middle, back, rfl, extended, covered⟩ := covered
  exact ⟨operator :: front ++ middle, back, by simp, together front middle derived extended,
    covered⟩

end

/-! ### Statements -/

section

variable {limit depth : Nat} {rest : List Symbol} {kinds : List Kind}

theorem covers_directive {ahead : Kind} {expansion : List Symbol}
    (predicted : Phrase.directive.expand ahead = some expansion)
    (covered : Covers limit depth (expansion ++ rest) kinds) :
    Covers limit depth (.phrase .directive :: rest) kinds := by
  simp only [Phrase.expand] at predicted
  split at predicted
  · cases predicted
    obtain ⟨_, rfl, value, _, rfl, derived, _, rfl, back, rfl, covered⟩ := covered
    refine ⟨[Kind.openBrace] ++ value ++ [Kind.closeBrace, .closeBrace], back, by simp, ?_, covered⟩
    exact Derives.interpolation derived
  · cases predicted
    exact covered
  · cases predicted
    exact covered
  · cases predicted

theorem covers_body (covered : Covers limit depth (.enter :: .phrase .tag :: .phrase .tags ::
      .leave :: rest) kinds) : Covers limit depth (.phrase .body :: rest) kinds := by
  obtain ⟨shallow, tag, _, rfl, derived, tags, back, rfl, extended, covered⟩ := covered
  refine ⟨tag ++ tags, back, by simp, ⟨limit - (depth + 1), by omega, ?_⟩, covered⟩
  exact extended tag (.oneTag derived)

theorem covers_conditional {expansion : List Symbol}
    (predicted : Phrase.conditional.expand .percentage = some expansion)
    (covered : Covers limit depth (expansion ++ rest) kinds) :
    Covers limit depth (.phrase .conditional :: rest) kinds := by
  cases predicted
  obtain ⟨_, rfl, _, rfl, condition, _, rfl, derived, _, rfl, _, rfl, body, _, rfl,
    ⟨inside, levels, template⟩, _, rfl, _, rfl, _, rfl, _, rfl, back, rfl, covered⟩ := covered
  refine ⟨[Kind.percentage, .ifKeyword] ++ condition ++ [Kind.percentage, .closeBrace] ++ body ++
    [Kind.openBrace, .percentage, .endIfKeyword, .percentage, .closeBrace], back, ?_, ?_, covered⟩
  · simp
  · change Derives .equality (limit - depth) condition at derived
    change Derives .statement (limit - depth) _
    rw [levels] at derived ⊢
    exact .conditional derived template

theorem covers_loop {expansion : List Symbol}
    (predicted : Phrase.loop.expand .hyphen = some expansion)
    (covered : Covers limit depth (expansion ++ rest) kinds) :
    Covers limit depth (.phrase .loop :: rest) kinds := by
  cases predicted
  obtain ⟨_, rfl, _, rfl, _, rfl, _, rfl, _, rfl, _, rfl, _, rfl, _, rfl, body, _, rfl,
    ⟨inside, levels, template⟩, _, rfl, _, rfl, _, rfl, _, rfl, back, rfl, covered⟩ := covered
  refine ⟨[Kind.hyphen, .percentage, .forEachKeyword, .identifier, .inKeyword, .identifier,
    .percentage, .closeBrace] ++ body ++
    [Kind.openBrace, .percentage, .endForEachKeyword, .percentage, .closeBrace], back, ?_, ?_,
    covered⟩
  · simp
  · change Derives .statement (limit - depth) _
    rw [levels]
    exact .loop template

/-! ### Expressions -/

theorem covers_operand {ahead : Kind} {expansion : List Symbol}
    (predicted : Phrase.operand.expand ahead = some expansion)
    (covered : Covers limit depth (expansion ++ rest) kinds) :
    Covers limit depth (.phrase .operand :: rest) kinds := by
  simp only [Phrase.expand] at predicted
  split at predicted <;> cases predicted
  · obtain ⟨shallow, _, rfl, value, _, rfl, derived, back, rfl, covered⟩ := covered
    refine ⟨[Kind.leftParens] ++ value ++ [Kind.rightParens], back, by simp, ?_, covered⟩
    have levels : limit - depth = limit - (depth + 1) + 1 := by omega
    change Derives .operand (limit - depth) _
    rw [levels]
    exact .parentheses derived
  · obtain ⟨shallow, _, rfl, items, _, rfl, derived, back, rfl, covered⟩ := covered
    refine ⟨[Kind.openBracket] ++ items ++ [Kind.closeBracket], back, by simp, ?_, covered⟩
    have levels : limit - depth = limit - (depth + 1) + 1 := by omega
    change Derives .operand (limit - depth) _
    rw [levels]
    exact .list derived
  · obtain ⟨back, rfl, covered⟩ := covered
    exact ⟨[.intConstant], back, rfl, Derives.constant (by simp), covered⟩
  · obtain ⟨back, rfl, covered⟩ := covered
    exact ⟨[.floatConstant], back, rfl, Derives.constant (by simp), covered⟩
  · obtain ⟨back, rfl, covered⟩ := covered
    exact ⟨[.stringConstant], back, rfl, Derives.constant (by simp), covered⟩
  · obtain ⟨back, rfl, covered⟩ := covered
    exact ⟨[.identifier], back, rfl, Derives.name, covered⟩

/-- An operator and the operand behind it extend what stands before them, and so
does what extends the outcome. -/
theorem Extends.operator {whole next : Category} {operator : Kind} {levels : Nat}
    {front back : List Kind}
    (grows : ∀ {left right}, Derives whole levels left → Derives next levels right →
      Derives whole levels (left ++ operator :: right))
    (derived : Derives next levels front) (extended : Extends whole whole levels back) :
    Extends whole whole levels (operator :: front ++ back) :=
  Extends.append (fun _ before => grows before derived) extended

end

/-- A phrase covers what any expansion of it does. -/
theorem covers_phrase {limit depth : Nat} {rest : List Symbol} {kinds : List Kind}
    {phrase : Phrase} {ahead : Kind} {expansion : List Symbol}
    (predicted : phrase.expand ahead = some expansion)
    (covered : Covers limit depth (expansion ++ rest) kinds) :
    Covers limit depth (.phrase phrase :: rest) kinds := by
  cases phrase with
  | tags =>
    simp only [Phrase.expand] at predicted
    split at predicted <;> cases predicted
    · refine covers_two covered fun front back tag tags => ?_
      exact Extends.append (fun _ before => .anotherTag before tag) tags
    · exact covers_vanishing Extends.nothing covered
  | tag =>
    cases predicted
    obtain ⟨_, rfl, inside, back, rfl, derived, covered⟩ := covered
    exact ⟨_, back, by simp, Derives.tag derived, covered⟩
  | statements =>
    simp only [Phrase.expand] at predicted
    split at predicted <;> cases predicted
    · refine covers_two covered fun front back statement statements => ?_
      exact Extends.append (fun _ before => .anotherStatement before statement) statements
    · exact covers_vanishing Extends.nothing covered
  | statement =>
    cases predicted
    obtain ⟨_, rfl, front, back, rfl, derived, covered⟩ := covered
    exact ⟨.openBrace :: front, back, rfl, derived, covered⟩
  | directive => exact covers_directive predicted covered
  | conditional => exact covers_conditional predicted covered
  | loop => exact covers_loop predicted covered
  | body =>
    cases predicted
    exact covers_body covered
  | equality =>
    cases predicted
    exact covers_two covered fun _ _ relation more => more _ (.oneRelation relation)
  | equalityRest =>
    simp only [Phrase.expand] at predicted
    split at predicted <;> cases predicted
    · exact covers_operator covered fun _ _ => Extends.operator (.anotherRelation (.inl rfl))
    · exact covers_operator covered fun _ _ => Extends.operator (.anotherRelation (.inr rfl))
    · exact covers_vanishing Extends.nothing covered
  | relation =>
    cases predicted
    exact covers_two covered fun _ _ sum more => more _ sum
  | relationRest =>
    simp only [Phrase.expand] at predicted
    split at predicted <;> cases predicted
    · obtain ⟨_, rfl, right, back, rfl, derived, covered⟩ := covered
      exact ⟨.lessThan :: right, back, rfl, fun _ left => .twoSums (.inl rfl) left derived, covered⟩
    · obtain ⟨_, rfl, right, back, rfl, derived, covered⟩ := covered
      exact ⟨.greaterThan :: right, back, rfl, fun _ left => .twoSums (.inr rfl) left derived,
        covered⟩
    · exact covers_vanishing (fun _ left => by simpa using Derives.oneSum left) covered
  | sum =>
    cases predicted
    exact covers_two covered fun _ _ product more => more _ (.oneProduct product)
  | sumRest =>
    simp only [Phrase.expand] at predicted
    split at predicted <;> cases predicted
    · exact covers_operator covered fun _ _ => Extends.operator (.anotherProduct (.inl rfl))
    · exact covers_operator covered fun _ _ => Extends.operator (.anotherProduct (.inr rfl))
    · exact covers_vanishing Extends.nothing covered
  | product =>
    cases predicted
    exact covers_two covered fun _ _ operand more => more _ (.oneOperand operand)
  | productRest =>
    simp only [Phrase.expand] at predicted
    split at predicted <;> cases predicted
    · exact covers_operator covered fun _ _ => Extends.operator (.anotherOperand (.inl rfl))
    · exact covers_operator covered fun _ _ => Extends.operator (.anotherOperand (.inr rfl))
    · exact covers_vanishing Extends.nothing covered
  | operand => exact covers_operand predicted covered
  | items =>
    cases predicted
    exact covers_two covered fun _ _ item more => more _ (.oneItem item)
  | itemsRest =>
    simp only [Phrase.expand] at predicted
    split at predicted <;> cases predicted
    · exact covers_operator covered fun _ _ => Extends.operator .anotherItem
    · exact covers_vanishing Extends.nothing covered

/-! ## Everything that is waited for can be met -/

theorem Derives.equality_name {levels : Nat} : Derives .equality levels [.identifier] :=
  .oneRelation (.oneSum (.oneProduct (.oneOperand .name)))

theorem Derives.emptyTag {levels : Nat} :
    Derives .tag levels
      [.lessThan, .identifier, .greaterThan, .lessThan, .slash, .identifier, .greaterThan] :=
  .tag .noStatement

theorem exists_covers_directive {levels : Nat} {ahead : Kind}
    (begins : ahead = .openBrace ∨ ahead = .percentage ∨ ahead = .hyphen) :
    ∃ kinds, Phrase.directive.Covers (levels + 1) (ahead :: kinds) := by
  rcases begins with rfl | rfl | rfl
  · exact ⟨_, Derives.interpolation Derives.equality_name⟩
  · exact ⟨_, Derives.conditional Derives.equality_name (.oneTag Derives.emptyTag)⟩
  · exact ⟨_, Derives.loop (.oneTag Derives.emptyTag)⟩

theorem Phrase.exists_covers (levels : Nat) (phrase : Phrase) :
    ∃ kinds, phrase.Covers (levels + 1) kinds := by
  have equality : Derives .equality (levels + 1) [.identifier] := Derives.equality_name
  cases phrase with
  | tags => exact ⟨[], Extends.nothing⟩
  | tag => exact ⟨_, Derives.emptyTag⟩
  | statements => exact ⟨[], Extends.nothing⟩
  | statement => exact ⟨_, Derives.interpolation equality⟩
  | directive => exact ⟨_, (exists_covers_directive (.inl rfl)).choose_spec⟩
  | conditional => exact ⟨_, (exists_covers_directive (.inr (.inl rfl))).choose_spec⟩
  | loop => exact ⟨_, (exists_covers_directive (.inr (.inr rfl))).choose_spec⟩
  | body => exact ⟨_, levels, rfl, .oneTag Derives.emptyTag⟩
  | equality => exact ⟨_, equality⟩
  | equalityRest => exact ⟨[], Extends.nothing⟩
  | relation => exact ⟨_, Derives.oneSum (.oneProduct (.oneOperand .name))⟩
  | relationRest => exact ⟨[], fun _ left => by simpa using Derives.oneSum left⟩
  | sum => exact ⟨_, Derives.oneProduct (.oneOperand .name)⟩
  | sumRest => exact ⟨[], Extends.nothing⟩
  | product => exact ⟨_, Derives.oneOperand .name⟩
  | productRest => exact ⟨[], Extends.nothing⟩
  | operand => exact ⟨_, Derives.name⟩
  | items => exact ⟨_, Derives.oneItem equality⟩
  | itemsRest => exact ⟨[], Extends.nothing⟩

/-- Whatever is waited for covers something, as soon as enough levels may be
open. -/
theorem exists_covers (pending : List Symbol) (depth : Nat) :
    ∃ least, ∀ limit, least ≤ limit → ∃ kinds, Covers limit depth pending kinds := by
  induction pending generalizing depth with
  | nil => exact ⟨0, fun _ _ => ⟨[], rfl⟩⟩
  | cons symbol rest inductionHypothesis =>
    cases symbol with
    | token kind visible =>
      obtain ⟨least, enough⟩ := inductionHypothesis depth
      refine ⟨least, fun limit bound => ?_⟩
      obtain ⟨back, covered⟩ := enough limit bound
      exact ⟨kind :: back, back, rfl, covered⟩
    | openingName =>
      obtain ⟨least, enough⟩ := inductionHypothesis depth
      refine ⟨least, fun limit bound => ?_⟩
      obtain ⟨back, covered⟩ := enough limit bound
      exact ⟨_, [], back, rfl, .noStatement, covered⟩
    | closingName opening =>
      obtain ⟨least, enough⟩ := inductionHypothesis depth
      refine ⟨least, fun limit bound => ?_⟩
      obtain ⟨back, covered⟩ := enough limit bound
      exact ⟨.identifier :: back, back, rfl, covered⟩
    | enter =>
      obtain ⟨least, enough⟩ := inductionHypothesis (depth + 1)
      refine ⟨max least (depth + 1), fun limit bound => ?_⟩
      obtain ⟨kinds, covered⟩ := enough limit (by omega)
      exact ⟨kinds, by omega, covered⟩
    | leave => exact inductionHypothesis (depth - 1)
    | phrase phrase =>
      obtain ⟨least, enough⟩ := inductionHypothesis depth
      refine ⟨max least (depth + 1), fun limit bound => ?_⟩
      obtain ⟨back, covered⟩ := enough limit (by omega)
      obtain ⟨front, stands⟩ := phrase.exists_covers (limit - depth - 1)
      have levels : limit - depth - 1 + 1 = limit - depth := by omega
      rw [levels] at stands
      exact ⟨front ++ back, front, back, rfl, stands, covered⟩

end TemplateRecognizer
