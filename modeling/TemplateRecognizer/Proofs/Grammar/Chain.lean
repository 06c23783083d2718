import Mathlib.Data.List.Induction
import Mathlib.Data.Nat.Find
import TemplateRecognizer.Token.Kind

/-!
# Chains of operators

An expression can be described without levels of precedence.  It is a chain: operands, joined
by operators of any kind, under the one condition that two relational operators of a chain have
an equality operator between them.  An operand is a single token, a chain in parentheses or a
list of chains.
-/

set_option autoImplicit false

namespace TemplateRecognizer

namespace Kind

def isEquality : Kind → Bool
  | equal | notEqual => true
  | _ => false

def isRelational : Kind → Bool
  | lessThan | greaterThan => true
  | _ => false

def isArithmetic : Kind → Bool
  | plus | hyphen | asterisk | slash => true
  | _ => false

def isOperator (kind : Kind) : Bool := kind.isEquality || kind.isRelational || kind.isArithmetic

end Kind

/-! ## Relational operators that are too close -/

/-- Says that a relational operator is among `operators`, and no equality operator behind it. -/
def Related (operators : List Kind) : Prop :=
  ∃ (before : List Kind) (relational : Kind) (behind : List Kind),
    operators = before ++ relational :: behind ∧
      relational.isRelational = true ∧ ∀ operator ∈ behind, operator.isEquality = false

/-- Says that a relational operator stands at `index`, and that there is an earlier one with no
equality operator between the two. -/
def CrowdedAt (operators : List Kind) (index : Nat) : Prop :=
  ∃ operator, operators[index]? = some operator ∧ operator.isRelational = true ∧
    Related (operators.take index)

/-- Says that any two relational operators have an equality operator between them. -/
def Separated (operators : List Kind) : Prop :=
  ∀ (before : List Kind) (first : Kind) (between : List Kind) (second : Kind) (behind : List Kind),
    operators = before ++ first :: between ++ second :: behind →
      first.isRelational = true → second.isRelational = true →
        ∃ operator ∈ between, operator.isEquality = true

theorem Separated.not_related {operators before behind : List Kind} {operator : Kind}
    (separated : Separated operators) (split : operators = before ++ operator :: behind)
    (relational : operator.isRelational = true) : ¬ Related before := by
  rintro ⟨front, first, between, rfl, earlier, none⟩
  obtain ⟨equality, member, holds⟩ := separated _ _ _ _ _ split earlier relational
  rw [none equality member] at holds
  cases holds

theorem separated_iff (operators : List Kind) :
    Separated operators ↔ ∀ index, ¬ CrowdedAt operators index := by
  constructor
  · rintro separated index ⟨operator, here, relational, related⟩
    obtain ⟨inside, rfl⟩ := List.getElem?_eq_some_iff.mp here
    have split : operators =
        operators.take index ++ operators[index] :: operators.drop (index + 1) := by
      rw [← List.drop_eq_getElem_cons inside, List.take_append_drop]
    exact separated.not_related split relational related
  · intro uncrowded before first between second behind split earlier relational
    by_contra apart
    apply uncrowded (before ++ first :: between).length
    refine ⟨second, ?_, relational, before, first, between, ?_, earlier, ?_⟩
    · rw [split, List.getElem?_append_right (Nat.le_refl _), Nat.sub_self, List.getElem?_cons_zero]
    · rw [split, List.take_left]
    · intro operator member
      rw [← Bool.not_eq_true]
      exact fun equality => apart ⟨operator, member, equality⟩

theorem CrowdedAt.of_take {operators : List Kind} {count index : Nat}
    (crowded : CrowdedAt (operators.take count) index) :
    index < count ∧ CrowdedAt operators index := by
  obtain ⟨operator, here, relational, related⟩ := crowded
  rw [List.getElem?_take, Option.ite_none_right_eq_some] at here
  obtain ⟨within, here⟩ := here
  rw [List.take_take, Nat.min_eq_left (Nat.le_of_lt within)] at related
  exact ⟨within, operator, here, relational, related⟩

def relatedBehind (related : Bool) (operator : Kind) : Bool :=
  operator.isRelational || related && !operator.isEquality

theorem related_concat (operators : List Kind) (operator : Kind) :
    Related (operators ++ [operator]) ↔
      operator.isRelational = true ∨ Related operators ∧ operator.isEquality = false := by
  constructor
  · rintro ⟨before, relational, behind, split, holds, none⟩
    rcases List.eq_nil_or_concat behind with rfl | ⟨front, last, rfl⟩
    · obtain ⟨_, same⟩ := List.append_inj' split rfl
      cases same
      exact .inl holds
    · rw [List.concat_eq_append] at split none
      rw [← List.cons_append, ← List.append_assoc] at split
      obtain ⟨rfl, same⟩ := List.append_inj' split rfl
      cases same
      rw [List.forall_mem_append, List.forall_mem_singleton] at none
      exact .inr ⟨⟨before, relational, front, rfl, holds, none.1⟩, none.2⟩
  · rintro (relational | ⟨⟨before, relational, behind, rfl, holds, none⟩, other⟩)
    · exact ⟨operators, operator, [], rfl, relational, by simp⟩
    · refine ⟨before, relational, behind ++ [operator], by simp, holds, ?_⟩
      rw [List.forall_mem_append, List.forall_mem_singleton]
      exact ⟨none, other⟩

theorem related_iff (operators : List Kind) :
    Related operators ↔ operators.foldl relatedBehind false = true := by
  induction operators using List.reverseRecOn with
  | nil => simp [Related]
  | append_singleton operators operator inductionHypothesis =>
    rw [related_concat, inductionHypothesis, List.foldl_append]
    simp [relatedBehind]

instance (operators : List Kind) : Decidable (Related operators) :=
  decidable_of_iff _ (related_iff operators).symm

instance (operators : List Kind) (index : Nat) : Decidable (CrowdedAt operators index) :=
  inferInstanceAs (Decidable (∃ operator, operators[index]? = some operator ∧
    operator.isRelational = true ∧ Related (operators.take index)))

theorem CrowdedAt.lt_length {operators : List Kind} {index : Nat}
    (crowded : CrowdedAt operators index) : index < operators.length := by
  obtain ⟨operator, here, _⟩ := crowded
  exact (List.getElem?_eq_some_iff.mp here).1

instance (operators : List Kind) : Decidable (Separated operators) :=
  decidable_of_iff (∀ index < operators.length, ¬ CrowdedAt operators index) <| by
    rw [separated_iff]
    exact ⟨fun uncrowded index crowded => uncrowded index crowded.lt_length crowded,
      fun uncrowded index _ => uncrowded index⟩

theorem exists_first_crowded {operators : List Kind} (crowded : ¬ Separated operators) :
    ∃ index, CrowdedAt operators index ∧ (∀ earlier < index, ¬ CrowdedAt operators earlier) ∧
      Separated (operators.take index) := by
  have somewhere : ∃ index, CrowdedAt operators index := by
    by_contra none
    rw [separated_iff] at crowded
    exact crowded fun index found => none ⟨index, found⟩
  refine ⟨Nat.find somewhere, Nat.find_spec somewhere, fun _ => Nat.find_min somewhere, ?_⟩
  rw [separated_iff]
  intro earlier found
  exact Nat.find_min somewhere found.of_take.1 found.of_take.2

/-! ## Operands and chains -/

def chainOf (first : List Kind) (further : List (Kind × List Kind)) : List Kind :=
  first ++ further.flatMap fun pair => pair.1 :: pair.2

theorem chainOf_append (first operand : List Kind) (operator : Kind)
    (front back : List (Kind × List Kind)) :
    chainOf first (front ++ (operator, operand) :: back) =
      chainOf first front ++
        operator :: (operand ++ back.flatMap fun pair => pair.1 :: pair.2) := by
  rw [chainOf, chainOf, List.flatMap_append, List.flatMap_cons, List.append_assoc, List.cons_append]

theorem CrowdedAt.exists_split {further : List (Kind × List Kind)} {index : Nat}
    (crowded : CrowdedAt (further.map Prod.fst) index) :
    ∃ operator operand back, further = further.take index ++ (operator, operand) :: back ∧
      (further.map Prod.fst)[index]? = some operator ∧ operator.isRelational = true ∧
      Related ((further.take index).map Prod.fst) := by
  obtain ⟨operator, here, relational, related⟩ := crowded
  rw [← List.map_take] at related
  have mapped := here
  rw [List.getElem?_map, Option.map_eq_some_iff] at mapped
  obtain ⟨⟨operator, operand⟩, pairHere, rfl⟩ := mapped
  obtain ⟨inside, same⟩ := List.getElem?_eq_some_iff.mp pairHere
  refine ⟨operator, operand, further.drop (index + 1), ?_, here, relational, related⟩
  rw [← same, ← List.drop_eq_getElem_cons inside, List.take_append_drop]

inductive Part where
  | operand
  | chain
  | items
deriving DecidableEq, Repr

/-- `Flat part levels kinds` says that `kinds` are this part of an expression, and open at
most `levels` levels inside one another. -/
inductive Flat : Part → Nat → List Kind → Prop where
  | token {levels : Nat} {kind : Kind} :
      kind = .identifier ∨ kind = .intConstant ∨ kind = .floatConstant ∨ kind = .stringConstant →
        Flat .operand levels [kind]
  | parentheses {levels : Nat} {chain : List Kind} :
      Flat .chain levels chain →
        Flat .operand (levels + 1) ([Kind.leftParens] ++ chain ++ [Kind.rightParens])
  | list {levels : Nat} {items : List Kind} :
      Flat .items levels items →
        Flat .operand (levels + 1) ([Kind.openBracket] ++ items ++ [Kind.closeBracket])
  | chain {levels : Nat} {first : List Kind} {further : List (Kind × List Kind)} :
      Flat .operand levels first →
        (∀ pair ∈ further, pair.1.isOperator = true) →
          (∀ pair ∈ further, Flat .operand levels pair.2) →
            Separated (further.map Prod.fst) → Flat .chain levels (chainOf first further)
  | oneItem {levels : Nat} {item : List Kind} :
      Flat .chain levels item → Flat .items levels item
  | anotherItem {levels : Nat} {items item : List Kind} :
      Flat .items levels items → Flat .chain levels item →
        Flat .items levels (items ++ Kind.comma :: item)

/-- Says that `kinds` are an operand, and that the levels it opens can be opened inside of `depth`
others if `limit` levels may be open at once. -/
def OperandFits (limit depth : Nat) (kinds : List Kind) : Prop :=
  ∃ levels, Flat .operand levels kinds ∧ depth + levels ≤ limit

end TemplateRecognizer
