import TemplateRecognizer.Token.Kind

/-!
# The grammar as a relation

This module says which sequences of kinds the grammar derives, and how deeply
they nest, without saying how they are recognized.  Every repetition grows at
its end, so an operator takes all that stands to its left as its left operand.

A level of nesting is the body of a conditional or of a loop, an expression in
parentheses or a list.
-/

set_option autoImplicit false

namespace TemplateRecognizer

inductive Category where
  /-- One tag or more. -/
  | template
  | tag
  | statements
  | statement
  | equality
  | relation
  | sum
  | product
  | operand
  /-- The items of a list, one or more. -/
  | items
deriving DecidableEq, Repr

/-- `Derives category levels kinds` says that `kinds` is a phrase of `category`
that opens at most `levels` levels inside one another. -/
inductive Derives : Category → Nat → List Kind → Prop where
  | oneTag {levels : Nat} {tag : List Kind} :
      Derives .tag levels tag → Derives .template levels tag
  | anotherTag {levels : Nat} {tags tag : List Kind} :
      Derives .template levels tags → Derives .tag levels tag →
        Derives .template levels (tags ++ tag)
  | tag {levels : Nat} {statements : List Kind} :
      Derives .statements levels statements →
        Derives .tag levels
          ([.lessThan, .identifier, .greaterThan] ++ statements ++
            [.lessThan, .slash, .identifier, .greaterThan])
  | noStatement {levels : Nat} : Derives .statements levels []
  | anotherStatement {levels : Nat} {statements statement : List Kind} :
      Derives .statements levels statements → Derives .statement levels statement →
        Derives .statements levels (statements ++ statement)
  | interpolation {levels : Nat} {value : List Kind} :
      Derives .equality levels value →
        Derives .statement levels
          ([.openBrace, .openBrace] ++ value ++ [.closeBrace, .closeBrace])
  | conditional {levels : Nat} {condition body : List Kind} :
      Derives .equality (levels + 1) condition → Derives .template levels body →
        Derives .statement (levels + 1)
          ([.openBrace, .percentage, .ifKeyword] ++ condition ++ [.percentage, .closeBrace] ++
            body ++ [.openBrace, .percentage, .endIfKeyword, .percentage, .closeBrace])
  | loop {levels : Nat} {body : List Kind} :
      Derives .template levels body →
        Derives .statement (levels + 1)
          ([.openBrace, .hyphen, .percentage, .forEachKeyword, .identifier, .inKeyword,
              .identifier, .percentage, .closeBrace] ++
            body ++ [.openBrace, .percentage, .endForEachKeyword, .percentage, .closeBrace])
  | oneRelation {levels : Nat} {relation : List Kind} :
      Derives .relation levels relation → Derives .equality levels relation
  | anotherRelation {levels : Nat} {left right : List Kind} {operator : Kind} :
      operator = .equal ∨ operator = .notEqual →
        Derives .equality levels left → Derives .relation levels right →
          Derives .equality levels (left ++ operator :: right)
  | oneSum {levels : Nat} {sum : List Kind} :
      Derives .sum levels sum → Derives .relation levels sum
  | twoSums {levels : Nat} {left right : List Kind} {operator : Kind} :
      operator = .lessThan ∨ operator = .greaterThan →
        Derives .sum levels left → Derives .sum levels right →
          Derives .relation levels (left ++ operator :: right)
  | oneProduct {levels : Nat} {product : List Kind} :
      Derives .product levels product → Derives .sum levels product
  | anotherProduct {levels : Nat} {left right : List Kind} {operator : Kind} :
      operator = .plus ∨ operator = .hyphen →
        Derives .sum levels left → Derives .product levels right →
          Derives .sum levels (left ++ operator :: right)
  | oneOperand {levels : Nat} {operand : List Kind} :
      Derives .operand levels operand → Derives .product levels operand
  | anotherOperand {levels : Nat} {left right : List Kind} {operator : Kind} :
      operator = .asterisk ∨ operator = .slash →
        Derives .product levels left → Derives .operand levels right →
          Derives .product levels (left ++ operator :: right)
  | name {levels : Nat} : Derives .operand levels [.identifier]
  | constant {levels : Nat} {kind : Kind} :
      kind = .intConstant ∨ kind = .floatConstant ∨ kind = .stringConstant →
        Derives .operand levels [kind]
  | parentheses {levels : Nat} {value : List Kind} :
      Derives .equality levels value →
        Derives .operand (levels + 1) ([.leftParens] ++ value ++ [.rightParens])
  | list {levels : Nat} {items : List Kind} :
      Derives .items levels items →
        Derives .operand (levels + 1) ([.openBracket] ++ items ++ [.closeBracket])
  | oneItem {levels : Nat} {item : List Kind} :
      Derives .equality levels item → Derives .items levels item
  | anotherItem {levels : Nat} {items item : List Kind} :
      Derives .items levels items → Derives .equality levels item →
        Derives .items levels (items ++ .comma :: item)

namespace Derives

theorem mono {category : Category} {few many : Nat} {kinds : List Kind}
    (derived : Derives category few kinds) (fewer : few ≤ many) :
    Derives category many kinds := by
  induction derived generalizing many with
  | oneTag _ tag => exact .oneTag (tag fewer)
  | anotherTag _ _ tags tag => exact .anotherTag (tags fewer) (tag fewer)
  | tag _ statements => exact .tag (statements fewer)
  | noStatement => exact .noStatement
  | anotherStatement _ _ statements statement =>
    exact .anotherStatement (statements fewer) (statement fewer)
  | interpolation _ value => exact .interpolation (value fewer)
  | conditional _ _ condition body =>
    obtain ⟨more, rfl⟩ := Nat.exists_eq_add_of_le' (Nat.le_trans (Nat.le_add_left 1 _) fewer)
    exact .conditional (condition fewer) (body (Nat.le_of_succ_le_succ fewer))
  | loop _ body =>
    obtain ⟨more, rfl⟩ := Nat.exists_eq_add_of_le' (Nat.le_trans (Nat.le_add_left 1 _) fewer)
    exact .loop (body (Nat.le_of_succ_le_succ fewer))
  | oneRelation _ relation => exact .oneRelation (relation fewer)
  | anotherRelation operator _ _ left right =>
    exact .anotherRelation operator (left fewer) (right fewer)
  | oneSum _ sum => exact .oneSum (sum fewer)
  | twoSums operator _ _ left right => exact .twoSums operator (left fewer) (right fewer)
  | oneProduct _ product => exact .oneProduct (product fewer)
  | anotherProduct operator _ _ left right =>
    exact .anotherProduct operator (left fewer) (right fewer)
  | oneOperand _ operand => exact .oneOperand (operand fewer)
  | anotherOperand operator _ _ left right =>
    exact .anotherOperand operator (left fewer) (right fewer)
  | name => exact .name
  | constant kind => exact .constant kind
  | parentheses _ value =>
    obtain ⟨more, rfl⟩ := Nat.exists_eq_add_of_le' (Nat.le_trans (Nat.le_add_left 1 _) fewer)
    exact .parentheses (value (Nat.le_of_succ_le_succ fewer))
  | list _ items =>
    obtain ⟨more, rfl⟩ := Nat.exists_eq_add_of_le' (Nat.le_trans (Nat.le_add_left 1 _) fewer)
    exact .list (items (Nat.le_of_succ_le_succ fewer))
  | oneItem _ item => exact .oneItem (item fewer)
  | anotherItem _ _ items item => exact .anotherItem (items fewer) (item fewer)

end Derives

end TemplateRecognizer
