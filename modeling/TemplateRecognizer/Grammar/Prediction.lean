import TemplateRecognizer.Grammar.Symbol

/-!
# Predicting a phrase by its next token

One token tells how a phrase goes on: whether a repetition continues, which of
several statements follows, what an operand is.  `Phrase.expand` is that
choice, and the whole grammar stands in it.  A phrase that may be empty is empty
whenever the next token does not continue it, and every other phrase waits for
what it must begin with, so that only a directive can be refused outright.
-/

set_option autoImplicit false

namespace TemplateRecognizer

namespace Phrase

/-- The symbols that a phrase stands for when a token of kind `ahead` is next,
or nothing when no directive begins so. -/
def expand (ahead : Kind) : Phrase → Option (List Symbol)
  | tags => match ahead with
    | .lessThan => some [tag, tags]
    | _ => some []
  | tag => some [.token .lessThan, .openingName]
  | statements => match ahead with
    | .openBrace => some [statement, statements]
    | _ => some []
  | statement => some [.token .openBrace, directive]
  | directive => match ahead with
    | .openBrace => some [.token .openBrace, equality, .token .closeBrace, .token .closeBrace]
    | .percentage => some [conditional]
    | .hyphen => some [loop]
    | _ => none
  | conditional => some
      [.token .percentage, .token .ifKeyword, equality, .token .percentage, .token .closeBrace,
        body,
        .token .openBrace, .token .percentage, .token .endIfKeyword, .token .percentage,
        .token .closeBrace]
  | loop => some
      [.token .hyphen, .token .percentage, .token .forEachKeyword, .token .identifier,
        .token .inKeyword, .token .identifier, .token .percentage, .token .closeBrace,
        body,
        .token .openBrace, .token .percentage, .token .endForEachKeyword, .token .percentage,
        .token .closeBrace]
  | body => some [.enter, tag, tags, .leave]
  | equality => some [relation, equalityRest]
  | equalityRest => match ahead with
    | .equal => some [.token .equal, relation, equalityRest]
    | .notEqual => some [.token .notEqual, relation, equalityRest]
    | _ => some []
  | relation => some [sum, relationRest]
  | relationRest => match ahead with
    | .lessThan => some [.token .lessThan, sum]
    | .greaterThan => some [.token .greaterThan, sum]
    | _ => some []
  | sum => some [product, sumRest]
  | sumRest => match ahead with
    | .plus => some [.token .plus, product, sumRest]
    | .hyphen => some [.token .hyphen, product, sumRest]
    | _ => some []
  | product => some [operand, productRest]
  | productRest => match ahead with
    | .asterisk => some [.token .asterisk, operand, productRest]
    | .slash => some [.token .slash, operand, productRest]
    | _ => some []
  | operand => match ahead with
    | .leftParens => some [.enter, .token .leftParens, equality, .token .rightParens, .leave]
    | .openBracket => some [.enter, .token .openBracket, items, .token .closeBracket, .leave]
    | .intConstant => some [.token .intConstant]
    | .floatConstant => some [.token .floatConstant]
    | .stringConstant => some [.token .stringConstant]
    | _ => some [.token .identifier]
  | items => some [equality, itemsRest]
  | itemsRest => match ahead with
    | .comma => some [.token .comma, equality, itemsRest]
    | _ => some []

/-- Only a directive can be refused, and it is refused by every token that
begins none of the three statements. -/
theorem expand_eq_none_iff (ahead : Kind) (phrase : Phrase) :
    phrase.expand ahead = none ↔
      phrase = directive ∧ ahead ≠ .openBrace ∧ ahead ≠ .percentage ∧ ahead ≠ .hyphen := by
  cases phrase <;> cases ahead <;> simp [expand]

end Phrase

/-- What follows the name of an opening tag, up to the end of its element. -/
def Symbol.afterOpeningName (name : String) : List Symbol :=
  [.token .greaterThan, Phrase.statements, .token .lessThan, .token .slash, .closingName name,
    .token .greaterThan]

end TemplateRecognizer
