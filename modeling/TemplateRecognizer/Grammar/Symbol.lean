import TemplateRecognizer.Token.Kind

/-!
# Grammar symbols

A template is one or more tags.  A tag holds statements, and a statement is an
interpolated expression, a conditional or a loop; the last two hold templates
again.  Expressions have four levels of operators, loosest first: equality,
relation, sum and product.

The symbols below are what a recognizer can still be waiting for.  Beside the
tokens and the phrases of the grammar there are two names, which are more than
identifiers since the second must fit the first, and the two ends of a level of
nesting, which cover no token.
-/

set_option autoImplicit false

namespace TemplateRecognizer

inductive Phrase where
  | tags
  | tag
  | statements
  | statement
  /-- A statement without its opening brace. -/
  | directive
  | conditional
  | loop
  | body
  | equality
  | equalityRest
  | relation
  /-- At most one further operand of a relation. -/
  | relationRest
  | sum
  | sumRest
  | product
  | productRest
  | operand
  | items
  | itemsRest
deriving DecidableEq, Repr

inductive Symbol where
  /-- One token of this kind.  The end of input is never waited for here. -/
  | token (kind : Kind) (visible : kind ≠ .eof := by decide)
  | openingName
  /-- The name of the closing tag that belongs to an opening tag of this name. -/
  | closingName (opening : String)
  | enter
  | leave
  | phrase (phrase : Phrase)
deriving DecidableEq, Repr

instance : Coe Phrase Symbol := ⟨Symbol.phrase⟩

end TemplateRecognizer
