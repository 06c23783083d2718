/-!
# Named constructs and their validators

Some constructs are not settled by the grammar: a validator is asked whether
the construct of that name may stand where it was met.
-/

set_option autoImplicit false

namespace TemplateRecognizer

inductive Construct where
  | block
  | code
  | assignations
  | assignation
deriving DecidableEq, Repr

namespace Construct

def all : List Construct := [block, code, assignations, assignation]

def tag : Construct → String
  | block => "block"
  | code => "code"
  | assignations => "assignations"
  | assignation => "assignation"

/-- The construct of this name.  Case matters. -/
def ofTag? (tag : String) : Option Construct :=
  all.find? fun construct => construct.tag == tag

theorem ofTag?_tag (construct : Construct) : ofTag? construct.tag = some construct := by
  cases construct <;> decide

end Construct

/-- Decides by name which constructs may stand. -/
abbrev Validator := String → Bool

namespace Validator

def acceptAll : Validator := fun _ => true

def allowing (names : List String) : Validator := fun name => names.contains name

end Validator

end TemplateRecognizer
