/-!
# Recognition options

What a recognition checks beyond the grammar, and how deep it lets templates
and expressions nest.
-/

set_option autoImplicit false

namespace TemplateRecognizer

/-- How strict one recognition is.  The defaults are the bare grammar: a closing
tag may bear any name, and what follows the template is not looked at. -/
structure Options where
  strictTagNames : Bool := false
  requireEndOfInput : Bool := false
  maxDepth : Nat := 64
deriving DecidableEq, Repr, Inhabited

namespace Options

def strict : Options := ⟨true, true, 64⟩

end Options

end TemplateRecognizer
