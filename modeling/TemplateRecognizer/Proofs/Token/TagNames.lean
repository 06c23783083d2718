import TemplateRecognizer.Token.Basic

/-!
# The names that tags bear

Names of tags can be told from other identifiers by their place alone.  Braces hold statements,
and so all identifiers outside of braces name tags: one behind a slash closes a tag, and any
other opens one.  A closing name belongs to the innermost tag that is still open.
-/

set_option autoImplicit false

namespace TemplateRecognizer

inductive Place where
  /-- Outside of braces, and not right behind a slash. -/
  | outside
  | behindSlash
  /-- Behind one opening brace, and behind so many more, that are not closed. -/
  | inside (further : Nat)
deriving DecidableEq, Repr

def Place.behind : Place → Kind → Place
  | .outside, .openBrace => .inside 0
  | .outside, .slash => .behindSlash
  | .behindSlash, _ => .outside
  | .inside further, .openBrace => .inside (further + 1)
  | .inside further, .closeBrace => match further with
    | 0 => .outside
    | less + 1 => .inside less
  | place, _ => place

structure TagNames where
  opening : Token
  closing : Token
deriving DecidableEq, Repr

/-- Holds of two names that have other texts, an absent text counting as empty. -/
def TagNames.differ (names : TagNames) : Bool :=
  names.opening.textOrEmpty != names.closing.textOrEmpty

/-- The names of the tags that some tokens close, if the first of them stands at a place and
behind the names `opened` of tags that are open, innermost first. -/
def tagNamesFrom (place : Place) (opened : List Token) : List Token → List TagNames
  | [] => []
  | token :: rest => match place, token.kind, opened with
    | .outside, .identifier, opened => tagNamesFrom .outside (token :: opened) rest
    | .behindSlash, .identifier, name :: opened =>
      ⟨name, token⟩ :: tagNamesFrom .outside opened rest
    | place, kind, opened => tagNamesFrom (place.behind kind) opened rest

def tagNames (tokens : List Token) : List TagNames := tagNamesFrom .outside [] tokens

section

variable {token : Token} {opened rest : List Token}

theorem tagNamesFrom_opening (name : token.kind = .identifier) :
    tagNamesFrom .outside opened (token :: rest) =
      tagNamesFrom .outside (token :: opened) rest := by
  simp only [tagNamesFrom, name]

theorem tagNamesFrom_closing {opening : Token} (name : token.kind = .identifier) :
    tagNamesFrom .behindSlash (opening :: opened) (token :: rest) =
      ⟨opening, token⟩ :: tagNamesFrom .outside opened rest := by
  simp only [tagNamesFrom, name]

theorem tagNamesFrom_other {place : Place}
    (inside : token.kind = .identifier → ∃ further, place = .inside further) :
    tagNamesFrom place opened (token :: rest) =
      tagNamesFrom (place.behind token.kind) opened rest := by
  rw [tagNamesFrom]
  · rintro rfl name
    obtain ⟨further, within⟩ := inside name
    cases within
  · rintro opening opened' rfl name
    obtain ⟨further, within⟩ := inside name
    cases within

end

/-- Names inside of braces are variables, whatever stands before them. -/
example (position : Position) :
    let token := fun kind text => Token.mk kind (some text) position
    (tagNames [token .lessThan "<", token .identifier "p", token .greaterThan ">",
      token .openBrace "\x7b", token .openBrace "\x7b", token .identifier "a",
      token .lessThan "<", token .identifier "b", token .closeBrace "\x7d",
      token .closeBrace "\x7d", token .lessThan "<", token .slash "/",
      token .identifier "q"]).map
        (fun names => (names.opening.textOrEmpty, names.closing.textOrEmpty)) = [("p", "q")] :=
  rfl

end TemplateRecognizer
