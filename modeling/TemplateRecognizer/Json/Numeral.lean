/-!
# Numbers in JSON

A numeral is an optional sign, digits without a superfluous zero in front, an
optional fraction and an optional exponent.  The longest numeral is read: a
point or a letter behind it that begins neither of the two is left over.
-/

set_option autoImplicit false

namespace TemplateRecognizer

namespace Json

def takeSign : List Char → List Char × List Char
  | '-' :: rest => (['-'], rest)
  | text => ([], text)

/-- The digits before a point: a zero alone, or digits that do not start with one. -/
def takeWhole? : List Char → Option (List Char × List Char)
  | '0' :: rest => some (['0'], rest)
  | text =>
    let digits := text.takeWhile Char.isDigit
    if digits.isEmpty then none else some (digits, text.dropWhile Char.isDigit)

def takeFraction : List Char → List Char × List Char
  | '.' :: rest =>
    let digits := rest.takeWhile Char.isDigit
    if digits.isEmpty then ([], '.' :: rest) else ('.' :: digits, rest.dropWhile Char.isDigit)
  | text => ([], text)

def takeExponentSign : List Char → List Char × List Char
  | '+' :: rest => (['+'], rest)
  | '-' :: rest => (['-'], rest)
  | text => ([], text)

def takeExponent : List Char → List Char × List Char
  | [] => ([], [])
  | letter :: rest =>
    let signed := takeExponentSign rest
    let digits := signed.2.takeWhile Char.isDigit
    if (letter = 'e' ∨ letter = 'E') ∧ digits.isEmpty = false then
      (letter :: signed.1 ++ digits, signed.2.dropWhile Char.isDigit)
    else ([], letter :: rest)

def numeral? (text : List Char) : Option (List Char × List Char) :=
  let sign := takeSign text
  match takeWhole? sign.2 with
  | none => none
  | some (whole, behind) =>
    let fraction := takeFraction behind
    let exponent := takeExponent fraction.2
    some (sign.1 ++ whole ++ fraction.1 ++ exponent.1, exponent.2)

/-! ## A numeral covers at least one digit -/

theorem length_takeSign_le (text : List Char) : (takeSign text).2.length ≤ text.length := by
  unfold takeSign
  split <;> simp

theorem length_takeExponentSign_le (text : List Char) :
    (takeExponentSign text).2.length ≤ text.length := by
  unfold takeExponentSign
  split <;> simp

theorem length_takeFraction_le (text : List Char) :
    (takeFraction text).2.length ≤ text.length := by
  unfold takeFraction
  split
  · rename_i rest
    have shorter := (List.dropWhile_sublist (l := rest) Char.isDigit).length_le
    dsimp only
    split <;> simp only [List.length_cons] <;> omega
  · exact Nat.le_refl _

theorem length_takeExponent_le (text : List Char) :
    (takeExponent text).2.length ≤ text.length := by
  unfold takeExponent
  split
  · exact Nat.le_refl _
  · rename_i letter rest
    have shorter := (List.dropWhile_sublist (l := (takeExponentSign rest).2) Char.isDigit).length_le
    have signed := length_takeExponentSign_le rest
    dsimp only
    split <;> simp only [List.length_cons] <;> omega

theorem length_takeWhole?_lt {text whole behind : List Char}
    (read : takeWhole? text = some (whole, behind)) : behind.length < text.length := by
  unfold takeWhole? at read
  split at read
  · cases read
    simp
  · dsimp only at read
    split at read
    · cases read
    · rename_i present
      cases read
      have together : (text.takeWhile Char.isDigit ++ text.dropWhile Char.isDigit).length =
          text.length := congrArg List.length List.takeWhile_append_dropWhile
      rw [List.length_append] at together
      have positive : 0 < (text.takeWhile Char.isDigit).length :=
        List.length_pos_iff.mpr fun empty => present (by simp [empty])
      omega

theorem length_numeral?_lt {text numeral behind : List Char}
    (read : numeral? text = some (numeral, behind)) : behind.length < text.length := by
  unfold numeral? at read
  dsimp only at read
  split at read
  · cases read
  · rename_i whole afterWhole readWhole
    cases read
    have signed := length_takeSign_le text
    have covered := length_takeWhole?_lt readWhole
    have fraction := length_takeFraction_le afterWhole
    have exponent := length_takeExponent_le (takeFraction afterWhole).2
    omega

end Json

end TemplateRecognizer
