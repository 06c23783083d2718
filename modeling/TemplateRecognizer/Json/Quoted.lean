/-!
# Strings in JSON

In a written string only a quote, a backslash and the control characters below
U+0020 are escaped: five of these have an escape of one letter, and the others
are written by their number.

A read string may name any character by its UTF-16 code, and one outside the
basic plane by two codes that belong together.  Half of such a pair is read, but
gives its string no text.
-/

set_option autoImplicit false

namespace TemplateRecognizer

namespace Json

/-! ## Writing -/

def hexDigit (value : Nat) : Char :=
  if value < 10 then Char.ofNat (48 + value) else Char.ofNat (87 + value)

def escape (character : Char) : List Char :=
  if character = '\x22' then ['\\', '\x22']
  else if character = '\\' then ['\\', '\\']
  else if character = '\x08' then ['\\', 'b']
  else if character = '\x0c' then ['\\', 'f']
  else if character = '\n' then ['\\', 'n']
  else if character = '\r' then ['\\', 'r']
  else if character = '\t' then ['\\', 't']
  else if character.toNat < 32 then
    ['\\', 'u', '0', '0', hexDigit (character.toNat / 16), hexDigit (character.toNat % 16)]
  else [character]

def quote (text : String) : List Char :=
  '\x22' :: text.toList.flatMap escape ++ ['\x22']

/-! ## Reading -/

/-- The value of a hexadecimal digit, in either case. -/
def hexValue? (digit : Char) : Option Nat :=
  if digit.isDigit then some (digit.toNat - 48)
  else if 'a' ≤ digit ∧ digit ≤ 'f' then some (digit.toNat - 87)
  else if 'A' ≤ digit ∧ digit ≤ 'F' then some (digit.toNat - 55)
  else none

def hexCode? (first second third fourth : Char) : Option Nat := do
  let high ← hexValue? first
  let upper ← hexValue? second
  let lower ← hexValue? third
  let low ← hexValue? fourth
  some (((high * 16 + upper) * 16 + lower) * 16 + low)

def escaped? : Char → Option Char
  | '\x22' => some '\x22'
  | '\\' => some '\\'
  | '/' => some '/'
  | 'b' => some '\x08'
  | 'f' => some '\x0c'
  | 'n' => some '\n'
  | 'r' => some '\r'
  | 't' => some '\t'
  | _ => none

/-- The codes of a string up to its closing quote, and the text behind it. -/
def codes? : List Char → Option (List Nat × List Char)
  | [] => none
  | '\x22' :: rest => some ([], rest)
  | '\\' :: 'u' :: first :: second :: third :: fourth :: rest =>
    match hexCode? first second third fourth, codes? rest with
    | some code, some (codes, behind) => some (code :: codes, behind)
    | _, _ => none
  | '\\' :: letter :: rest =>
    match escaped? letter, codes? rest with
    | some character, some (codes, behind) => some (character.toNat :: codes, behind)
    | _, _ => none
  | character :: rest =>
    if character.toNat < 32 ∨ character = '\\' then none
    else match codes? rest with
      | some (codes, behind) => some (character.toNat :: codes, behind)
      | none => none

def isHighSurrogate (code : Nat) : Bool := 0xD800 ≤ code && code < 0xDC00

def isLowSurrogate (code : Nat) : Bool := 0xDC00 ≤ code && code < 0xE000

/-- The characters of a sequence of codes, if every surrogate is part of a pair. -/
def decode? : List Nat → Option (List Char)
  | [] => some []
  | [code] =>
    if isHighSurrogate code || isLowSurrogate code then none else some [Char.ofNat code]
  | code :: next :: rest =>
    if isHighSurrogate code then
      if isLowSurrogate next then
        (decode? rest).map (Char.ofNat (0x10000 + (code - 0xD800) * 1024 + (next - 0xDC00)) :: ·)
      else none
    else if isLowSurrogate code then none
    else (decode? (next :: rest)).map (Char.ofNat code :: ·)

/-! ### Reading a string covers at least its closing quote -/

theorem length_codes?_lt {text : List Char} {codes : List Nat} {behind : List Char}
    (read : codes? text = some (codes, behind)) : behind.length < text.length := by
  fun_induction codes? text generalizing codes behind with
  | case2 rest =>
    cases read
    simp
  | case3 first second third fourth rest code furtherCodes furtherBehind readRest readCode
      inductionHypothesis =>
    cases read
    have shorter := inductionHypothesis readRest
    simp only [List.length_cons]
    omega
  | case5 letter rest notCode character furtherCodes furtherBehind readRest readLetter
      inductionHypothesis =>
    cases read
    have shorter := inductionHypothesis readRest
    simp only [List.length_cons]
    omega
  | case8 character rest notQuote notCode notLetter allowed furtherCodes furtherBehind readRest
      inductionHypothesis =>
    cases read
    have shorter := inductionHypothesis readRest
    simp only [List.length_cons]
    omega
  | _ => simp at read

end Json

end TemplateRecognizer
