/-!
# Kinds of token

The grammar decides by kinds alone, so the set is closed: what no other kind
covers is `unknown`, and the end of a text is a kind of its own.  This module
holds the kinds, their names, their fixed spellings and the reserved words.
-/

set_option autoImplicit false

namespace TemplateRecognizer

/-- The kinds of token, in their fixed order. -/
inductive Kind where
  | openBracket
  | closeBracket
  | lessThan
  | greaterThan
  | slash
  | identifier
  | openBrace
  | closeBrace
  | percentage
  | hyphen
  | equal
  | notEqual
  | plus
  | asterisk
  | leftParens
  | rightParens
  | comma
  | intConstant
  | floatConstant
  | stringConstant
  | ifKeyword
  | endIfKeyword
  | forEachKeyword
  | endForEachKeyword
  | inKeyword
  | intKeyword
  | floatKeyword
  | stringKeyword
  | intListKeyword
  | floatListKeyword
  | stringListKeyword
  | unknown
  | eof
deriving DecidableEq, Repr

namespace Kind

def all : List Kind :=
  [openBracket, closeBracket, lessThan, greaterThan, slash, identifier, openBrace, closeBrace,
    percentage, hyphen, equal, notEqual, plus, asterisk, leftParens, rightParens, comma,
    intConstant, floatConstant, stringConstant, ifKeyword, endIfKeyword, forEachKeyword,
    endForEachKeyword, inKeyword, intKeyword, floatKeyword, stringKeyword, intListKeyword,
    floatListKeyword, stringListKeyword, unknown, eof]

def name : Kind → String
  | openBracket => "OpenBracket"
  | closeBracket => "CloseBracket"
  | lessThan => "LessThan"
  | greaterThan => "GreaterThan"
  | slash => "Slash"
  | identifier => "Identifier"
  | openBrace => "OpenBrace"
  | closeBrace => "CloseBrace"
  | percentage => "Percentage"
  | hyphen => "Hyphen"
  | equal => "Equal"
  | notEqual => "NotEqual"
  | plus => "Plus"
  | asterisk => "Asterisk"
  | leftParens => "LeftParens"
  | rightParens => "RightParens"
  | comma => "Comma"
  | intConstant => "IntConstant"
  | floatConstant => "FloatConstant"
  | stringConstant => "StringConstant"
  | ifKeyword => "IfKeyword"
  | endIfKeyword => "EndIfKeyword"
  | forEachKeyword => "ForEachKeyword"
  | endForEachKeyword => "EndForEachKeyword"
  | inKeyword => "InKeyword"
  | intKeyword => "IntKeyword"
  | floatKeyword => "FloatKeyword"
  | stringKeyword => "StringKeyword"
  | intListKeyword => "IntListKeyword"
  | floatListKeyword => "FloatListKeyword"
  | stringListKeyword => "StringListKeyword"
  | unknown => "Unknown"
  | eof => "Eof"

/-- The kind of this name.  Case matters. -/
def ofName? (name : String) : Option Kind :=
  all.find? fun kind => kind.name == name

/-- The one spelling of a kind whose tokens are all written alike. -/
def symbol? : Kind → Option String
  | openBracket => some "["
  | closeBracket => some "]"
  | lessThan => some "<"
  | greaterThan => some ">"
  | slash => some "/"
  | openBrace => some "\x7b"
  | closeBrace => some "\x7d"
  | percentage => some "%"
  | hyphen => some "-"
  | equal => some "=="
  | notEqual => some "!="
  | plus => some "+"
  | asterisk => some "*"
  | leftParens => some "("
  | rightParens => some ")"
  | comma => some ","
  | ifKeyword => some "if"
  | endIfKeyword => some "endif"
  | forEachKeyword => some "foreach"
  | endForEachKeyword => some "endforeach"
  | inKeyword => some "in"
  | intKeyword => some "int"
  | floatKeyword => some "float"
  | stringKeyword => some "string"
  | intListKeyword => some "intlist"
  | floatListKeyword => some "floatlist"
  | stringListKeyword => some "stringlist"
  | identifier | intConstant | floatConstant | stringConstant | unknown | eof => none

def carriesText : Kind → Bool
  | identifier | intConstant | floatConstant | stringConstant | unknown => true
  | _ => false

def isTypeKeyword : Kind → Bool
  | intKeyword | floatKeyword | stringKeyword
  | intListKeyword | floatListKeyword | stringListKeyword => true
  | _ => false

def isKeyword : Kind → Bool
  | ifKeyword | endIfKeyword | forEachKeyword | endForEachKeyword | inKeyword => true
  | kind => kind.isTypeKeyword

def ofKeyword? (word : String) : Option Kind :=
  all.find? fun kind => kind.isKeyword && kind.symbol? == some word

def ofPunctuation? : Char → Option Kind
  | '[' => some openBracket
  | ']' => some closeBracket
  | '<' => some lessThan
  | '>' => some greaterThan
  | '/' => some slash
  | '\x7b' => some openBrace
  | '\x7d' => some closeBrace
  | '%' => some percentage
  | '-' => some hyphen
  | '+' => some plus
  | '*' => some asterisk
  | '(' => some leftParens
  | ')' => some rightParens
  | ',' => some comma
  | _ => none

theorem mem_all (kind : Kind) : kind ∈ all := by
  cases kind <;> decide

theorem ofName?_name (kind : Kind) : ofName? kind.name = some kind := by
  cases kind <;> decide

theorem name_injective {kind other : Kind} (same : kind.name = other.name) : kind = other :=
  Option.some.inj ((ofName?_name kind).symm.trans (same ▸ ofName?_name other))

/-- A kind has a spelling of its own exactly when its tokens need no text, the
end of input apart. -/
theorem symbol?_isSome (kind : Kind) :
    kind.symbol?.isSome = (!kind.carriesText && kind != .eof) := by
  cases kind <;> decide

end Kind

end TemplateRecognizer
