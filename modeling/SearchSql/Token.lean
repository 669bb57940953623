import SearchSql.Keyword
import SearchSql.Literal

/-!
# Tokens

* `Token` : the units of which a statement is made.
* `Token.describe` : a token as error messages show it.
* `Token.Located` : a token with its place in the text; places count characters from 0.
* The parts that a token can play in a statement: `Token.keyword?`, `Token.name?`,
  `Token.integer?`, `Token.literal?`, `Token.text?` and `Token.isMark`.  Whether a word is a
  keyword is not settled by its token but by the place it stands at.
-/

namespace SearchSql

/-- A unit of a statement's text. -/
inductive Token where
  /-- A run of word characters. -/
  | word (text : String)
  /-- A quoted string; the text is what the string stands for. -/
  | quoted (text : String)
  /-- A run of word characters that is the notation of a number. -/
  | number (value : Decimal)
  /-- Any other character that is not skipped. -/
  | mark (sign : Char)
deriving DecidableEq, Repr

namespace Token

/-- A token as error messages show it. -/
def describe : Token → String
  | .word text => text
  | .quoted text => "\"" ++ text ++ "\""
  | .number value => "number " ++ value.toText
  | .mark sign => "'" ++ String.singleton sign ++ "'"

/-- The token of a run of word characters: a number if the run is the notation of one. -/
def ofWord (run : List Char) : Token :=
  match Decimal.ofDigits? run with
  | some d => .number d
  | none => .word (String.ofList run)

/-- A token with the offset of its first character in the text. -/
structure Located where
  token : Token
  start : Nat
deriving DecidableEq, Repr

/-! ### The parts a token can play -/

/-- The keyword that a token spells. -/
def keyword? : Token → Option Keyword
  | .word text => Keyword.ofWord? text
  | _ => none

/-- The name of a field or an index: a word that is not reserved, or a number as it is
written. -/
def name? : Token → Option String
  | .word text => if (Keyword.ofWord? text).isNone then some text else none
  | .number value => some value.toText
  | _ => none

/-- The greatest integer that a statement can hold, which has 32 bits. -/
def maxInteger : Nat := 4294967295

/-- An integer if it is in range. -/
def inRange? (n : Nat) : Option Nat := if n ≤ maxInteger then some n else none

/-- A non-negative integer: a number without fraction digits, or a word of digits only, which
has superfluous leading zeros or is out of the range of numbers. -/
def integer? : Token → Option Nat
  | .number d => if d.scale = 0 ∧ d.negative = false then inRange? d.coefficient else none
  | .word text =>
    if text ≠ "" ∧ text.toList.all Char.isDigit then inRange? (Nat.ofDigitChars 10 text.toList 0)
    else none
  | _ => none

/-- The right-hand side of a comparison: a quoted string, a number, or a word that starts with a
digit. -/
def literal? : Token → Option Literal
  | .quoted text => some (.text text)
  | .number d => some (.number d)
  | .word text => if text.toList.head?.any Char.isDigit then some (.text text) else none
  | .mark _ => none

/-- The text of a quoted string. -/
def text? : Token → Option String
  | .quoted text => some text
  | _ => none

/-- The token is the single character `c`. -/
def isMark (c : Char) (t : Token) : Bool := t == .mark c

end Token

end SearchSql
