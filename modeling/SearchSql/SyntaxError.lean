import SearchSql.Operator
import SearchSql.Token

/-!
# Syntax errors

Reading a statement fails in one way only: at some place something else was expected than was
found.  `SyntaxError` keeps the three, and `SyntaxError.message` puts them into words.
-/

namespace SearchSql

/-- What can be expected at a place of a statement. -/
inductive Expectation where
  | keyword (k : Keyword)
  | identifier
  | integer
  | value
  | operator
  | equalsSign
  | quotedString
  | endOfInput
deriving DecidableEq, Repr

/-- What was expected, in words. -/
def Expectation.describe : Expectation → String
  | .keyword k => k.spelling
  | .identifier => "identifier"
  | .integer => "integer"
  | .value => "value"
  | .operator => "operator"
  | .equalsSign => "'='"
  | .quotedString => "quoted string"
  | .endOfInput => "end of input"

/-- What can be found instead. -/
inductive Found where
  /-- A token. -/
  | token (t : Token)
  /-- A comparison operator, which may be written with two tokens. -/
  | operator (op : Comparison)
  /-- The end of the text. -/
  | endOfText
deriving DecidableEq, Repr

/-- What was found, in words. -/
def Found.describe : Found → String
  | .token t => t.describe
  | .operator op => op.symbol
  | .endOfText => "EOF"

/-- The reason why a text is not a statement. -/
structure SyntaxError where
  expected : Expectation
  found : Found
  /-- The offset of what was found. -/
  position : Nat
deriving DecidableEq, Repr

/-- The error in words. -/
def SyntaxError.message (e : SyntaxError) : String :=
  "Expected " ++ e.expected.describe ++ ", got " ++ e.found.describe

end SearchSql
