import SearchSql.Expr.Grouping
import SearchSql.Reader

/-!
# Reading expressions

* `Reader.name`, `Reader.integer`, `Reader.literal` : parts of statements that are one token.
* `Reader.comparison` : a comparison operator, of one or two tokens.
* `Reader.term` : a quoted string or a comparison, perhaps negated.
* `Reader.expression` : terms joined by connectives, grouped from left to right.
-/

namespace SearchSql

namespace Reader

/-- The name of a field or an index. -/
def name : Reader String := take .identifier Token.name?

/-- Names with commas between them. -/
def names : Reader (List String) := commaList name

/-- A non-negative integer. -/
def integer : Reader Nat := take .integer Token.integer?

/-- The value in a comparison. -/
def literal : Reader Literal := take .value Token.literal?

/-- A quoted string. -/
def quotedString : Reader String := take .quotedString Token.text?

/-- The characters with which a comparison operator starts. -/
inductive OperatorStart where
  | equals
  | bang
  | less
  | greater
deriving DecidableEq, Repr

/-- How a token starts a comparison operator. -/
def operatorStart? : Token → Option OperatorStart
  | .mark '=' => some .equals
  | .mark '!' => some .bang
  | .mark '<' => some .less
  | .mark '>' => some .greater
  | _ => none

/-- A comparison operator.  Its characters are tokens of their own, so there may be a gap
between them. -/
def comparison : Reader Comparison := do
  match ← take .operator operatorStart? with
  | .equals => return .eq
  | .bang =>
    take .equalsSign fun t => if t.isMark '=' then some () else none
    return .ne
  | .less => if ← acceptMark '=' then return .le else return .lt
  | .greater => if ← acceptMark '=' then return .ge else return .gt

/-- A comparison of a field with a value. -/
def compare : Reader Expr := do
  let field ← name
  let op ← comparison
  let value ← literal
  return .compare op field value

/-- A quoted string, which is passed on as it is, or a comparison. -/
def plainTerm : Reader Expr := do
  match ← probe Token.text? with
  | some query => return .text query
  | none => compare

/-- A term, perhaps negated.  A negation reaches over one term only. -/
def term : Reader Expr := do
  if ← acceptKeyword .not then
    let e ← plainTerm
    return .not e
  else
    plainTerm

/-- The connective that a token stands for. -/
def connective? (t : Token) : Option Connective := t.keyword?.bind Connective.ofKeyword?

/-- Terms joined by connectives. -/
def expression : Reader Expr := do
  return .ofRun (← chain term connective?)

end Reader

end SearchSql
