import SearchSql.Statement.Reading
import SearchSql.Walk

/-!
# Reading statements where a cursor stands

Each part of a statement, read by moving a cursor.  A walk that is not sure what it will find looks
at a token and puts it back; where no other part can stand, it has that token handed out once more
and reports it.

* `Walk.name`, `Walk.names`, `Walk.integer`, `Walk.literal`, `Walk.comparison`, `Walk.expression` :
  the parts of statements.
* `Walk.statement` : a whole statement.
-/

namespace SearchSql

namespace Walk

/-- The name of a field or an index. -/
def name : Walk String := do
  match ← probe Token.name? with
  | some n => return n
  | none => refuse .identifier

/-- Names with commas between them. -/
def names : Walk (List String) := commaList name

/-- A non-negative integer. -/
def integer : Walk Nat := take .integer Token.integer?

/-- The value in a comparison. -/
def literal : Walk Literal := take .value Token.literal?

/-- A quoted string. -/
def quotedString : Walk String := take .quotedString Token.text?

/-! ### Expressions -/

/-- A comparison operator. -/
def comparison : Walk Comparison := do
  match ← take .operator Reader.operatorStart? with
  | .equals => return .eq
  | .bang =>
    take .equalsSign fun t => if t.isMark '=' then some () else none
    return .ne
  | .less => if ← acceptMark '=' then return .le else return .lt
  | .greater => if ← acceptMark '=' then return .ge else return .gt

/-- A comparison of a field with a value. -/
def compare : Walk Expr := do
  let field ← name
  let op ← comparison
  let value ← literal
  return .compare op field value

/-- A quoted string, which is passed on as it is, or a comparison. -/
def plainTerm : Walk Expr := do
  match ← probe Token.text? with
  | some query => return .text query
  | none => compare

/-- A term, perhaps negated. -/
def term : Walk Expr := do
  let negated ← acceptKeyword .not
  let e ← plainTerm
  return if negated then .not e else e

/-- Terms joined by connectives.  The last term is held back until it is known whether a connective
follows it. -/
def expression : Walk Expr := do
  let (grouping, last) ← gather term Reader.connective? (fun e => (Grouping.start, e))
    fun s ce => (s.1.push s.2 ce.1, ce.2)
  return grouping.finish last

/-! ### Clauses -/

/-- The fields to return: names, or a star for all fields. -/
def selection : Walk (Option (List String)) := do
  if ← acceptMark '*' then
    return none
  else
    let fields ← names
    return some fields

/-- A script field.  The place of the operator is looked up before the operator is taken. -/
def scriptField : Walk ScriptField := do
  let field ← name
  let start ← position
  let op ← comparison
  if op = .eq then
    let body ← quotedString
    return ⟨field, body⟩
  else
    fail ⟨.equalsSign, .operator op, start⟩

/-- The condition of a filter: a test for the presence of a field, or an expression. -/
def filterCondition : Walk Expr := do
  if ← acceptKeyword .exist then
    let field ← name
    return .present field
  else if ← acceptKeyword .missing then
    let field ← name
    return .missing field
  else
    expression

/-- A field to sort by, in ascending order unless stated otherwise. -/
def sortKey : Walk SortKey := do
  let field ← name
  let direction ← probe Reader.direction?
  return ⟨field, direction.getD .asc⟩

/-- The body of an `ORDER` clause. -/
def sortKeys : Walk (List SortKey) := do
  keyword .by
  commaList sortKey

/-- The body of a `LIMIT` clause. -/
def page : Walk (Option Nat × Nat) := do
  let first ← integer
  if ← acceptMark ',' then
    let second ← integer
    return (some first, second)
  else
    return (none, first)

/-! ### Statements -/

/-- The part of a statement from `FROM` on, which completes the parts that stand before it. -/
def search (fields facets : Option (List String)) (script : Option ScriptField) :
    Walk Statement := do
  keyword .from
  let index ← name
  let condition ← clause .where expression
  let filter ← clause .filter filterCondition
  let order ← clause .order sortKeys
  let hits ← clause .limit page
  finish
  let plain : Statement := { index, fields, facets, script, condition, filter, order }
  match hits with
  | none => return plain
  | some (none, limit) => return { plain with limit }
  | some (some offset, limit) => return { plain with offset, limit }

/-- A whole statement. -/
def statement : Walk Statement := do
  keyword .select
  let fields ← selection
  let facets ← clause .facets names
  let script ← clause .script scriptField
  search fields facets script

end Walk

end SearchSql
