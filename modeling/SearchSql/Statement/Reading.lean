import SearchSql.Expr.Reading
import SearchSql.Statement

/-!
# Reading statements

```text
SELECT (* | names) [FACETS names] [SCRIPT name = "body"] FROM name
    [WHERE expression] [FILTER (EXIST name | MISSING name | expression)]
    [ORDER BY name [ASC | DESC], ...] [LIMIT [integer,] integer]
```

* `Reader.search` : the part of a statement from `FROM` on, with nothing behind it.
* `Reader.statement` : a whole statement.
* `Statement.ofText` : the statement that a text holds.
-/

namespace SearchSql

namespace Reader

/-- The fields to return: names, or a star for all fields. -/
def selection : Reader (Option (List String)) := do
  if ← acceptMark '*' then
    return none
  else
    let fields ← names
    return some fields

/-- A script field.  Of the comparison operators only the equals sign is accepted; another one is
taken from the stream and reported as a whole, at its first character. -/
def scriptField : Reader ScriptField := do
  let field ← name
  let start ← position
  let op ← comparison
  if op = .eq then
    let body ← quotedString
    return ⟨field, body⟩
  else
    fail ⟨.equalsSign, .operator op, start⟩

/-- The condition of a filter: a test for the presence of a field, or an expression. -/
def filterCondition : Reader Expr := do
  if ← acceptKeyword .exist then
    let field ← name
    return .present field
  else if ← acceptKeyword .missing then
    let field ← name
    return .missing field
  else
    expression

/-- The direction that a token stands for. -/
def direction? (t : Token) : Option Direction :=
  match t.keyword? with
  | some .asc => some .asc
  | some .desc => some .desc
  | _ => none

/-- A field to sort by, in ascending order unless stated otherwise. -/
def sortKey : Reader SortKey := do
  let field ← name
  let direction ← probe direction?
  return ⟨field, direction.getD .asc⟩

/-- The body of an `ORDER` clause. -/
def sortKeys : Reader (List SortKey) := do
  keyword .by
  commaList sortKey

/-- The body of a `LIMIT` clause: how many hits are skipped, if that is given, and how many are
returned. -/
def page : Reader (Option Nat × Nat) := do
  let first ← integer
  if ← acceptMark ',' then
    let second ← integer
    return (some first, second)
  else
    return (none, first)

/-- The part of a statement from `FROM` on, which completes the parts that stand before it. -/
def search (fields facets : Option (List String)) (script : Option ScriptField) :
    Reader Statement := do
  keyword .from
  let index ← name
  let condition ← clause .where expression
  let filter ← clause .filter filterCondition
  let order ← clause .order sortKeys
  let hits ← clause .limit page
  finish
  let plain : Statement := { index, fields, facets, script, condition, filter, order }
  match hits with
  | none => return plain
  | some (none, limit) => return { plain with limit }
  | some (some offset, limit) => return { plain with offset, limit }

/-- A whole statement. -/
def statement : Reader Statement := do
  keyword .select
  let fields ← selection
  let facets ← clause .facets names
  let script ← clause .script scriptField
  search fields facets script

end Reader

/-- The statement that a text holds. -/
def Statement.ofText (text : String) : Except SyntaxError Statement :=
  Reader.statement.readText text

end SearchSql
