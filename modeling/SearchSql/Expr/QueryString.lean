import SearchSql.Expr

/-!
# Query strings

A search engine takes a condition as a *query string*: comparisons in the form `field:value` or
as ranges, joined by the words `AND`, `OR` and `NOT`.

* `Comparison.clause` : the query string of a comparison.
* `Expr.queryString?` : the query string of an expression; a test for the presence of a field
  has none, and nor has any tree that contains one.
* `Expr.label` : a short text for any expression.
-/

namespace SearchSql

/-- The query string of a comparison of `field` with a value written `value`.  Braces exclude the
ends of a range, brackets include them. -/
def Comparison.clause (op : Comparison) (field value : String) : String :=
  match op with
  | .eq => field ++ ":" ++ value
  | .ne => "NOT " ++ field ++ ":" ++ value
  | .lt => field ++ ":\x7b* TO " ++ value ++ "\x7d"
  | .le => field ++ ":[* TO " ++ value ++ "]"
  | .gt => field ++ ":\x7b" ++ value ++ " TO *\x7d"
  | .ge => field ++ ":[" ++ value ++ " TO *]"

namespace Expr

mutual

/-- The query string of an expression, if it has one. -/
def queryString? : Expr → Option String
  | .text q => some q
  | .present _ => none
  | .missing _ => none
  | .not e => (queryString? e).map fun s => "NOT " ++ s
  | .group c es => (queryStrings? es).map fun ss => c.separator.intercalate ss
  | .compare op f v => some (op.clause f v.toText)

/-- The query strings of several expressions, if all have one. -/
def queryStrings? : List Expr → Option (List String)
  | [] => some []
  | e :: es => (queryString? e).bind fun s => (queryStrings? es).map fun ss => s :: ss

end

/-- A short text for an expression: the test for a field's presence as it is written in a
statement, and the query string of any other expression, if it has one. -/
def label : Expr → String
  | .present f => "EXIST " ++ f
  | .missing f => "MISSING " ++ f
  | e => e.queryString?.getD ""

end Expr

end SearchSql
