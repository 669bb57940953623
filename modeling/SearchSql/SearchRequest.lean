import SearchSql.Endpoint
import SearchSql.Expr.QueryString
import SearchSql.Json
import SearchSql.Statement

/-!
# Search requests

A statement is carried out by one request to a search engine, with a JSON body.

| part of the statement  | member of the body                                       |
|------------------------|----------------------------------------------------------|
| `WHERE expression`     | `query.query_string`, or `query.match_all` if left out   |
| `FILTER EXIST f`       | `filter.exists.field`                                    |
| `FILTER MISSING f`     | `filter.missing.field`                                   |
| `FILTER expression`    | `filter.query.query_string`                              |
| `FACETS f, ...`        | `facets.f.terms.field`                                   |
| `SCRIPT f = "body"`    | `script_fields.f.script`                                 |
| `SELECT f, ...`        | `fields`                                                 |
| `ORDER BY f DESC, ...` | `sort`                                                   |
| `LIMIT n, m`           | `from`, `size`                                           |
-/

namespace SearchSql

/-- A request to a search engine. -/
structure SearchRequest where
  url : String
  body : Json
deriving Repr

namespace Expr

/-- The clause that finds the documents matching an expression's query string. -/
def queryClause (e : Expr) : Json :=
  .ofMembers [("query_string", .ofMembers [("query", .text (e.queryString?.getD "")),
    ("default_operator", .text "AND")])]

/-- The clause of a filter. -/
def filterClause : Expr → Json
  | .present f => .ofMembers [("exists", .ofMembers [("field", .text f)])]
  | .missing f => .ofMembers [("missing", .ofMembers [("field", .text f)])]
  | e => .ofMembers [("query", e.queryClause)]

end Expr

/-- The clause that finds every document. -/
def matchAllClause : Json := .ofMembers [("match_all", .ofMembers [])]

/-- The clause that counts the terms of some fields.  A field that is named twice is counted
once. -/
def facetsClause (fields : List String) : Json :=
  .ofMembers (fields.map fun f => (f, .ofMembers [("terms", .ofMembers [("field", .text f)])]))

/-- The clause of a script field. -/
def ScriptField.clause (s : ScriptField) : Json :=
  .ofMembers [(s.name, .ofMembers [("script", .text s.body)])]

/-- The clause of a field to sort by. -/
def SortKey.clause (k : SortKey) : Json := .ofMembers [(k.field, .text k.direction.toText)]

namespace Statement

/-- The body of the request that carries out a statement. -/
def requestBody (s : Statement) : Json :=
  .ofMembers <|
    [("query", s.condition.elim matchAllClause Expr.queryClause)] ++
    (s.filter.map fun e => ("filter", e.filterClause)).toList ++
    (s.facets.map fun fs => ("facets", facetsClause fs)).toList ++
    (s.script.map fun f => ("script_fields", f.clause)).toList ++
    (s.fields.map fun fs => ("fields", Json.texts fs)).toList ++
    (s.order.map fun ks => ("sort", .list (ks.map SortKey.clause))).toList ++
    [("from", .number s.offset), ("size", .number s.limit)]

/-- The request that carries out a statement at an endpoint. -/
def request (s : Statement) (e : Endpoint) : SearchRequest :=
  ⟨e.searchUrl s.index, s.requestBody⟩

end Statement

end SearchSql
