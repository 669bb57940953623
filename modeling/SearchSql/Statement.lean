import SearchSql.Expr

/-!
# Statements

A `Statement` selects documents of an index and says what is to be returned of them.
-/

namespace SearchSql

/-- The direction of sorting. -/
inductive Direction where
  | asc
  | desc
deriving DecidableEq, Repr

/-- The name of a direction in a search request. -/
def Direction.toText : Direction → String
  | .asc => "asc"
  | .desc => "desc"

/-- A field to sort by. -/
structure SortKey where
  field : String
  direction : Direction
deriving DecidableEq, Repr

/-- A field whose value a script computes. -/
structure ScriptField where
  name : String
  body : String
deriving DecidableEq, Repr

/-- A parsed statement.  A part that was left out is `none`. -/
structure Statement where
  /-- The fields to return; all fields if `none`. -/
  fields : Option (List String) := none
  /-- The fields whose terms are counted. -/
  facets : Option (List String) := none
  script : Option ScriptField := none
  /-- The index to search. -/
  index : String
  /-- The condition after `WHERE`. -/
  condition : Option Expr := none
  /-- The condition after `FILTER`. -/
  filter : Option Expr := none
  order : Option (List SortKey) := none
  /-- How many hits are skipped. -/
  offset : Nat := 0
  /-- How many hits are returned at most. -/
  limit : Nat := 10
deriving DecidableEq, Repr

end SearchSql
