import SearchSql.Expr
import SearchSql.Text.Quoted

/-!
# Expressions as source text

`Expr.source` writes an expression as it could stand in a statement.  Texts are always quoted,
so that a text such as `007` is not read back as a word or a number.  Groups are written without
parentheses, which the statement language does not have.
-/

namespace SearchSql

/-- A value as it is written in a statement. -/
def Literal.source : Literal → String
  | .text s => Text.quote s
  | .number d => d.toText

namespace Expr

mutual

/-- An expression as it is written in a statement. -/
def source : Expr → String
  | .text q => Text.quote q
  | .present f => "EXIST " ++ f
  | .missing f => "MISSING " ++ f
  | .not e => "NOT " ++ source e
  | .group c es => c.separator.intercalate (sources es)
  | .compare op f v => f ++ " " ++ op.symbol ++ " " ++ v.source

/-- Several expressions as they are written. -/
def sources : List Expr → List String
  | [] => []
  | e :: es => source e :: sources es

end

theorem sources_eq_map (es : List Expr) : sources es = es.map source := by
  induction es with
  | nil => rfl
  | cons e es ih => rw [sources, ih, List.map_cons]

end Expr

end SearchSql
