import SearchSql.Json
import SearchSql.Statement

/-!
# Syntax trees as JSON

`Statement.toJson` shows the parts of a statement as a JSON value.  Parts that were left out are
`null`, and numbers are texts, so that they keep their written precision.  What is shown of a value
is what is written into a query string (`Literal.toJson_eq_text_toText`).
-/

namespace SearchSql

/-- The name of a comparison operator in a syntax tree. -/
def Comparison.treeName : Comparison → String
  | .eq => "eq"
  | .ne => "ne"
  | .lt => "lt"
  | .le => "lte"
  | .gt => "gt"
  | .ge => "gte"

/-- The name of a group in a syntax tree. -/
def Connective.treeName : Connective → String
  | .and => "and"
  | .or => "or"

/-- A name with the value bound to it. -/
def Json.binding (name : String) (value : Json) : Json :=
  .ofMembers [("name", .text name), ("value", value)]

namespace Literal

/-- A value in a syntax tree.  Nothing tells a number from a text. -/
def toJson : Literal → Json
  | .text s => .text s
  | .number d => .text d.toText

/-- The syntax tree and the query string show the same characters of a value. -/
theorem toJson_eq_text_toText (v : Literal) : v.toJson = .text v.toText := by
  cases v <;> rfl

end Literal

namespace Expr

mutual

/-- The syntax tree of an expression. -/
def toJson : Expr → Json
  | .text q => .ofMembers [("kind", .text "string_literal"), ("text", .text q)]
  | .present f => .ofMembers [("kind", .text "exists"), ("field", .text f)]
  | .missing f => .ofMembers [("kind", .text "missing"), ("field", .text f)]
  | .not e => .ofMembers [("kind", .text "not"), ("expr", toJson e)]
  | .group c es => .ofMembers [("kind", .text c.treeName), ("children", .list (toJsons es))]
  | .compare op f v =>
    .ofMembers [("kind", .text "comparison"), ("op", .text op.treeName),
      ("operand", .binding f v.toJson)]

/-- The syntax trees of several expressions. -/
def toJsons : List Expr → List Json
  | [] => []
  | e :: es => toJson e :: toJsons es

end

theorem toJsons_eq_map (es : List Expr) : toJsons es = es.map toJson := by
  induction es with
  | nil => rfl
  | cons e es ih => rw [toJsons, ih, List.map_cons]

end Expr

/-- The syntax tree of a statement. -/
def Statement.toJson (s : Statement) : Json :=
  .ofMembers
    [("select_fields", .ofOption Json.texts s.fields),
      ("facet_fields", .ofOption Json.texts s.facets),
      ("script", .ofOption (fun f => .binding f.name (.text f.body)) s.script),
      ("index", .text s.index),
      ("where_expr", .ofOption Expr.toJson s.condition),
      ("filter_expr", .ofOption Expr.toJson s.filter),
      ("order_by",
        .ofOption (fun ks => .list (ks.map fun k => .binding k.field (.text k.direction.toText)))
          s.order),
      ("offset", .number s.offset),
      ("limit", .number s.limit)]

end SearchSql
