import SearchSql.Decimal

/-!
# Values of comparisons

A field is compared with a text or with a number.  Both are written into a query string in the
same way (`Literal.toText`), but they are different values even if they are written alike.
-/

namespace SearchSql

/-- The right-hand side of a comparison. -/
inductive Literal where
  /-- A text: a quoted string, or a word that starts with a digit and is not a number. -/
  | text (value : String)
  /-- A number, in its written precision. -/
  | number (value : Decimal)
deriving DecidableEq, Repr

namespace Literal

/-- The characters of a value, without quotes. -/
def toText : Literal → String
  | .text s => s
  | .number d => d.toText

/-- The two values agree: equal texts, or numbers of equal value.  A text never agrees with a
number. -/
def agrees : Literal → Literal → Bool
  | .text s, .text t => s == t
  | .number d, .number e => d.sameValue e
  | _, _ => false

end Literal

end SearchSql
