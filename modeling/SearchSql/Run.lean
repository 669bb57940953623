/-!
# Runs

A `Run` is a non-empty sequence of items with a link between each two neighbours, such as terms
joined by connectives, or names joined by commas.
-/

namespace SearchSql

/-- Items with a link in front of each but the first. -/
structure Run (β α : Type) where
  /-- The first item. -/
  first : α
  /-- The other items, each with the link that joins it to the one before. -/
  more : List (β × α)
deriving DecidableEq, Repr

namespace Run

variable {α β : Type}

/-- The items in order. -/
def items (r : Run β α) : List α := r.first :: r.more.map Prod.snd

/-- The links in order. -/
def links (r : Run β α) : List β := r.more.map Prod.fst

end Run

end SearchSql
