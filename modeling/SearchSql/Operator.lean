import SearchSql.Keyword

/-!
# Comparison operators and connectives

* `Comparison` : how a field is compared with a value, with the symbol of each operator.
* `Connective` : how two terms of an expression are joined, with the keyword of each.
-/

namespace SearchSql

/-- The comparison operators. -/
inductive Comparison where
  | eq
  | ne
  | lt
  | le
  | gt
  | ge
deriving DecidableEq, Repr

/-- The symbol of an operator. -/
def Comparison.symbol : Comparison → String
  | .eq => "="
  | .ne => "!="
  | .lt => "<"
  | .le => "<="
  | .gt => ">"
  | .ge => ">="

/-- The connectives between terms. -/
inductive Connective where
  | and
  | or
deriving DecidableEq, Repr

namespace Connective

/-- The keyword of a connective. -/
def keyword : Connective → Keyword
  | .and => .and
  | .or => .or

/-- The connective that a keyword stands for. -/
def ofKeyword? : Keyword → Option Connective
  | .and => some .and
  | .or => some .or
  | _ => none

/-- What stands between two terms in a text: the keyword between blanks. -/
def separator (c : Connective) : String := " " ++ c.keyword.spelling ++ " "

theorem ofKeyword?_eq_some_iff {k : Keyword} {c : Connective} :
    ofKeyword? k = some c ↔ k = c.keyword := by
  cases k <;> cases c <;> decide

end Connective

end SearchSql
