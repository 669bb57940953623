import SearchSql.Expr
import SearchSql.Run

/-!
# Grouping terms

Expressions have no parentheses, and neither connective binds more tightly than the other: a
run of terms is read strictly from left to right.

* `Expr.join` : put one more term behind a tree.
* `Expr.ofRun` : the tree of a run of terms.
* `Grouping` : the same while the terms come in, with a group that is left open for more children.

So `a AND b OR c` groups as `(a AND b) OR c`, and `a OR b AND c` as `(a OR b) AND c`.
-/

namespace SearchSql

namespace Expr

/-- Put a term behind a tree.  A group of the same connective takes the term as its last child;
any other tree becomes the first child of a new group. -/
def join (e : Expr) (link : Connective) (term : Expr) : Expr :=
  match e with
  | .group c children =>
    if c = link then .group c (children ++ [term]) else .group link [.group c children, term]
  | e => .group link [e, term]

/-- The tree of a run of terms, from left to right. -/
def ofRun (r : Run Connective Expr) : Expr :=
  r.more.foldl (fun e lt => e.join lt.1 lt.2) r.first

@[simp] theorem ofRun_single (e : Expr) : ofRun ⟨e, []⟩ = e := rfl

/-- The last term of a run is joined to the tree of what stands before it. -/
theorem ofRun_append (e : Expr) (more : List (Connective × Expr)) (c : Connective) (t : Expr) :
    ofRun ⟨e, more ++ [(c, t)]⟩ = (ofRun ⟨e, more⟩).join c t := by
  simp [ofRun]

end Expr

/-- The group that is open while the terms of a run are read one after the other: its connective
and its children so far. -/
structure Grouping where
  opened : Option (Connective × List Expr)

namespace Grouping

/-- Before the first term no group is open. -/
def start : Grouping := ⟨none⟩

/-- Add a term behind which the connective `c` stands.  Where the connective changes, the open
group is closed, and becomes the first child of a new one. -/
def push (g : Grouping) (term : Expr) (c : Connective) : Grouping :=
  match g.opened with
  | none => ⟨some (c, [term])⟩
  | some (op, children) =>
    if op = c then ⟨some (op, children ++ [term])⟩
    else ⟨some (c, [.group op (children ++ [term])])⟩

/-- Add the last term. -/
def finish (g : Grouping) (term : Expr) : Expr :=
  match g.opened with
  | none => term
  | some (op, children) => .group op (children ++ [term])

end Grouping

end SearchSql
