import SearchSql.Literal
import SearchSql.Operator

/-!
# Expressions

The condition of a `WHERE` or a `FILTER` clause is a tree of terms and groups.

* `Expr` : expression trees.  Trees built by hand may nest groups in any way; which of them a
  statement can hold is a matter of reading.
* `Expr.isPresence` : the tree is a test for the presence of a field.
* `Expr.sameWith` : equality of trees up to a given equality of values, and `Expr.agrees`, where
  numbers are compared by value, whatever their written precision.
* `Expr.induction` : induction on trees, with a hypothesis for every child of a group.
-/

namespace SearchSql

/-- A condition on documents. -/
inductive Expr where
  /-- A fragment of a query string, which is passed on as it is. -/
  | text (query : String)
  /-- The field has a value. -/
  | present (field : String)
  /-- The field has no value. -/
  | missing (field : String)
  /-- The operand does not hold. -/
  | not (operand : Expr)
  /-- The children, joined by one connective. -/
  | group (link : Connective) (children : List Expr)
  /-- The field compares in the given way with the value. -/
  | compare (op : Comparison) (field : String) (value : Literal)
deriving Repr

namespace Expr

/-- The tree is a test for the presence of a field, which has no form as a query string. -/
def isPresence : Expr → Bool
  | .present _ => true
  | .missing _ => true
  | _ => false

mutual

/-- The two trees have the same shape and the same parts, where `sameValue` tells which values of
comparisons count as the same. -/
def sameWith (sameValue : Literal → Literal → Bool) : Expr → Expr → Bool
  | .text q, .text q' => q == q'
  | .present f, .present f' => f == f'
  | .missing f, .missing f' => f == f'
  | .not e, .not e' => sameWith sameValue e e'
  | .group c es, .group c' es' => c == c' && allSameWith sameValue es es'
  | .compare op f v, .compare op' f' v' => op == op' && f == f' && sameValue v v'
  | _, _ => false

/-- The two lists have the same length, and their members are the same in order. -/
def allSameWith (sameValue : Literal → Literal → Bool) : List Expr → List Expr → Bool
  | [], [] => true
  | e :: es, e' :: es' => sameWith sameValue e e' && allSameWith sameValue es es'
  | _, _ => false

end

/-- The two trees agree; numbers are compared by value. -/
def agrees (e e' : Expr) : Bool := sameWith Literal.agrees e e'

/-- Induction on expressions.  For a group, the hypothesis holds of each of its children. -/
@[elab_as_elim]
theorem induction {P : Expr → Prop} (text : ∀ q, P (.text q)) (present : ∀ f, P (.present f))
    (missing : ∀ f, P (.missing f)) (not : ∀ e, P e → P (.not e))
    (group : ∀ c es, (∀ e ∈ es, P e) → P (.group c es))
    (compare : ∀ op f v, P (.compare op f v)) (e : Expr) : P e :=
  @Expr.rec P (fun es => ∀ e ∈ es, P e) text present missing
    (fun e ih => not e ih) (fun c es ih => group c es ih) compare (fun _ h => by cases h)
    (fun _ _ ih ihs e h => by
      rcases List.mem_cons.1 h with rfl | h
      · exact ih
      · exact ihs e h) e

/-! ### Equality is decidable -/

theorem allSameWith_beq_iff {es : List Expr}
    (h : ∀ e ∈ es, ∀ e', sameWith (· == ·) e e' = true ↔ e = e') (es' : List Expr) :
    allSameWith (· == ·) es es' = true ↔ es = es' := by
  induction es generalizing es' with
  | nil => cases es' <;> simp [allSameWith]
  | cons e es ih =>
    cases es' with
    | nil => simp [allSameWith]
    | cons e' es' =>
      have h₁ := h e List.mem_cons_self e'
      have h₂ := ih (fun x hx => h x (List.mem_cons_of_mem _ hx)) es'
      rw [allSameWith, Bool.and_eq_true, h₁, h₂, List.cons.injEq]

theorem sameWith_beq_iff (e : Expr) : ∀ e', sameWith (· == ·) e e' = true ↔ e = e' := by
  induction e using Expr.induction with
  | text q => intro e'; cases e' <;> simp [sameWith]
  | present f => intro e'; cases e' <;> simp [sameWith]
  | missing f => intro e'; cases e' <;> simp [sameWith]
  | not e ih => intro e'; cases e' <;> simp [sameWith, ih]
  | group c es ih => intro e'; cases e' <;> simp [sameWith, allSameWith_beq_iff ih]
  | compare op f v => intro e'; cases e' <;> simp [sameWith, and_assoc]

instance : DecidableEq Expr := fun e e' => decidable_of_iff _ (sameWith_beq_iff e e')

end Expr

end SearchSql
