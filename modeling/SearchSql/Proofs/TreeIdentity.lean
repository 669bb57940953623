import Mathlib.Data.List.Basic
import SearchSql.Command.Basic
import SearchSql.Proofs.RequestIdentity

/-!
# What the syntax tree shows of a statement

The syntax tree of a statement shows every part of it, and of the value of a comparison the
characters, but not whether they are a text or a number.

## Main definitions

* `Literal.textual`, `Expr.textual`, `Statement.textual` : with every number replaced by the text
  that it is written as.
* `Expr.Kind` : the kinds of expressions that a syntax tree tells apart.

## Main statements

* `Json.ofOption_eq_iff` : a part that was left out is not mistaken for one that is there.
* `Expr.toJson_eq_iff` : expressions have the same syntax tree exactly if they differ in the kinds
  of values at most; `Statement.toJson_eq_iff` says the same of statements.
* `Command.tree_eq_iff` : **the syntax tree loses only the kind of a value.**
-/

namespace SearchSql

namespace Literal

/-- The value with a number replaced by the text that it is written as. -/
def textual : Literal → Literal
  | .text s => .text s
  | .number d => .text d.toText

/-- Values are shown alike exactly if they differ in their kind at most. -/
theorem toJson_eq_iff (v v' : Literal) : v.toJson = v'.toJson ↔ v.textual = v'.textual := by
  cases v <;> cases v' <;> simp [toJson, textual]

end Literal

theorem Connective.treeName_inj {c c' : Connective} : c.treeName = c'.treeName ↔ c = c' := by
  cases c <;> cases c' <;> decide

theorem Comparison.treeName_inj {op op' : Comparison} : op.treeName = op'.treeName ↔ op = op' := by
  cases op <;> cases op' <;> decide

namespace Expr

mutual

/-- The expression with every number replaced by the text that it is written as. -/
def textual : Expr → Expr
  | .text q => .text q
  | .present f => .present f
  | .missing f => .missing f
  | .not e => .not (textual e)
  | .group c es => .group c (textuals es)
  | .compare op f v => .compare op f v.textual

/-- The expressions with every number replaced. -/
def textuals : List Expr → List Expr
  | [] => []
  | e :: es => textual e :: textuals es

end

theorem textuals_eq_map (es : List Expr) : textuals es = es.map textual := by
  induction es with
  | nil => rfl
  | cons e es ih => rw [textuals, ih, List.map_cons]

/-- The kinds of expressions. -/
inductive Kind where
  | text
  | present
  | missing
  | not
  | group (link : Connective)
  | compare
deriving DecidableEq, Repr

/-- The name of a kind in a syntax tree. -/
def Kind.name : Kind → String
  | .text => "string_literal"
  | .present => "exists"
  | .missing => "missing"
  | .not => "not"
  | .group c => c.treeName
  | .compare => "comparison"

/-- The kind of an expression. -/
def kind : Expr → Kind
  | .text _ => .text
  | .present _ => .present
  | .missing _ => .missing
  | .not _ => .not
  | .group c _ => .group c
  | .compare _ _ _ => .compare

theorem Kind.name_injective {k k' : Kind} (h : k.name = k'.name) : k = k' := by
  revert h
  obtain _ | _ | _ | _ | (_ | _) | _ := k <;> obtain _ | _ | _ | _ | (_ | _) | _ := k' <;> decide

theorem get?_kind_toJson (e : Expr) : e.toJson.get? "kind" = some (.text e.kind.name) := by
  cases e <;> simp [toJson, Json.get?_ofMembers, Json.lookup_cons_ite, kind, Kind.name]

theorem kind_eq_of_toJson_eq {e e' : Expr} (h : e.toJson = e'.toJson) : e.kind = e'.kind := by
  have hkind := get?_kind_toJson e
  rw [h, get?_kind_toJson] at hkind
  simp only [Option.some.injEq, Json.text.injEq] at hkind
  exact (Kind.name_injective hkind).symm

theorem kind_textual (e : Expr) : e.textual.kind = e.kind := by
  cases e <;> rfl

/-- Expressions of different kinds are told apart. -/
theorem toJson_eq_iff_of_kind_ne {e e' : Expr} (h : e.kind ≠ e'.kind) :
    e.toJson = e'.toJson ↔ e.textual = e'.textual := by
  refine iff_of_false (fun heq => h (kind_eq_of_toJson_eq heq)) fun heq => h ?_
  rw [← kind_textual e, heq, kind_textual]

/-- Lists are mapped to equal lists by both functions, if their members are mapped to equal values
by both. -/
theorem map_eq_map_iff_of_forall {β γ : Type} {f : Expr → β} {g : Expr → γ} {es : List Expr}
    (h : ∀ e ∈ es, ∀ e', f e = f e' ↔ g e = g e') (es' : List Expr) :
    es.map f = es'.map f ↔ es.map g = es'.map g := by
  induction es generalizing es' with
  | nil => simp
  | cons e es ih =>
    rw [List.forall_mem_cons] at h
    cases es' with
    | nil => simp
    | cons e' es' => simp only [List.map_cons, List.cons.injEq, h.1, ih h.2]

/-- **Expressions have the same syntax tree exactly if they differ in the kinds of values at
most.** -/
theorem toJson_eq_iff (e e' : Expr) : e.toJson = e'.toJson ↔ e.textual = e'.textual := by
  induction e using Expr.induction generalizing e' with
  | text q =>
    cases e' with
    | text q' => simp (disch := simp) [toJson, textual, Json.ofMembers_inj]
    | _ => exact toJson_eq_iff_of_kind_ne (by simp [kind])
  | present f =>
    cases e' with
    | present f' => simp (disch := simp) [toJson, textual, Json.ofMembers_inj]
    | _ => exact toJson_eq_iff_of_kind_ne (by simp [kind])
  | missing f =>
    cases e' with
    | missing f' => simp (disch := simp) [toJson, textual, Json.ofMembers_inj]
    | _ => exact toJson_eq_iff_of_kind_ne (by simp [kind])
  | not e ih =>
    cases e' with
    | not e' => simp (disch := simp) [toJson, textual, Json.ofMembers_inj, ih]
    | _ => exact toJson_eq_iff_of_kind_ne (by simp [kind])
  | group c es ih =>
    cases e' with
    | group c' es' =>
      simp (disch := simp) [toJson, textual, Json.ofMembers_inj, toJsons_eq_map, textuals_eq_map,
        Connective.treeName_inj, map_eq_map_iff_of_forall ih]
    | _ => exact toJson_eq_iff_of_kind_ne (by simp [kind])
  | compare op f v =>
    cases e' with
    | compare op' f' v' =>
      simp (disch := simp) [toJson, textual, Json.ofMembers_inj, Json.binding,
        Literal.toJson_eq_iff, Comparison.treeName_inj]
    | _ => exact toJson_eq_iff_of_kind_ne (by simp [kind])

theorem toJson_ne_null (e : Expr) : e.toJson ≠ .null := by
  cases e <;> simp [toJson, Json.ofMembers]

end Expr

/-- The statement with every number in its conditions replaced by the text that it is written
as. -/
def Statement.textual (q : Statement) : Statement :=
  { q with condition := q.condition.map Expr.textual, filter := q.filter.map Expr.textual }

/-- A part that was left out is told apart from every part that is there. -/
theorem Json.ofOption_eq_iff {α β : Type} {f : α → Json} {g : α → β} (hnull : ∀ a, f a ≠ .null)
    (h : ∀ a a', f a = f a' ↔ g a = g a') {o o' : Option α} :
    ofOption f o = ofOption f o' ↔ o.map g = o'.map g := by
  cases o with
  | none =>
    cases o' with
    | none => simp
    | some a' => simpa [ofOption] using (hnull a').symm
  | some a =>
    cases o' with
    | none => simpa [ofOption] using hnull a
    | some a' => simpa [ofOption] using h a a'

theorem Json.ofOption_inj {α : Type} {f : α → Json} (hnull : ∀ a, f a ≠ .null)
    (h : ∀ a a', f a = f a' → a = a') {o o' : Option α} :
    ofOption f o = ofOption f o' ↔ o = o' := by
  have hid : ∀ a a', f a = f a' ↔ id a = id a' := fun a a' => ⟨h a a', congrArg f⟩
  rw [ofOption_eq_iff hnull hid, Option.map_id, id, id]

theorem Json.binding_inj {n n' : String} {v v' : Json} :
    binding n v = binding n' v' ↔ n = n' ∧ v = v' := by
  simp (disch := simp) [binding, ofMembers_inj]

theorem ScriptField.binding_inj (s s' : ScriptField)
    (h : Json.binding s.name (.text s.body) = .binding s'.name (.text s'.body)) : s = s' := by
  obtain ⟨name, body⟩ := s
  obtain ⟨name', body'⟩ := s'
  simp only [Json.binding_inj, Json.text.injEq] at h
  obtain ⟨rfl, rfl⟩ := h
  rfl

theorem SortKey.binding_inj (k k' : SortKey)
    (h : Json.binding k.field (.text k.direction.toText) =
      .binding k'.field (.text k'.direction.toText)) : k = k' := by
  obtain ⟨field, direction⟩ := k
  obtain ⟨field', direction'⟩ := k'
  simp only [Json.binding_inj, Json.text.injEq] at h
  obtain ⟨rfl, hdirection⟩ := h
  rw [Direction.toText_inj hdirection]

namespace Statement

/-- **Statements have the same syntax tree exactly if they differ in the kinds of values at
most.** -/
theorem toJson_eq_iff (q q' : Statement) : q.toJson = q'.toJson ↔ q.textual = q'.textual := by
  have hnames (o o' : Option (List String)) :
      Json.ofOption Json.texts o = Json.ofOption Json.texts o' ↔ o = o' :=
    Json.ofOption_inj (fun _ => by simp [Json.texts]) Json.texts_inj
  have hscript : _ ↔ q.script = q'.script :=
    Json.ofOption_inj (fun _ => by simp [Json.binding, Json.ofMembers]) ScriptField.binding_inj
  have horder : _ ↔ q.order = q'.order :=
    Json.ofOption_inj (fun _ => by simp) fun ks ks' h =>
      (List.map_inj_right SortKey.binding_inj).1 (Json.list.inj h)
  have hcondition (o o' : Option Expr) :
      Json.ofOption Expr.toJson o = Json.ofOption Expr.toJson o' ↔
        o.map Expr.textual = o'.map Expr.textual :=
    Json.ofOption_eq_iff Expr.toJson_ne_null Expr.toJson_eq_iff
  simp (disch := simp) only [toJson, Json.ofMembers_inj, List.cons.injEq, Prod.mk.injEq, true_and,
    and_true, hnames, hscript, hcondition, horder, Json.text.injEq, Json.number.injEq, textual,
    Statement.mk.injEq]

end Statement

namespace Command

/-- The tree that is shown of a text without white space around it. -/
theorem tree_of_ofText {text : String} {q : Statement} (hq : Statement.ofText text = .ok q)
    (htrim : Text.trim text = text) : tree text = .ok q.toJson := by
  have hne : text ≠ "" := by
    rintro rfl
    have hempty : Statement.ofText "" = .error ⟨.keyword .select, .endOfText, 0⟩ := by
      decide +kernel
    rw [hempty] at hq
    cases hq
  rw [tree, statement, htrim, if_neg hne, hq]
  rfl

/-- **The syntax tree loses only the kind of a value.**  Of two statements in texts without white
space around them the same tree is shown exactly if the statements become equal when every number
in their conditions is replaced by the text that it is written as. -/
theorem tree_eq_iff (text text' : String) (q q' : Statement)
    (hq : Statement.ofText text = .ok q) (hq' : Statement.ofText text' = .ok q')
    (htrim : Text.trim text = text) (htrim' : Text.trim text' = text') :
    (∃ j, tree text = .ok j ∧ tree text' = .ok j) ↔ q.textual = q'.textual := by
  rw [tree_of_ofText hq htrim, tree_of_ofText hq' htrim', ← Statement.toJson_eq_iff]
  simp [eq_comm]

/-- A number and a text that is written like it are shown alike, but not numbers of one value that
are written in different ways. -/
theorem tree_eq_of_number_and_text :
    let text := "SELECT a FROM t WHERE NOT b = 2.50 FILTER c < 007"
    let text' := "select a from t where not b='2.50' filter c<'007'"
    let text'' := "select a from t where not b=2.5 filter c<'007'"
    Statement.ofText text ≠ Statement.ofText text' ∧
      (∃ j, tree text = .ok j ∧ tree text' = .ok j) ∧
      ¬ ∃ j, tree text = .ok j ∧ tree text'' = .ok j := by
  intro text text' text''
  have hq : Statement.ofText text = .ok
      { fields := some ["a"]
        index := "t"
        condition := some (.not (.compare .eq "b" (.number ⟨false, 250, 2, by decide, by decide⟩)))
        filter := some (.compare .lt "c" (.text "007")) } := by
    decide +kernel
  have hq' : Statement.ofText text' = .ok
      { fields := some ["a"]
        index := "t"
        condition := some (.not (.compare .eq "b" (.text "2.50")))
        filter := some (.compare .lt "c" (.text "007")) } := by
    decide +kernel
  have hq'' : Statement.ofText text'' = .ok
      { fields := some ["a"]
        index := "t"
        condition := some (.not (.compare .eq "b" (.number ⟨false, 25, 1, by decide, by decide⟩)))
        filter := some (.compare .lt "c" (.text "007")) } := by
    decide +kernel
  have htrim : Text.trim text = text := by decide +kernel
  refine ⟨?_, ?_, ?_⟩
  · rw [hq, hq']
    decide
  · rw [tree_eq_iff text text' _ _ hq hq' htrim (by decide +kernel)]
    decide +kernel
  · rw [tree_eq_iff text text'' _ _ hq hq'' htrim (by decide +kernel)]
    decide +kernel

end Command

end SearchSql
