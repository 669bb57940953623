import SearchSql.Proofs.WellFormed
import SearchSql.SearchRequest

/-!
# A request holds every condition of its statement

A test for the presence of a field has no query string, and where an expression has none, the
empty text would stand in the request in its place.  This never comes about: reading makes such a
test only as the whole of a filter, which has a clause of its own.

* `Expr.HasPresence` : some part of the tree is a test for the presence of a field, and
  `Expr.queryString?_eq_none_iff` : exactly these trees have no query string.
* `Expr.Canonical.exists_queryString?` : every condition that reading makes has one.
* `Statement.member?`, `Statement.get?_requestBody` : the members of a request body, by their keys.
* `Statement.requestBody_holds_queryString` : **the body of the request holds the query strings of
  both conditions.**
-/

namespace SearchSql

open Grammar

/-! ### Which expressions have a query string -/

namespace Expr

/-- The tree is a test for the presence of a field, or has one among its parts. -/
inductive HasPresence : Expr → Prop
  | present (f : String) : HasPresence (.present f)
  | missing (f : String) : HasPresence (.missing f)
  | not {e : Expr} : HasPresence e → HasPresence (.not e)
  | child {c : Connective} {es : List Expr} {e : Expr} :
      e ∈ es → HasPresence e → HasPresence (.group c es)

theorem queryStrings?_eq_none_iff (es : List Expr) :
    queryStrings? es = none ↔ ∃ e ∈ es, e.queryString? = none := by
  induction es with
  | nil => simp [queryStrings?]
  | cons e es ih =>
    simp only [queryStrings?, List.mem_cons, exists_eq_or_imp, ← ih]
    cases e.queryString? with
    | none => simp
    | some s => simp

/-- An expression has no query string exactly if a test for presence stands somewhere in it. -/
theorem queryString?_eq_none_iff (e : Expr) : e.queryString? = none ↔ e.HasPresence := by
  induction e using Expr.induction with
  | text q => exact ⟨fun h => by simp [queryString?] at h, fun h => by cases h⟩
  | present f => exact ⟨fun _ => .present f, fun _ => by rw [queryString?]⟩
  | missing f => exact ⟨fun _ => .missing f, fun _ => by rw [queryString?]⟩
  | not e ih =>
    rw [queryString?, Option.map_eq_none_iff, ih]
    exact ⟨.not, fun | .not h => h⟩
  | group c es ih =>
    rw [queryString?, Option.map_eq_none_iff, queryStrings?_eq_none_iff]
    constructor
    · rintro ⟨e, he, h⟩
      exact .child he ((ih e he).1 h)
    · rintro (_ | _ | _ | ⟨he, h⟩)
      exact ⟨_, he, (ih _ he).2 h⟩
  | compare op f v => exact ⟨fun h => by simp [queryString?] at h, fun h => by cases h⟩

theorem IsTerm.not_hasPresence {e : Expr} (h : e.IsTerm) : ¬ e.HasPresence := by
  have hplain : ∀ {e : Expr}, e.IsPlain → ¬ e.HasPresence := by
    rintro e (_ | _) ⟨⟩
  intro hp
  cases h with
  | plain h => exact hplain h hp
  | not h =>
    cases hp with
    | not hp => exact hplain h hp

theorem CanonicalGroup.not_hasPresence {c : Connective} {es : List Expr}
    (h : CanonicalGroup c es) : ¬ (Expr.group c es).HasPresence := by
  induction h with
  | terms he _ hes =>
    rintro (_ | _ | _ | ⟨hmem, hp⟩)
    rcases List.mem_cons.1 hmem with rfl | hmem
    · exact he.not_hasPresence hp
    · exact (hes _ hmem).not_hasPresence hp
  | nested _ _ _ hes ih =>
    rintro (_ | _ | _ | ⟨hmem, hp⟩)
    rcases List.mem_cons.1 hmem with rfl | hmem
    · exact ih hp
    · exact (hes _ hmem).not_hasPresence hp

/-- Reading makes a test for presence only as the whole of a filter. -/
theorem Canonical.exists_queryString? {e : Expr} (h : e.Canonical) :
    ∃ s, e.queryString? = some s := by
  rw [← Option.ne_none_iff_exists', ne_eq, queryString?_eq_none_iff]
  cases h with
  | term h => exact h.not_hasPresence
  | group h => exact h.not_hasPresence

theorem label_eq_of_queryString? {e : Expr} {s : String} (h : e.queryString? = some s) :
    e.label = s := by
  cases e with
  | present f => cases h
  | missing f => cases h
  | _ => exact congrArg (Option.getD · "") h

theorem filterClause_eq_of_queryString? {e : Expr} {s : String} (h : e.queryString? = some s) :
    e.filterClause = .ofMembers [("query", e.queryClause)] := by
  cases e with
  | present f => cases h
  | missing f => cases h
  | _ => rfl

end Expr

/-! ### The members of a request body -/

/-- The value to which a path of keys leads. -/
def Json.at? : List String → Json → Option Json
  | [], j => some j
  | key :: keys, j => (j.get? key).bind (at? keys)

theorem Json.lookup_toList_map {α : Type} (key k : String) (f : α → Json) (o : Option α) :
    (o.map fun a => (k, f a)).toList.reverse.lookup key = if key = k then o.map f else none := by
  cases o with
  | none => simp
  | some a => simp [lookup_cons_ite]

namespace Statement

/-- The parts of a statement by the keys that they have in the body of its request. -/
def member? (q : Statement) : String → Option Json
  | "query" => some (q.condition.elim matchAllClause Expr.queryClause)
  | "filter" => q.filter.map Expr.filterClause
  | "facets" => q.facets.map facetsClause
  | "script_fields" => q.script.map ScriptField.clause
  | "fields" => q.fields.map Json.texts
  | "sort" => q.order.map fun ks => .list (ks.map SortKey.clause)
  | "from" => some (.number q.offset)
  | "size" => some (.number q.limit)
  | _ => none

/-- No part of a statement takes the place of another one in the body. -/
theorem get?_requestBody (q : Statement) (key : String) :
    q.requestBody.get? key = q.member? key := by
  unfold member?
  split
  all_goals
    rw [requestBody, Json.get?_ofMembers]
    simp_all [List.lookup_append, Json.lookup_toList_map, Json.lookup_cons_ite]

end Statement

theorem Json.at?_singleton (key : String) (v : Json) (keys : List String) :
    (ofMembers [(key, v)]).at? (key :: keys) = v.at? keys := by
  rw [at?, get?_ofMembers, List.reverse_singleton, List.lookup_cons_self, Option.bind_some]

theorem Expr.at?_queryClause {e : Expr} {s : String} (h : e.queryString? = some s) :
    e.queryClause.at? ["query_string", "query"] = some (.text s) := by
  rw [queryClause, Json.at?_singleton, h]
  simp [Json.at?, Json.get?_ofMembers, Json.lookup_cons_ite]

namespace Statement

theorem at?_condition {q : Statement} {e : Expr} (h : q.condition = some e)
    (keys : List String) : q.requestBody.at? ("query" :: keys) = e.queryClause.at? keys := by
  have hget : q.requestBody.get? "query" = some e.queryClause := by
    rw [get?_requestBody, member?, h, Option.elim_some]
  rw [Json.at?, hget, Option.bind_some]

theorem at?_filter {q : Statement} {e : Expr} (h : q.filter = some e)
    (keys : List String) : q.requestBody.at? ("filter" :: keys) = e.filterClause.at? keys := by
  have hget : q.requestBody.get? "filter" = some e.filterClause := by
    rw [get?_requestBody, member?, h, Option.map_some]
  rw [Json.at?, hget, Option.bind_some]

/-- The conditions of a statement that was read. -/
theorem canonical_of_ofText {text : String} {q : Statement} (h : ofText text = .ok q) :
    (∀ e ∈ q.condition, e.Canonical) ∧ ∀ e ∈ q.filter, e.IsFilter := by
  obtain ⟨ts, hts, hlex⟩ := exists_derives_of_ofText h
  exact canonical_of_derives hts hlex

/-- **The body of the request holds the query strings of both conditions.**  An expression has no
query string exactly if a test for presence stands somewhere in it.  In a statement that was read,
the condition has a query string, and so has the filter unless it is itself a test for presence;
these query strings are what the expressions show as their labels, and they stand in the body of
the request. -/
theorem requestBody_holds_queryString :
    (∀ e : Expr, e.queryString? = none ↔ e.HasPresence) ∧
    ∀ (text : String) (q : Statement), ofText text = .ok q →
      (∀ e ∈ q.condition, ∃ s, e.queryString? = some s ∧ e.label = s ∧
        q.requestBody.at? ["query", "query_string", "query"] = some (.text s)) ∧
      ∀ e ∈ q.filter,
        (∃ f, e = .present f ∧
          q.requestBody.at? ["filter", "exists", "field"] = some (.text f)) ∨
        (∃ f, e = .missing f ∧
          q.requestBody.at? ["filter", "missing", "field"] = some (.text f)) ∨
        ∃ s, e.queryString? = some s ∧ e.label = s ∧
          q.requestBody.at? ["filter", "query", "query_string", "query"] = some (.text s) := by
  refine ⟨Expr.queryString?_eq_none_iff, fun text q hq => ?_⟩
  obtain ⟨hcondition, hfilter⟩ := canonical_of_ofText hq
  refine ⟨fun e he => ?_, fun e he => ?_⟩
  · obtain ⟨s, hs⟩ := (hcondition e he).exists_queryString?
    exact ⟨s, hs, Expr.label_eq_of_queryString? hs,
      (at?_condition he _).trans (Expr.at?_queryClause hs)⟩
  · rw [at?_filter he, at?_filter he, at?_filter he]
    cases hfilter e he with
    | @present f _ =>
      refine .inl ⟨f, rfl, ?_⟩
      rw [Expr.filterClause, Json.at?_singleton, Json.at?_singleton, Json.at?]
    | @missing f _ =>
      refine .inr (.inl ⟨f, rfl, ?_⟩)
      rw [Expr.filterClause, Json.at?_singleton, Json.at?_singleton, Json.at?]
    | canonical h =>
      obtain ⟨s, hs⟩ := h.exists_queryString?
      refine .inr (.inr ⟨s, hs, Expr.label_eq_of_queryString? hs, ?_⟩)
      rw [Expr.filterClause_eq_of_queryString? hs, Json.at?_singleton]
      exact Expr.at?_queryClause hs

theorem requestBody_holds_comparison_and_negation :
    ∃ q, ofText "SELECT * FROM t WHERE a = 'b' FILTER NOT 'c'" = .ok q ∧
      q.requestBody.at? ["query", "query_string", "query"] = some (.text "a:b") ∧
      q.requestBody.at? ["filter", "query", "query_string", "query"] = some (.text "NOT c") := by
  have hread : Reader.statement.read 44
      (Token.scan "SELECT * FROM t WHERE a = 'b' FILTER NOT 'c'") = .done
        { index := "t"
          condition := some (.compare .eq "a" (.text "b"))
          filter := some (.not (.text "c")) } [] := by
    decide +kernel
  have h : ofText "SELECT * FROM t WHERE a = 'b' FILTER NOT 'c'" = .ok _ :=
    congrArg Outcome.result hread
  obtain ⟨hcondition, hfilter⟩ := requestBody_holds_queryString.2 _ _ h
  obtain ⟨s, hs, -, hquery⟩ := hcondition _ rfl
  cases hs
  obtain ⟨f, hf, -⟩ | ⟨f, hf, -⟩ | ⟨s', hs', -, hclause⟩ := hfilter _ rfl
  · cases hf
  · cases hf
  · cases hs'
    exact ⟨_, h, hquery, hclause⟩

end Statement

end SearchSql
