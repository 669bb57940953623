import SearchSql.Proofs.Compilation

/-!
# What a request tells about its statement

Two statements that were read make the same request exactly if they are the same up to what a
request does not show: the order and the repetition of facets, and how the terms of a condition
are grouped and written, as long as the query string is the same.

* `Endpoint.SameHost` : hosts that differ in final slashes only.
* `Expr.SameQuery`, `Expr.SameFilter` : conditions that have the same query string.
* `Statement.SameSearch` : statements that ask for the same search.
* `Endpoint.searchUrl_inj` : the host and the index can be told from the URL.
* `Statement.WellFormed.sameSearch_iff` : the search can be told from the index and the body.
* `Statement.request_eq_iff` : **requests are equal exactly if the hosts and the searches are.**
-/

namespace SearchSql

open Text Grammar

/-! ### Hosts and URLs -/

namespace Endpoint

/-- The hosts agree but for slashes at their ends. -/
def SameHost (host host' : String) : Prop :=
  ∃ base m n, host.toList = base ++ List.replicate m '/' ∧
    host'.toList = base ++ List.replicate n '/'

theorem ofHost_eq_iff {host host' : String} : ofHost host = ofHost host' ↔ SameHost host host' := by
  simp only [ofHost, mk.injEq, String.ofList_inj]
  constructor
  · intro h
    obtain ⟨d, hd, hslash⟩ := exists_dropEndWhile_append (p := (· == '/')) host.toList
    obtain ⟨d', hd', hslash'⟩ := exists_dropEndWhile_append (p := (· == '/')) host'.toList
    simp only [beq_iff_eq] at hslash hslash'
    refine ⟨dropEndWhile (· == '/') host.toList, d.length, d'.length, ?_, ?_⟩
    · rw [← List.eq_replicate_of_mem hslash, hd]
    · rw [← List.eq_replicate_of_mem hslash', h, hd']
  · rintro ⟨base, m, n, h, h'⟩
    rw [h, h', dropEndWhile_append (by simp), dropEndWhile_append (by simp)]

/-- The last of the separators in front of a part without one is found again. -/
theorem append_cons_inj {c : Char} {l l' r r' : List Char} (hr : c ∉ r) (hr' : c ∉ r') :
    l ++ c :: r = l' ++ c :: r' ↔ l = l' ∧ r = r' := by
  constructor
  · intro h
    obtain ⟨d, hd, h⟩ | ⟨d, hd, h⟩ := List.append_eq_append_iff.1 h
    · cases d with
      | nil => simpa [hd] using h
      | cons x d =>
        rw [List.cons_append, List.cons.injEq] at h
        exact absurd (by rw [h.2]; simp) hr
    · cases d with
      | nil => simpa [hd, eq_comm] using h
      | cons x d =>
        rw [List.cons_append, List.cons.injEq] at h
        exact absurd (by rw [h.2]; simp) hr'
  · rintro ⟨rfl, rfl⟩
    rfl

/-- An index has no slash, so the host and the index can be told from the URL. -/
theorem searchUrl_inj {e e' : Endpoint} {index index' : String} (h : IsName index)
    (h' : IsName index') :
    e.searchUrl index = e'.searchUrl index' ↔ e = e' ∧ index = index' := by
  have hslash : ∀ {n : String}, IsName n → '/' ∉ n.toList :=
    fun hn hmem => absurd (hn.isWordChar '/' hmem) (by decide)
  have hcut : ∀ (e : Endpoint) (n : String), (e.searchUrl n).toList =
      (e.host.toList ++ '/' :: n.toList) ++ "/_search".toList := by
    intro e n
    simp [searchUrl, String.toList_append]
  rw [← String.toList_inj, hcut, hcut, List.append_left_inj, append_cons_inj (hslash h) (hslash h'),
    String.toList_inj, String.toList_inj]
  obtain ⟨host⟩ := e
  obtain ⟨host'⟩ := e'
  rw [mk.injEq]

end Endpoint

/-! ### Clauses -/

namespace Expr

/-- The expressions have the same query string. -/
def SameQuery (e e' : Expr) : Prop := ∃ s, e.queryString? = some s ∧ e'.queryString? = some s

/-- The filters are tests of the same kind for the same field, or have the same query string. -/
inductive SameFilter : Expr → Expr → Prop
  | present (f : String) : SameFilter (.present f) (.present f)
  | missing (f : String) : SameFilter (.missing f) (.missing f)
  | query {e e' : Expr} : SameQuery e e' → SameFilter e e'

theorem queryClause_eq_iff {e e' : Expr} (h : e.Canonical) (h' : e'.Canonical) :
    e.queryClause = e'.queryClause ↔ SameQuery e e' := by
  obtain ⟨s, hs⟩ := h.exists_queryString?
  obtain ⟨s', hs'⟩ := h'.exists_queryString?
  constructor
  · intro heq
    have hat := at?_queryClause hs
    rw [heq, at?_queryClause hs', Option.some.injEq, Json.text.injEq] at hat
    exact ⟨s, hs, hat ▸ hs'⟩
  · rintro ⟨t, ht, ht'⟩
    rw [queryClause, queryClause, ht, ht']

theorem queryClause_ne_matchAllClause (e : Expr) : matchAllClause ≠ e.queryClause := by
  simp [matchAllClause, queryClause]

theorem Canonical.filterClause_eq {e : Expr} (h : e.Canonical) :
    e.filterClause = .ofMembers [("query", e.queryClause)] := by
  obtain ⟨s, hs⟩ := h.exists_queryString?
  exact filterClause_eq_of_queryString? hs

theorem filterClause_eq_iff {e e' : Expr} (h : e.IsFilter) (h' : e'.IsFilter) :
    e.filterClause = e'.filterClause ↔ SameFilter e e' := by
  constructor
  · intro heq
    -- the key of the clause tells the three kinds of filters apart
    cases h with
    | present _ =>
      cases h' with
      | present _ =>
        simp only [filterClause, Json.ofMembers_singleton_inj, Json.text.injEq, true_and] at heq
        exact heq ▸ .present _
      | missing _ => simp [filterClause] at heq
      | canonical h' =>
        rw [h'.filterClause_eq] at heq
        simp [filterClause] at heq
    | missing _ =>
      cases h' with
      | present _ => simp [filterClause] at heq
      | missing _ =>
        simp only [filterClause, Json.ofMembers_singleton_inj, Json.text.injEq, true_and] at heq
        exact heq ▸ .missing _
      | canonical h' =>
        rw [h'.filterClause_eq] at heq
        simp [filterClause] at heq
    | canonical h =>
      rw [h.filterClause_eq] at heq
      cases h' with
      | present _ => simp [filterClause] at heq
      | missing _ => simp [filterClause] at heq
      | canonical h' =>
        rw [h'.filterClause_eq, Json.ofMembers_singleton_inj] at heq
        exact .query ((queryClause_eq_iff h h').1 heq.2)
  · intro hsame
    cases hsame with
    | present f => rfl
    | missing f => rfl
    | query hsame =>
      obtain ⟨s, hs, hs'⟩ := hsame
      rw [filterClause_eq_of_queryString? hs, filterClause_eq_of_queryString? hs', queryClause,
        queryClause, hs, hs']

end Expr

theorem Json.lookup_map_self (v : String → Json) (keys : List String) (key : String) :
    (keys.map fun k => (k, v k)).lookup key = if key ∈ keys then some (v key) else none := by
  induction keys with
  | nil => rfl
  | cons k keys ih =>
    rw [List.map_cons, lookup_cons_ite, ih]
    by_cases h : key = k
    · simp [h]
    · simp [h]

/-- The facets' clause has a member for a field exactly if the field is one of the facets. -/
theorem get?_facetsClause (fields : List String) (key : String) :
    (facetsClause fields).get? key =
      if key ∈ fields then some (.ofMembers [("terms", .ofMembers [("field", .text key)])])
      else none := by
  rw [facetsClause, Json.get?_ofMembers, ← List.map_reverse,
    Json.lookup_map_self fun f => .ofMembers [("terms", .ofMembers [("field", .text f)])]]
  simp only [List.mem_reverse]

theorem facetsClause_eq_iff {fields fields' : List String} :
    facetsClause fields = facetsClause fields' ↔ ∀ f, f ∈ fields ↔ f ∈ fields' := by
  constructor
  · intro h f
    have hget := congrArg (Json.get? f) h
    rw [get?_facetsClause, get?_facetsClause] at hget
    by_cases hf : f ∈ fields
    · by_cases hf' : f ∈ fields'
      · exact ⟨fun _ => hf', fun _ => hf⟩
      · simp [hf, hf'] at hget
    · by_cases hf' : f ∈ fields'
      · simp [hf, hf'] at hget
      · exact ⟨fun h => absurd h hf, fun h => absurd h hf'⟩
  · intro h
    refine Json.ofMembers_eq_of_get? fun key => ?_
    change (facetsClause fields).get? key = (facetsClause fields').get? key
    rw [get?_facetsClause, get?_facetsClause]
    simp only [h key]

theorem ScriptField.clause_inj (s s' : ScriptField) (h : s.clause = s'.clause) : s = s' := by
  obtain ⟨name, body⟩ := s
  obtain ⟨name', body'⟩ := s'
  simpa [clause] using h

theorem Direction.toText_inj {d d' : Direction} (h : d.toText = d'.toText) : d = d' := by
  cases d with
  | asc =>
    cases d' with
    | asc => rfl
    | desc => exact absurd h (by decide)
  | desc =>
    cases d' with
    | asc => exact absurd h (by decide)
    | desc => rfl

theorem SortKey.clause_inj (k k' : SortKey) (h : k.clause = k'.clause) : k = k' := by
  obtain ⟨field, direction⟩ := k
  obtain ⟨field', direction'⟩ := k'
  simp only [clause, Json.ofMembers_singleton_inj, Json.text.injEq] at h
  obtain ⟨rfl, h⟩ := h
  rw [Direction.toText_inj h]

theorem Json.texts_inj (ss ss' : List String) (h : texts ss = texts ss') : ss = ss' := by
  rw [texts, texts, Json.list.injEq, List.map_inj_right fun _ _ => Json.text.inj] at h
  exact h

theorem sortClauses_inj (ks ks' : List SortKey)
    (h : Json.list (ks.map SortKey.clause) = .list (ks'.map SortKey.clause)) : ks = ks' := by
  rwa [Json.list.injEq, List.map_inj_right SortKey.clause_inj] at h

/-! ### Bodies -/

/-- Parts that may be left out have the same clauses if both are left out, or both are there and
correspond to each other. -/
theorem map_eq_map_iff_rel {α β : Type} {f : α → β} {R : α → α → Prop} {o o' : Option α}
    (h : ∀ a ∈ o, ∀ a' ∈ o', f a = f a' ↔ R a a') : o.map f = o'.map f ↔ Option.Rel R o o' := by
  cases o with
  | none =>
    cases o' with
    | none => exact ⟨fun _ => .none, fun _ => rfl⟩
    | some a' => exact ⟨nofun, nofun⟩
  | some a =>
    cases o' with
    | none => exact ⟨nofun, nofun⟩
    | some a' =>
      rw [Option.map_some, Option.map_some, Option.some.injEq, h a rfl a' rfl]
      exact ⟨.some, fun | .some h => h⟩

namespace Statement

/-- The statements ask for the same search: they agree up to the order and the repetition of the
facets, and up to the query strings of their conditions. -/
structure SameSearch (q q' : Statement) : Prop where
  index : q.index = q'.index
  fields : q.fields = q'.fields
  facets : Option.Rel (fun fs fs' => ∀ f, f ∈ fs ↔ f ∈ fs') q.facets q'.facets
  script : q.script = q'.script
  condition : Option.Rel Expr.SameQuery q.condition q'.condition
  filter : Option.Rel Expr.SameFilter q.filter q'.filter
  order : q.order = q'.order
  offset : q.offset = q'.offset
  limit : q.limit = q'.limit

/-- The body shows each part of the statement. -/
theorem requestBody_eq_iff_member? (q q' : Statement) :
    q.requestBody = q'.requestBody ↔ ∀ key, q.member? key = q'.member? key := by
  constructor
  · intro h key
    rw [← get?_requestBody, h, get?_requestBody]
  · intro h
    refine Json.ofMembers_eq_of_get? fun key => ?_
    exact (get?_requestBody q key).trans ((h key).trans (get?_requestBody q' key).symm)

theorem wellFormed_of_ofText {text : String} {q : Statement} (h : ofText text = .ok q) :
    q.WellFormed := by
  obtain ⟨ts, hts, hlex⟩ := exists_derives_of_ofText h
  exact wellFormed_of_derives hts hlex

theorem condition_clause_eq_iff {o o' : Option Expr} (h : ∀ e ∈ o, e.Canonical)
    (h' : ∀ e ∈ o', e.Canonical) :
    o.elim matchAllClause Expr.queryClause = o'.elim matchAllClause Expr.queryClause ↔
      Option.Rel Expr.SameQuery o o' := by
  rw [← map_eq_map_iff_rel fun e he e' he' => Expr.queryClause_eq_iff (h e he) (h' e' he')]
  cases o with
  | none =>
    cases o' with
    | none => exact ⟨fun _ => rfl, fun _ => rfl⟩
    | some e' => exact ⟨fun h => absurd h e'.queryClause_ne_matchAllClause, nofun⟩
  | some e =>
    cases o' with
    | none => exact ⟨fun h => absurd h.symm e.queryClause_ne_matchAllClause, nofun⟩
    | some e' => exact Option.some_inj.symm

theorem filter_clause_eq_iff {o o' : Option Expr} (h : ∀ e ∈ o, e.IsFilter)
    (h' : ∀ e ∈ o', e.IsFilter) :
    o.map Expr.filterClause = o'.map Expr.filterClause ↔ Option.Rel Expr.SameFilter o o' :=
  map_eq_map_iff_rel fun e he e' he' => Expr.filterClause_eq_iff (h e he) (h' e' he')

theorem facets_clause_eq_iff {o o' : Option (List String)} :
    o.map facetsClause = o'.map facetsClause ↔
      Option.Rel (fun fs fs' => ∀ f, f ∈ fs ↔ f ∈ fs') o o' :=
  map_eq_map_iff_rel fun _ _ _ _ => facetsClause_eq_iff

/-- The search can be told from the index and the body of the request. -/
theorem WellFormed.sameSearch_iff {q q' : Statement} (h : q.WellFormed) (h' : q'.WellFormed) :
    q.SameSearch q' ↔ q.index = q'.index ∧ q.requestBody = q'.requestBody := by
  have hcondition := condition_clause_eq_iff h.condition h'.condition
  have hfilter := filter_clause_eq_iff h.filter h'.filter
  rw [requestBody_eq_iff_member?]
  constructor
  · intro hsame
    refine ⟨hsame.index, fun key => ?_⟩
    unfold member?
    rw [hcondition.2 hsame.condition, hfilter.2 hsame.filter,
      facets_clause_eq_iff.2 hsame.facets, hsame.script, hsame.fields, hsame.order, hsame.offset,
      hsame.limit]
  · rintro ⟨hindex, hmember⟩
    exact
      { index := hindex
        fields := (Option.map_inj_right Json.texts_inj).1 (hmember "fields")
        facets := facets_clause_eq_iff.1 (hmember "facets")
        script := (Option.map_inj_right ScriptField.clause_inj).1 (hmember "script_fields")
        condition := hcondition.1 (Option.some.inj (hmember "query"))
        filter := hfilter.1 (hmember "filter")
        order := (Option.map_inj_right sortClauses_inj).1 (hmember "sort")
        offset := Json.number.inj (Option.some.inj (hmember "from"))
        limit := Json.number.inj (Option.some.inj (hmember "size")) }

/-- **Requests are equal exactly if the hosts and the searches are.** -/
theorem request_eq_iff {text text' : String} {q q' : Statement} (hq : ofText text = .ok q)
    (hq' : ofText text' = .ok q') (host host' : String) :
    q.request (.ofHost host) = q'.request (.ofHost host') ↔
      Endpoint.SameHost host host' ∧ q.SameSearch q' := by
  have h := wellFormed_of_ofText hq
  have h' := wellFormed_of_ofText hq'
  rw [request, request, SearchRequest.mk.injEq, Endpoint.searchUrl_inj h.index h'.index,
    Endpoint.ofHost_eq_iff, h.sameSearch_iff h', and_assoc]

theorem request_eq_of_permuted_facets :
    ∃ q q', ofText "SELECT * FACETS a, b FROM t WHERE x = 'v'" = .ok q ∧
      ofText "SELECT * FACETS b, a, b FROM t WHERE 'x:v'" = .ok q' ∧
      q.request (.ofHost "http://h") = q'.request (.ofHost "http://h/") := by
  have hread : Reader.statement.read 41
      (Token.scan "SELECT * FACETS a, b FROM t WHERE x = 'v'") = .done
        { facets := some ["a", "b"]
          index := "t"
          condition := some (.compare .eq "x" (.text "v")) } [] := by
    decide +kernel
  have hread' : Reader.statement.read 42
      (Token.scan "SELECT * FACETS b, a, b FROM t WHERE 'x:v'") = .done
        { facets := some ["b", "a", "b"]
          index := "t"
          condition := some (.text "x:v") } [] := by
    decide +kernel
  have h : ofText "SELECT * FACETS a, b FROM t WHERE x = 'v'" = .ok _ :=
    congrArg Outcome.result hread
  have h' : ofText "SELECT * FACETS b, a, b FROM t WHERE 'x:v'" = .ok _ :=
    congrArg Outcome.result hread'
  have hfacets : ∀ f, f ∈ ["a", "b"] ↔ f ∈ ["b", "a", "b"] := by
    intro f
    simp only [List.mem_cons, List.not_mem_nil, or_false]
    grind
  refine ⟨_, _, h, h', (request_eq_iff h h' _ _).2 ⟨⟨"http://h".toList, 0, 1, rfl, rfl⟩, ?_⟩⟩
  exact
    { index := rfl
      fields := rfl
      facets := .some hfacets
      script := rfl
      condition := .some ⟨"x:v", rfl, rfl⟩
      filter := .none
      order := rfl
      offset := rfl
      limit := rfl }

end Statement

end SearchSql
