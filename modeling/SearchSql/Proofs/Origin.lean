import SearchSql.Proofs.Recognition
import SearchSql.Proofs.Segmentation

/-!
# Where the names and values of a statement come from

Nothing in a statement is made up: its names are words or numbers of the text, its texts are quoted
strings, and its values are tokens, each as the text has it.

## Main definitions

* `Expr.leaves` : the terms of a tree, without their negations.
* `Statement.names`, `Statement.texts`, `Statement.values` : all that a statement takes from its
  text.
* `Expr.From ts e` : what the term says is said by tokens among `ts`.

## Main statements

* `Statement.exists_name_of_derives`, `Statement.quoted_mem_of_derives`,
  `Statement.exists_value_of_derives` : the grammar takes names, texts and values from tokens.
* `Token.isPrefix_drop_of_mem_scan` : a word or a number stands in the text at its place.
-/

namespace SearchSql

open Grammar
open Token (Located)

/-! ### The names and values of statements -/

namespace Expr

mutual

/-- The terms of a tree, without their negations. -/
def leaves : Expr → List Expr
  | .not e => leaves e
  | .group _ es => leavesAll es
  | e => [e]

/-- The terms of trees one after the other. -/
def leavesAll : List Expr → List Expr
  | [] => []
  | e :: es => leaves e ++ leavesAll es

end

theorem leavesAll_eq_flatMap (es : List Expr) : leavesAll es = es.flatMap leaves := by
  induction es with
  | nil => rfl
  | cons e es ih => rw [leavesAll, ih, List.flatMap_cons]

/-- The field that a term is about. -/
def field? : Expr → Option String
  | .present f => some f
  | .missing f => some f
  | .compare _ f _ => some f
  | _ => none

/-- The fragment of a query string that is a term of its own. -/
def query? : Expr → Option String
  | .text query => some query
  | _ => none

/-- The value that a term compares with. -/
def value? : Expr → Option Literal
  | .compare _ _ v => some v
  | _ => none

/-- What a term says is said by some of the tokens. -/
structure From (ts : List Token) (e : Expr) : Prop where
  field : ∀ f ∈ e.field?, ∃ t ∈ ts, Name t f
  query : ∀ s ∈ e.query?, .quoted s ∈ ts
  value : ∀ v ∈ e.value?, ∃ t ∈ ts, Value t v

theorem From.mono {ts us : List Token} {e : Expr} (h : e.From ts) (hsub : ts ⊆ us) : e.From us where
  field f hf := (h.field f hf).imp fun _ ht => ⟨hsub ht.1, ht.2⟩
  query s hs := hsub (h.query s hs)
  value v hv := (h.value v hv).imp fun _ ht => ⟨hsub ht.1, ht.2⟩

end Expr

namespace Statement

/-- The terms of both conditions. -/
def terms (q : Statement) : List Expr :=
  (q.condition.toList ++ q.filter.toList).flatMap Expr.leaves

/-- Every name in a statement: the index, the fields and facets, the name of the script, and the
fields to sort by, to compare and to test for presence. -/
def names (q : Statement) : List String :=
  q.index :: ((q.fields.toList ++ q.facets.toList).flatten ++
    q.script.toList.map ScriptField.name ++ q.order.toList.flatten.map SortKey.field ++
    q.terms.filterMap Expr.field?)

/-- The body of the script, and the terms that are texts. -/
def texts (q : Statement) : List String :=
  q.script.toList.map ScriptField.body ++ q.terms.filterMap Expr.query?

/-- Every value that a field is compared with. -/
def values (q : Statement) : List Literal := q.terms.filterMap Expr.value?

end Statement

/-! ### What a statement says is said by its tokens -/

namespace Expr

variable {ts : List Token} {e : Expr}

theorem from_of_plain (h : Plain ts e) : ∀ x ∈ e.leaves, x.From ts := by
  intro x hx
  cases h with
  | text s =>
    cases List.mem_singleton.1 hx
    exact ⟨nofun, by simp [query?], nofun⟩
  | compare hn _ hv =>
    cases List.mem_singleton.1 hx
    refine ⟨?_, nofun, ?_⟩
    · rintro _ ⟨⟩
      exact ⟨_, List.mem_cons_self, hn⟩
    · rintro _ ⟨⟩
      exact ⟨_, by simp, hv⟩

theorem from_of_term (h : Term ts e) : ∀ x ∈ e.leaves, x.From ts := by
  cases h with
  | plain h => exact from_of_plain h
  | not _ h => exact fun x hx => (from_of_plain h x hx).mono (List.subset_cons_self _ _)

/-- Each further term is said by its own tokens, whichever way it is grouped. -/
theorem from_of_grouped {c : Connective} {es : List Expr} (h : Grouped ts c es) :
    ∀ x ∈ leavesAll es, x.From ts := by
  induction h with
  | start h _ h' =>
    intro x hx
    simp only [leavesAll, List.append_nil, List.mem_append] at hx
    rcases hx with hx | hx
    · exact (from_of_term h x hx).mono (by simp)
    · exact (from_of_term h' x hx).mono (by simp)
  | same _ _ h ih =>
    intro x hx
    simp only [leavesAll_eq_flatMap, List.flatMap_append, List.mem_append] at hx ih
    rcases hx with hx | hx
    · exact (ih x hx).mono (by simp)
    · exact (from_of_term h x (by simpa using hx)).mono (by simp)
  | change _ _ _ h ih =>
    intro x hx
    simp only [leavesAll, leaves, List.append_nil, List.mem_append] at hx
    rcases hx with hx | hx
    · exact (ih x hx).mono (by simp)
    · exact (from_of_term h x hx).mono (by simp)

theorem from_of_expression (h : Expression ts e) : ∀ x ∈ e.leaves, x.From ts := by
  cases h with
  | term h => exact from_of_term h
  | group h => exact from_of_grouped h

theorem from_of_filter (h : Filter ts e) : ∀ x ∈ e.leaves, x.From ts := by
  cases h with
  | present _ hn | missing _ hn =>
    intro x hx
    cases List.mem_singleton.1 hx
    refine ⟨?_, nofun, nofun⟩
    rintro _ ⟨⟩
    exact ⟨_, by simp, hn⟩
  | expression h => exact from_of_expression h

end Expr

/-- The body of a clause stands among the tokens of the clause. -/
theorem exists_of_clause {α : Type} {k : Keyword} {P : Phrase α} {ts : List Token} {o : Option α}
    {a : α} (h : Clause k P ts o) (ha : a ∈ o) : ∃ us ⊆ ts, P us a := by
  cases ha
  obtain _ | ⟨_, ha⟩ := h
  exact ⟨_, List.subset_cons_self _ _, ha⟩

/-- Each phrase of a list stands among the tokens of the list. -/
theorem exists_of_listed {α : Type} {P : Phrase α} {ts : List Token} {as : List α} {a : α}
    (h : Listed P ts as) (ha : a ∈ as) : ∃ us ⊆ ts, P us a := by
  induction h with
  | one h =>
    cases List.mem_singleton.1 ha
    exact ⟨_, List.Subset.refl _, h⟩
  | more h _ ih =>
    rcases List.mem_cons.1 ha with rfl | ha
    · exact ⟨_, by simp, h⟩
    · obtain ⟨us, hsub, hus⟩ := ih ha
      exact ⟨us, fun t ht => by simp [hsub ht], hus⟩

theorem exists_name_of_names {ts : List Token} {ns : List String} {n : String} (h : Names ts ns)
    (hn : n ∈ ns) : ∃ t ∈ ts, Name t n := by
  obtain ⟨_, hsub, ⟨hn⟩⟩ := exists_of_listed h hn
  exact ⟨_, hsub List.mem_cons_self, hn⟩

theorem exists_name_of_order {ts : List Token} {ks : List SortKey} {k : SortKey} (h : Order ts ks)
    (hk : k ∈ ks) : ∃ t ∈ ts, Name t k.field := by
  obtain ⟨_, hks⟩ := h
  obtain ⟨us, hsub, hk⟩ := exists_of_listed hks hk
  cases hk with
  | plain hn | asc hn _ | desc hn _ =>
    exact ⟨_, List.mem_cons_of_mem _ (hsub List.mem_cons_self), hn⟩

namespace Statement

variable {ts : List Token} {q : Statement}

theorem from_of_derives (h : Derives ts q) : ∀ e ∈ q.terms, e.From ts := by
  obtain ⟨-, -, -, -, -, -, hcon, hfil, -, -⟩ := h
  intro x hx
  obtain ⟨e, he, hx⟩ := List.mem_flatMap.1 hx
  rcases List.mem_append.1 he with he | he
  · obtain ⟨us, hsub, hus⟩ := exists_of_clause hcon (Option.mem_toList.1 he)
    exact (Expr.from_of_expression hus x hx).mono fun t ht => by simp [hsub ht]
  · obtain ⟨us, hsub, hus⟩ := exists_of_clause hfil (Option.mem_toList.1 he)
    exact (Expr.from_of_filter hus x hx).mono fun t ht => by simp [hsub ht]

theorem exists_name_of_derives (h : Derives ts q) : ∀ n ∈ q.names, ∃ t ∈ ts, Name t n := by
  have hterms := from_of_derives h
  obtain ⟨-, hsel, hfac, hscr, -, hindex, -, -, hord, -⟩ := h
  intro n hn
  simp only [names, List.mem_cons, List.mem_append, List.mem_flatten, List.mem_map,
    List.mem_filterMap, Option.mem_toList] at hn
  rcases hn with rfl | ((⟨ns, hns | hns, hn⟩ | ⟨s, hs, rfl⟩) | ⟨k, ⟨ks, hks, hk⟩, rfl⟩) |
    ⟨e, he, hf⟩
  · exact ⟨_, by simp, hindex⟩
  · cases hns
    obtain _ | hsel := hsel
    obtain ⟨t, ht, hn⟩ := exists_name_of_names hsel hn
    exact ⟨t, by simp [ht], hn⟩
  · obtain ⟨us, hsub, hus⟩ := exists_of_clause hfac hns
    obtain ⟨t, ht, hn⟩ := exists_name_of_names hus hn
    exact ⟨t, by simp [hsub ht], hn⟩
  · obtain ⟨us, hsub, ⟨body, hn⟩⟩ := exists_of_clause hscr hs
    exact ⟨_, by simp [hsub List.mem_cons_self], hn⟩
  · obtain ⟨us, hsub, hus⟩ := exists_of_clause hord hks
    obtain ⟨t, ht, hn⟩ := exists_name_of_order hus hk
    exact ⟨t, by simp [hsub ht], hn⟩
  · exact (hterms e he).field n hf

theorem quoted_mem_of_derives (h : Derives ts q) : ∀ s ∈ q.texts, .quoted s ∈ ts := by
  have hterms := from_of_derives h
  obtain ⟨-, -, -, hscr, -, -, -, -, -, -⟩ := h
  intro s hs
  simp only [texts, List.mem_append, List.mem_map, List.mem_filterMap, Option.mem_toList] at hs
  rcases hs with ⟨f, hf, rfl⟩ | ⟨e, he, hs⟩
  · obtain ⟨us, hsub, ⟨body, _⟩⟩ := exists_of_clause hscr hf
    have hbody : Token.quoted body ∈ _ := hsub (by simp)
    simp [hbody]
  · exact (hterms e he).query s hs

theorem exists_value_of_derives (h : Derives ts q) : ∀ v ∈ q.values, ∃ t ∈ ts, Value t v := by
  intro v hv
  obtain ⟨e, he, hv⟩ := List.mem_filterMap.1 hv
  exact (from_of_derives h e he).value v hv

end Statement

/-! ### Tokens stand in the text -/

/-- The characters of a token without quotes stand at its place. -/
theorem Token.isPrefix_drop_of_mem_scan {text : String} {l : Located} {run : List Char}
    (hl : l ∈ Token.scan text) (hrun : run ∈ l.token.run?) :
    run <+: text.toList.drop l.start := by
  obtain ⟨front, lexeme, after, hcs, hstart, hlex⟩ :=
    ((segmented_iff text _).2 rfl).exists_isLexeme hl
  rw [hcs, ← hstart, List.nil_append, List.drop_left, hlex.eq_of_run? hrun]
  exact List.prefix_append run after

theorem Grammar.Name.mem_run? {t : Token} {n : String} (h : Name t n) : n.toList ∈ t.run? := by
  cases h <;> rfl

end SearchSql
