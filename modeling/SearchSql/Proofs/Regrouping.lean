import SearchSql.Proofs.Compilation
import SearchSql.Proofs.LeftToRight

/-!
# Trees built by hand are regrouped

The statement language has no parentheses, so the text of a tree shows its terms and the
connectives between them, and not how they are grouped.  What is read from the text is the tree of
the same run of terms, grouped from left to right.

## Main definitions

* `Expr.Legible` : a tree whose text can be read, however its groups are nested.
* `Expr.regroup` : the terms of a tree, grouped from left to right.
* `Run.text` : a run as text, without regard to groups.

## Main statements

* `Expr.Legible.text_flat` : a way to write trees that joins the children of each group by its
  connective shows the run of terms only.
* `Expr.Legible.source_regroup`, `Expr.Legible.queryString?_regroup` : so regrouping changes
  neither the text nor the query string.
* `Statement.ofText_source_regroup` : **the text of a tree is read as the regrouped tree**, which
  has the same text and the same query string, and is read back unchanged.
-/

namespace SearchSql

/-- A run as text, where `f` writes its terms. -/
def Run.text (f : Expr → String) (r : Run Connective Expr) : String :=
  f r.first ++ String.join (r.more.map fun ct => ct.1.separator ++ f ct.2)

namespace Expr

/-- A tree whose text can be read: terms, in groups that are not empty. -/
inductive Legible : Expr → Prop
  | term {e : Expr} : e.IsTerm → Legible e
  | group {c : Connective} {es : List Expr} : es ≠ [] → (∀ e ∈ es, Legible e) →
      Legible (.group c es)

/-- The terms of a tree, grouped from left to right. -/
def regroup (e : Expr) : Expr := ofRun e.flat

/-! ### The terms of a tree -/

theorem IsTerm.groups {t : Expr} (h : t.IsTerm) : t.groups = [] := by
  cases h with
  | plain h => cases h <;> rfl
  | not h => cases h <;> rfl

theorem IsTerm.flat {t : Expr} (h : t.IsTerm) : t.flat = ⟨t, []⟩ :=
  flat_of_term (link?_of_groups h.groups)

theorem mem_flatMore {c : Connective} {es : List Expr} {t : Expr} :
    t ∈ (flatMore c es).map Prod.snd ↔ ∃ e ∈ es, t ∈ e.flat.items := by
  induction es with
  | nil => simp [flatMore]
  | cons e es ih =>
    have hitems : (flatMore c (e :: es)).map Prod.snd =
        e.flat.items ++ (flatMore c es).map Prod.snd := by
      simp [flatMore, Run.items]
    rw [hitems, List.mem_append, ih]
    simp only [List.mem_cons, exists_eq_or_imp]

theorem Legible.isTerm_of_mem_flat {e : Expr} (h : e.Legible) : ∀ t ∈ e.flat.items, t.IsTerm := by
  induction h with
  | term h =>
    rw [h.flat]
    simpa [Run.items] using h
  | @group c es hne _ ih =>
    obtain ⟨e, es, rfl⟩ := List.exists_cons_of_ne_nil hne
    intro t ht
    have hitems : (Expr.group c (e :: es)).flat.items =
        e.flat.items ++ (flatMore c es).map Prod.snd := by
      simp [Expr.flat, Run.items]
    rw [hitems] at ht
    rcases List.mem_append.1 ht with ht | ht
    · exact ih e List.mem_cons_self t ht
    · obtain ⟨x, hx, ht⟩ := mem_flatMore.1 ht
      exact ih x (List.mem_cons_of_mem e hx) t ht

/-! ### Text without groups -/

theorem intercalate_cons_eq_join (sep s : String) (ss : List String) :
    sep.intercalate (s :: ss) = s ++ String.join (ss.map (sep ++ ·)) := by
  induction ss generalizing s with
  | nil => simp
  | cons s' ss ih =>
    rw [String.intercalate_cons_cons, ih, List.map_cons, String.join_cons]
    simp only [String.append_assoc]

theorem join_flatMore (f : Expr → String) (c : Connective) (es : List Expr) :
    String.join ((flatMore c es).map fun ct => ct.1.separator ++ f ct.2) =
      String.join (es.map fun e => c.separator ++ e.flat.text f) := by
  induction es with
  | nil => rfl
  | cons e es ih =>
    rw [flatMore, List.cons_append, List.map_cons, List.map_append, String.join_cons,
      String.join_append, ih, List.map_cons, String.join_cons, Run.text]
    simp only [String.append_assoc]

/-- Where the text of each group is that of its children, with its connective between them, the
text of a tree is that of its terms, with the connectives between them. -/
theorem Legible.text_flat {f : Expr → String}
    (hf : ∀ c es, (Expr.group c es).Legible →
      f (.group c es) = c.separator.intercalate (es.map f))
    {e : Expr} (h : e.Legible) : e.flat.text f = f e := by
  induction h with
  | term h => simp [h.flat, Run.text]
  | @group c es hne hes ih =>
    have hgroup := hf c es (.group hne hes)
    obtain ⟨e, es, rfl⟩ := List.exists_cons_of_ne_nil hne
    have hmore : es.map (fun e => c.separator ++ e.flat.text f) =
        (es.map f).map (c.separator ++ ·) := by
      rw [List.map_map]
      refine List.map_congr_left fun x hx => ?_
      rw [ih x (List.mem_cons_of_mem e hx), Function.comp_apply]
    rw [hgroup, List.map_cons, intercalate_cons_eq_join, ← hmore, ← join_flatMore,
      ← ih e List.mem_cons_self]
    simp only [Run.text, Expr.flat, List.map_append, String.join_append, String.append_assoc]

/-! ### Regrouping -/

theorem Canonical.legible {e : Expr} (h : e.Canonical) : e.Legible := by
  have hgroup : ∀ {c es}, CanonicalGroup c es → (Expr.group c es).Legible := by
    intro c es h
    induction h with
    | terms he _ hes =>
      refine .group (List.cons_ne_nil _ _) fun x hx => .term ?_
      rcases List.mem_cons.1 hx with rfl | hx
      · exact he
      · exact hes x hx
    | nested _ _ _ hes ih =>
      refine .group (List.cons_ne_nil _ _) fun x hx => ?_
      rcases List.mem_cons.1 hx with rfl | hx
      · exact ih
      · exact .term (hes x hx)
  cases h with
  | term h => exact .term h
  | group h => exact hgroup h

/-- A term behind a canonical tree. -/
theorem Canonical.join {e t : Expr} (h : e.Canonical) (c : Connective) (ht : t.IsTerm) :
    (e.join c t).Canonical := by
  rcases join_cases e c t with ⟨es, rfl, hjoin⟩ | ⟨hc, hjoin⟩
  · rw [hjoin]
    cases h with
    | term h => cases h with
      | plain h => cases h
    | group h => exact .group (h.append ht)
  · rw [hjoin]
    refine .group ?_
    cases h with
    | term h => exact .terms h (by simp) (by simpa using ht)
    | group h =>
      refine .nested h (fun heq => hc ?_) (by simp) (by simpa using ht)
      rw [heq]
      rfl

theorem Legible.canonical_regroup {e : Expr} (h : e.Legible) : e.regroup.Canonical := by
  have hfold : ∀ (more : List (Connective × Expr)) (e : Expr), e.Canonical →
      (∀ x ∈ more, x.2.IsTerm) → (more.foldl (fun e x => e.join x.1 x.2) e).Canonical := by
    intro more
    induction more with
    | nil => exact fun e he _ => he
    | cons x more ih =>
      intro e he hmore
      exact ih _ (he.join x.1 (hmore x List.mem_cons_self))
        fun y hy => hmore y (List.mem_cons_of_mem x hy)
  have hterms := h.isTerm_of_mem_flat
  refine hfold e.flat.more _ (.term (hterms _ List.mem_cons_self)) fun x hx => ?_
  exact hterms x.2 (List.mem_cons_of_mem _ (List.mem_map_of_mem hx))

/-- Regrouping keeps the terms and the connectives between them. -/
theorem Legible.flat_regroup {e : Expr} (h : e.Legible) : e.regroup.flat = e.flat :=
  (isTermRun_of_forall fun t ht => (h.isTerm_of_mem_flat t ht).groups).flat_ofRun

/-- What shows the run of terms only does not change with the groups. -/
theorem Legible.text_regroup {f : Expr → String}
    (hf : ∀ c es, (Expr.group c es).Legible →
      f (.group c es) = c.separator.intercalate (es.map f))
    {e : Expr} (h : e.Legible) : f e.regroup = f e := by
  rw [← text_flat hf h, ← h.flat_regroup]
  exact (text_flat hf h.canonical_regroup.legible).symm

theorem Legible.source_regroup {e : Expr} (h : e.Legible) : e.regroup.source = e.source :=
  h.text_regroup fun c es _ => by rw [source, sources_eq_map]

/-! ### Query strings -/

theorem Legible.not_hasPresence {e : Expr} (h : e.Legible) : ¬ e.HasPresence := by
  induction h with
  | term h => exact h.not_hasPresence
  | group _ _ ih =>
    rintro (_ | _ | _ | ⟨hmem, hp⟩)
    exact ih _ hmem hp

theorem Legible.exists_queryString? {e : Expr} (h : e.Legible) :
    ∃ s, e.queryString? = some s := by
  rw [← Option.ne_none_iff_exists', ne_eq, queryString?_eq_none_iff]
  exact h.not_hasPresence

/-- Children that have query strings. -/
theorem queryStrings?_eq_some {es : List Expr} (h : ∀ e ∈ es, ∃ s, e.queryString? = some s) :
    queryStrings? es = some (es.map fun e => e.queryString?.getD "") := by
  induction es with
  | nil => rfl
  | cons e es ih =>
    obtain ⟨s, hs⟩ := h e List.mem_cons_self
    rw [queryStrings?, ih fun x hx => h x (List.mem_cons_of_mem e hx), hs]
    simp [hs]

theorem Legible.queryString?_regroup {e : Expr} (h : e.Legible) :
    e.regroup.queryString? = e.queryString? := by
  have hf : ∀ c es, (Expr.group c es).Legible → (Expr.group c es).queryString?.getD "" =
      c.separator.intercalate (es.map fun e => e.queryString?.getD "") := by
    intro c es hes
    have hchildren : ∀ e ∈ es, ∃ s, e.queryString? = some s := by
      cases hes with
      | term h => cases h with
        | plain h => cases h
      | group _ hes => exact fun e he => (hes e he).exists_queryString?
    rw [queryString?, queryStrings?_eq_some hchildren]
    rfl
  obtain ⟨s, hs⟩ := h.exists_queryString?
  obtain ⟨s', hs'⟩ := h.canonical_regroup.legible.exists_queryString?
  have htext := h.text_regroup (f := fun e => e.queryString?.getD "") hf
  simp only [hs, hs', Option.getD_some] at htext
  rw [hs, hs', htext]

end Expr

/-- **The text of a tree is read as the tree of its terms, grouped from left to right.**  This
tree has the query string and the text of the given one, and from that text it is read back. -/
theorem Statement.ofText_source_regroup (e : Expr) (h : e.Legible) :
    ofText ("SELECT * FROM t WHERE " ++ e.source) =
        .ok { index := "t", condition := some e.regroup } ∧
      ofText ("SELECT * FROM t FILTER " ++ e.source) =
        .ok { index := "t", filter := some e.regroup } ∧
      (∃ s, e.queryString? = some s ∧ e.regroup.queryString? = some s) ∧
      e.regroup.source = e.source ∧
      ofText ("SELECT * FROM t WHERE " ++ e.regroup.source) =
        .ok { index := "t", condition := some e.regroup } ∧
      ofText ("SELECT * FROM t FILTER " ++ e.regroup.source) =
        .ok { index := "t", filter := some e.regroup } := by
  have hwhere := ofText_where_source h.canonical_regroup
  have hfilter := ofText_filter_source (.canonical h.canonical_regroup)
  obtain ⟨s, hs⟩ := h.exists_queryString?
  refine ⟨?_, ?_, ⟨s, hs, h.queryString?_regroup.trans hs⟩, h.source_regroup, hwhere, hfilter⟩
  · rw [← h.source_regroup, hwhere]
  · rw [← h.source_regroup, hfilter]

/-- A group of one child, and groups behind the first child: the text has the terms `"a"`, `"b"`,
`c < "1"` and `NOT "d"`, with `OR`, `AND` and `OR` between them. -/
theorem Statement.ofText_source_regroup_nested :
    let c : Expr := .compare .lt "c" (.text "1")
    let d : Expr := .not (.text "d")
    let e : Expr := .group .or [.group .and [.text "a"],
      .group .and [.text "b", .group .or [c, d]]]
    let e' : Expr := .group .or [.group .and [.group .or [.text "a", .text "b"], c], d]
    e.Legible ∧ e.regroup = e' ∧
      ofText ("SELECT * FROM t WHERE " ++ e.source) =
        .ok { index := "t", condition := some e' } ∧
      ofText ("SELECT * FROM t FILTER " ++ e'.source) =
        .ok { index := "t", filter := some e' } := by
  intro c d e e'
  have hname : IsName "c" :=
    ⟨by decide, List.all_eq_true.1 (by decide), by decide⟩
  have ha : (Expr.text "a").Legible := .term (.plain (.text "a"))
  have hb : (Expr.text "b").Legible := .term (.plain (.text "b"))
  have hc : c.Legible := .term (.plain (.compare hname (.text "1")))
  have hd : d.Legible := .term (.not (.text "d"))
  have hcd : (Expr.group .or [c, d]).Legible := .group (by simp) (by simp [hc, hd])
  have hbcd : (Expr.group .and [.text "b", .group .or [c, d]]).Legible :=
    .group (by simp) (by simp [hb, hcd])
  have hone : (Expr.group .and [.text "a"]).Legible := .group (by simp) (by simp [ha])
  have he : e.Legible := .group (by simp) (by simp [hone, hbcd])
  obtain ⟨hwhere, -, -, -, -, hfilter⟩ := ofText_source_regroup e he
  have hregroup : e.regroup = e' := rfl
  rw [hregroup] at hwhere hfilter
  exact ⟨he, hregroup, hwhere, hfilter⟩

end SearchSql
