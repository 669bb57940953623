import SearchSql.Proofs.RoundTrip

/-!
# The statements that reading makes

A statement is well-formed if its names are names, its lists are not empty, its conditions are
canonical and its numbers fit into 32 bits.  Reading makes well-formed statements only, and every
well-formed statement is read from some text.

* `Statement.WellFormed` : the property.
* `Statement.wellFormed_of_derives` : each production of the grammar keeps to it.
* `Spellable ts` : some text has the tokens `ts`; the tokens of each part of a well-formed
  statement are spellable.
* `Statement.exists_ofText_eq_ok_iff` : **the statements that reading makes are exactly the
  well-formed ones.**
-/

namespace SearchSql

open Text Grammar

/-- The parts of a statement are such as a text can give. -/
structure Statement.WellFormed (q : Statement) : Prop where
  index : IsName q.index
  fields : ∀ ns ∈ q.fields, ns ≠ [] ∧ ∀ n ∈ ns, IsName n
  facets : ∀ ns ∈ q.facets, ns ≠ [] ∧ ∀ n ∈ ns, IsName n
  /-- The body of a script may be any text. -/
  script : ∀ f ∈ q.script, IsName f.name
  condition : ∀ e ∈ q.condition, e.Canonical
  filter : ∀ e ∈ q.filter, e.IsFilter
  order : ∀ ks ∈ q.order, ks ≠ [] ∧ ∀ k ∈ ks, IsName k.field
  offset : q.offset < 4294967296
  limit : q.limit < 4294967296

/-! ### What is read is well-formed -/

namespace Statement

theorem ne_nil_of_listed {α : Type} {P : Phrase α} {ts : List Token} {as : List α} {R : α → Prop}
    (h : Listed P ts as) (hts : ∀ t ∈ ts, t.Lexical)
    (hP : ∀ us a, P us a → (∀ t ∈ us, t.Lexical) → R a) : as ≠ [] ∧ ∀ a ∈ as, R a := by
  induction h with
  | one ha => exact ⟨by simp, by simpa using hP _ _ ha hts⟩
  | more ha _ ih =>
    have ha := hP _ _ ha fun t ht => hts t (by simp [ht])
    have has := (ih fun t ht => hts t (by simp [ht])).2
    exact ⟨by simp, by simpa using ⟨ha, has⟩⟩

theorem isName_of_names {ts : List Token} {ns : List String} (h : Names ts ns)
    (hts : ∀ t ∈ ts, t.Lexical) : ns ≠ [] ∧ ∀ n ∈ ns, IsName n := by
  refine ne_nil_of_listed h hts ?_
  rintro us n ⟨hn⟩ hus
  exact .of_name hn (hus _ List.mem_cons_self)

theorem isName_of_sortItem {ts : List Token} {k : SortKey} (h : SortItem ts k)
    (hts : ∀ t ∈ ts, t.Lexical) : IsName k.field := by
  cases h with
  | plain hn => exact .of_name hn (hts _ List.mem_cons_self)
  | asc hn _ => exact .of_name hn (hts _ List.mem_cons_self)
  | desc hn _ => exact .of_name hn (hts _ List.mem_cons_self)

theorem lt_of_limit {ts : List Token} {offset limit : Nat} (h : Limit ts offset limit) :
    offset < 4294967296 ∧ limit < 4294967296 := by
  have hint : ∀ {t n}, Integer t n → n < 4294967296 := by
    rintro t n ⟨_, _, _, hn⟩
    exact hn
  cases h with
  | absent => decide
  | limit _ hn => exact ⟨by decide, hint hn⟩
  | page _ hm hn => exact ⟨hint hm, hint hn⟩

theorem wellFormed_of_derives {ts : List Token} {q : Statement} (h : Derives ts q)
    (hts : ∀ t ∈ ts, t.Lexical) : q.WellFormed := by
  obtain ⟨hcondition, hfilter⟩ := canonical_of_derives h hts
  obtain ⟨_, hsel, hfac, hscr, _, hindex, hcon, hfil, hord, hlim⟩ := h
  obtain ⟨hoffset, hlimit⟩ := lt_of_limit hlim
  refine ⟨.of_name hindex (hts _ (by simp)), ?_, ?_, ?_, hcondition, hfilter, ?_, hoffset, hlimit⟩
  · rintro ns ⟨⟩
    obtain _ | hns := hsel
    exact isName_of_names hns fun t ht => hts t (by simp [ht])
  · refine forall_mem_of_clause hfac (fun t ht => hts t (by simp [ht])) ?_
    exact fun us ns hns hus => isName_of_names hns hus
  · refine forall_mem_of_clause hscr (fun t ht => hts t (by simp [ht])) ?_
    rintro us f ⟨body, hn⟩ hus
    exact .of_name hn (hus _ List.mem_cons_self)
  · refine forall_mem_of_clause hord (fun t ht => hts t (by simp [ht])) ?_
    rintro us ks ⟨_, hks⟩ hus
    exact ne_nil_of_listed hks (fun t ht => hus t (List.mem_cons_of_mem _ ht))
      fun vs k hk hvs => isName_of_sortItem hk hvs

end Statement

/-! ### Every well-formed statement is read from a text -/

/-- Some text has these tokens. -/
def Spellable (ts : List Token) : Prop := ∃ cs, Written cs ts

namespace Spellable

variable {ts us : List Token}

theorem nil : Spellable [] := ⟨[], fun _ _ => rfl⟩

theorem append (h : Spellable ts) (h' : Spellable us) : Spellable (ts ++ us) := by
  obtain ⟨cs, hcs⟩ := h
  obtain ⟨ds, hds⟩ := h'
  exact ⟨_, hcs.append hds⟩

theorem keyword_cons (k : Keyword) (h : Spellable ts) : Spellable (.word k.spelling :: ts) :=
  append ⟨_, written_keyword k⟩ h

theorem mark_cons {c : Char} (hc : isSign c = true) (h : Spellable ts) :
    Spellable (.mark c :: ts) :=
  append ⟨_, written_mark hc⟩ h

end Spellable

/-- Some text stands for the value in the language. -/
def Phrase.Expresses {α : Type} (P : Phrase α) (a : α) : Prop := ∃ ts, Spellable ts ∧ P ts a

theorem Phrase.Spelled.expresses {α : Type} {P : Phrase α} {cs : List Char} {a : α}
    (h : P.Spelled cs a) : P.Expresses a := by
  obtain ⟨ts, hts, ha⟩ := h
  exact ⟨ts, ⟨cs, hts⟩, ha⟩

theorem expresses_listed {α : Type} {P : Phrase α} {as : List α} (hne : as ≠ [])
    (h : ∀ a ∈ as, P.Expresses a) : (Listed P).Expresses as := by
  induction as with
  | nil => exact absurd rfl hne
  | cons a as ih =>
    obtain ⟨ts, hts, ha⟩ := h a List.mem_cons_self
    by_cases has : as = []
    · subst has
      exact ⟨ts, hts, .one ha⟩
    · obtain ⟨us, hus, has⟩ := ih has fun x hx => h x (List.mem_cons_of_mem a hx)
      have hcomma : Spellable (.mark ',' :: us) := .mark_cons (by decide) hus
      exact ⟨_, hts.append hcomma, .more ha has⟩

theorem expresses_clause {α : Type} {k : Keyword} {P : Phrase α} {o : Option α}
    (h : ∀ a ∈ o, P.Expresses a) : (Clause k P).Expresses o := by
  cases o with
  | none => exact ⟨[], .nil, .absent⟩
  | some a =>
    obtain ⟨ts, hts, ha⟩ := h a rfl
    exact ⟨_, hts.keyword_cons k, .present (.word (Keyword.ofWord?_spelling k)) ha⟩

theorem expresses_names {ns : List String} (h : ns ≠ [] ∧ ∀ n ∈ ns, IsName n) :
    Names.Expresses ns :=
  expresses_listed h.1 fun n hn => (h.2 n hn).spelled.expresses

theorem expresses_selection {fields : Option (List String)}
    (h : ∀ ns ∈ fields, ns ≠ [] ∧ ∀ n ∈ ns, IsName n) : Selection.Expresses fields := by
  cases fields with
  | none =>
    exact ⟨_, .mark_cons (by decide) .nil, .all⟩
  | some ns =>
    obtain ⟨ts, hts, hns⟩ := expresses_names (h ns rfl)
    exact ⟨ts, hts, .fields hns⟩

theorem expresses_script {f : ScriptField} (h : IsName f.name) : Script.Expresses f := by
  have hbody : Spellable [.quoted f.body] := ⟨_, written_quote f.body⟩
  have heq : Spellable [.mark '=', .quoted f.body] := .mark_cons (by decide) hbody
  exact ⟨_, Spellable.append ⟨_, h.written⟩ heq, .intro f.body (name_ofWord h)⟩

theorem expresses_sortItem {k : SortKey} (h : IsName k.field) : SortItem.Expresses k := by
  obtain ⟨f, d⟩ := k
  have hname : Spellable [Token.ofWord f.toList] := ⟨_, h.written⟩
  have hkey (k : Keyword) : Spellable [Token.ofWord f.toList, .word k.spelling] :=
    hname.append (Spellable.nil.keyword_cons k)
  cases d with
  | asc => exact ⟨_, hkey .asc, .asc (name_ofWord h) (.word (Keyword.ofWord?_spelling .asc))⟩
  | desc => exact ⟨_, hkey .desc, .desc (name_ofWord h) (.word (Keyword.ofWord?_spelling .desc))⟩

theorem expresses_order {ks : List SortKey} (h : ks ≠ [] ∧ ∀ k ∈ ks, IsName k.field) :
    Order.Expresses ks := by
  obtain ⟨ts, hts, hks⟩ := expresses_listed h.1 fun k hk => expresses_sortItem (h.2 k hk)
  exact ⟨_, hts.keyword_cons .by, .intro (.word (Keyword.ofWord?_spelling .by)) hks⟩

/-- A number that fits into 32 bits is an integer of a statement. -/
theorem exists_integer {n : Nat} (hn : n < 4294967296) :
    ∃ t, Spellable [t] ∧ Integer t n := by
  -- its decimal notation is in the range of numbers
  have hlt : n < Decimal.coefficientBound := Nat.lt_trans hn (by decide)
  refine ⟨.number ⟨false, n, 0, hlt, by decide⟩, ⟨_, written_number rfl⟩, ?_⟩
  rw [← integer?_eq_some_iff, Token.integer?, if_pos ⟨rfl, rfl⟩]
  exact inRange?_eq_some_iff.2 ⟨hn, rfl⟩

theorem exists_limit {offset limit : Nat} (hoffset : offset < 4294967296)
    (hlimit : limit < 4294967296) : ∃ ts, Spellable ts ∧ Limit ts offset limit := by
  obtain ⟨t, ht, hm⟩ := exists_integer hoffset
  obtain ⟨t', ht', hn⟩ := exists_integer hlimit
  have hcomma : Spellable [.mark ',', t'] := .mark_cons (by decide) ht'
  exact ⟨_, (ht.append hcomma).keyword_cons .limit,
    .page (.word (Keyword.ofWord?_spelling .limit)) hm hn⟩

namespace Statement

theorem WellFormed.expresses {q : Statement} (h : q.WellFormed) : Derives.Expresses q := by
  obtain ⟨sel, hsel, hfields⟩ := expresses_selection h.fields
  obtain ⟨fac, hfac, hfacets⟩ :=
    expresses_clause (k := .facets) fun ns hns => expresses_names (h.facets ns hns)
  obtain ⟨scr, hscr, hscript⟩ :=
    expresses_clause (k := .script) fun f hf => expresses_script (h.script f hf)
  obtain ⟨con, hcon, hcondition⟩ :=
    expresses_clause (k := .where) fun e he => (h.condition e he).spelled.expresses
  obtain ⟨fil, hfil, hfilter⟩ :=
    expresses_clause (k := .filter) fun e he => (h.filter e he).spelled.expresses
  obtain ⟨ord, hord, horder⟩ :=
    expresses_clause (k := .order) fun ks hks => expresses_order (h.order ks hks)
  obtain ⟨lim, hlim, hlimit⟩ := exists_limit h.offset h.limit
  -- the clauses in their order, with a blank between each two
  have hindex : Spellable [Token.ofWord q.index.toList] := ⟨_, h.index.written⟩
  have hsearch : Spellable (.word Keyword.from.spelling :: Token.ofWord q.index.toList ::
      (con ++ (fil ++ (ord ++ lim)))) :=
    (hindex.append (hcon.append (hfil.append (hord.append hlim)))).keyword_cons .from
  refine ⟨_, (hsel.append (hfac.append (hscr.append hsearch))).keyword_cons .select, ?_⟩
  exact .intro (.word (Keyword.ofWord?_spelling .select)) hfields hfacets hscript
    (.word (Keyword.ofWord?_spelling .from)) (name_ofWord h.index) hcondition hfilter horder hlimit

/-- **The statements that reading makes are exactly the well-formed ones.** -/
theorem exists_ofText_eq_ok_iff (q : Statement) : (∃ text, ofText text = .ok q) ↔ q.WellFormed := by
  constructor
  · rintro ⟨text, h⟩
    obtain ⟨ts, hts, hlex⟩ := exists_derives_of_ofText h
    exact wellFormed_of_derives hts hlex
  · intro h
    obtain ⟨ts, ⟨cs, hcs⟩, hq⟩ := h.expresses
    refine ⟨String.ofList cs, ofText_eq_ok_of_spelled ⟨ts, ?_, hq⟩⟩
    rwa [String.toList_ofList]

end Statement

end SearchSql
