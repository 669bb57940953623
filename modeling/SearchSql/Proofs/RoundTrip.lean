import SearchSql.Expr.Source
import SearchSql.Proofs.Recognition
import SearchSql.Proofs.Spelling

/-!
# Expressions that are written are read back

The trees that reading makes have a form of their own: groups have two or more children, all of
them terms except that the first one may be a group of the other connective.  Exactly these trees
are read back from the text that `Expr.source` writes.

* `IsName` : a text that can be the name of a field or an index.
* `Expr.Canonical`, `Expr.IsFilter` : the trees that a `WHERE` and a `FILTER` clause can have.
* `Expr.Canonical.of_expression` : the grammar derives no other trees.
* `Expr.Canonical.spelled` : the text of a canonical tree has tokens from which the grammar derives
  the tree.
* `Statement.ofText_source_iff` : **a tree is read back from its text exactly if some text is read
  as a statement with this tree.**
-/

namespace SearchSql

open Text Grammar

/-- A text that can be a name: word characters that do not make up a keyword. -/
structure IsName (n : String) : Prop where
  ne_empty : n ≠ ""
  isWordChar : ∀ c ∈ n.toList, isWordChar c = true
  not_keyword : Keyword.ofWord? n = none

/-- A value that a comparison can have: any text, or a number without a sign. -/
inductive Literal.IsValue : Literal → Prop
  | text (s : String) : IsValue (.text s)
  | number {d : Decimal} : d.negative = false → IsValue (.number d)

namespace Expr

/-- A term without a negation. -/
inductive IsPlain : Expr → Prop
  | text (q : String) : IsPlain (.text q)
  | compare {op : Comparison} {f : String} {v : Literal} :
      IsName f → v.IsValue → IsPlain (.compare op f v)

/-- A term, which is negated at most once. -/
inductive IsTerm : Expr → Prop
  | plain {e : Expr} : e.IsPlain → IsTerm e
  | not {e : Expr} : e.IsPlain → IsTerm (.not e)

/-- The children of a canonical group: two or more, and all of them terms, except that the first
one may be a canonical group of the other connective. -/
inductive CanonicalGroup : Connective → List Expr → Prop
  | terms {c : Connective} {e : Expr} {es : List Expr} :
      e.IsTerm → es ≠ [] → (∀ e ∈ es, e.IsTerm) → CanonicalGroup c (e :: es)
  | nested {c c' : Connective} {es' es : List Expr} :
      CanonicalGroup c' es' → c ≠ c' → es ≠ [] → (∀ e ∈ es, e.IsTerm) →
      CanonicalGroup c (.group c' es' :: es)

/-- A tree that terms joined by connectives can make up. -/
inductive Canonical : Expr → Prop
  | term {e : Expr} : e.IsTerm → Canonical e
  | group {c : Connective} {es : List Expr} : CanonicalGroup c es → Canonical (.group c es)

/-- A tree that a `FILTER` clause can have. -/
inductive IsFilter : Expr → Prop
  | canonical {e : Expr} : e.Canonical → IsFilter e
  | present {f : String} : IsName f → IsFilter (.present f)
  | missing {f : String} : IsName f → IsFilter (.missing f)

end Expr

/-! ### The trees that the grammar derives -/

theorem toUpper_of_isDigit {c : Char} (h : c.isDigit = true) : c.toUpper = c := by
  have hdigits : ∀ n < 10, (Nat.digitChar n).toUpper = Nat.digitChar n := by decide
  obtain ⟨hlt, hc⟩ := Decimal.digitChar_toNat_sub h
  rw [← hc]
  exact hdigits _ hlt

/-- Keywords do not start with a digit. -/
theorem Keyword.exists_cons_of_ofWord? {w : String} {k : Keyword} (h : ofWord? w = some k) :
    ∃ c cs, w.toList = c :: cs ∧ c.isDigit = false := by
  have hhead : k.spelling.toList.head?.any (fun x => !x.isDigit) = true := by
    cases k <;> decide
  rw [← ofWord?_eq_some_iff.1 h] at hhead
  cases hw : w.toList with
  | nil =>
    rw [hw] at hhead
    cases hhead
  | cons c cs =>
    refine ⟨c, cs, rfl, ?_⟩
    cases hc : c.isDigit with
    | false => rfl
    | true =>
      -- upper case keeps digits
      rw [hw, List.map_cons, toUpper_of_isDigit hc] at hhead
      simp [hc] at hhead

/-- A number is not spelled like a keyword, since it starts with a digit. -/
theorem ofWord?_toText {d : Decimal} (hd : d.negative = false) :
    Keyword.ofWord? d.toText = none := by
  refine Option.eq_none_iff_forall_ne_some.2 fun k hk => ?_
  obtain ⟨c, cs, hcs, hc⟩ := exists_digit_cons_toText hd
  obtain ⟨c', cs', hcs', hc'⟩ := Keyword.exists_cons_of_ofWord? hk
  cases hcs.symm.trans hcs'
  rw [hc] at hc'
  cases hc'

theorem IsName.of_name {t : Token} {n : String} (h : Name t n) (ht : t.Lexical) : IsName n := by
  cases h with
  | unreserved hw =>
    refine ⟨fun h => ht.1 ?_, ht.2.1, forall_not_spells_iff.1 hw⟩
    rw [h]
    rfl
  | number d =>
    refine ⟨fun h => toText_ne_nil ht ?_, fun c hc => isWordChar_of_mem_toText ht hc,
      ofWord?_toText ht⟩
    rw [h]
    rfl

theorem Literal.IsValue.of_value {t : Token} {v : Literal} (h : Value t v) (ht : t.Lexical) :
    v.IsValue := by
  cases h with
  | quoted s => exact .text s
  | number d => exact .number ht
  | word _ _ => exact .text _

namespace Expr

theorem IsPlain.of_plain {ts : List Token} {e : Expr} (h : Plain ts e)
    (hts : ∀ t ∈ ts, t.Lexical) : e.IsPlain := by
  cases h with
  | text s => exact .text s
  | compare hn _ hv =>
    exact .compare (.of_name hn (hts _ (by simp))) (.of_value hv (hts _ (by simp)))

theorem IsTerm.of_term {ts : List Token} {e : Expr} (h : Term ts e)
    (hts : ∀ t ∈ ts, t.Lexical) : e.IsTerm := by
  cases h with
  | plain h => exact .plain (.of_plain h hts)
  | not _ h => exact .not (.of_plain h fun t ht => hts t (List.mem_cons_of_mem _ ht))

theorem CanonicalGroup.append {c : Connective} {es : List Expr} {e : Expr}
    (h : CanonicalGroup c es) (he : e.IsTerm) : CanonicalGroup c (es ++ [e]) := by
  have hmem : ∀ {es : List Expr}, (∀ e ∈ es, e.IsTerm) → ∀ e' ∈ es ++ [e], e'.IsTerm := by
    intro es hes e' he'
    rcases List.mem_append.1 he' with h | h
    · exact hes e' h
    · rw [List.mem_singleton.1 h]
      exact he
  cases h with
  | terms h _ hes => exact .terms h (by simp) (hmem hes)
  | nested h hc _ hes => exact .nested h hc (by simp) (hmem hes)

/-- Each further term keeps a group canonical, and so does a change of the connective. -/
theorem CanonicalGroup.of_grouped {ts : List Token} {c : Connective} {es : List Expr}
    (h : Grouped ts c es) (hts : ∀ t ∈ ts, t.Lexical) : CanonicalGroup c es := by
  induction h with
  | start he _ he' =>
    have he := IsTerm.of_term he fun t ht => hts t (by simp [ht])
    have he' := IsTerm.of_term he' fun t ht => hts t (by simp [ht])
    exact .terms he (by simp) (by simpa using he')
  | same _ _ he ih =>
    have he := IsTerm.of_term he fun t ht => hts t (by simp [ht])
    exact (ih fun t ht => hts t (by simp [ht])).append he
  | change _ hc _ he ih =>
    have he := IsTerm.of_term he fun t ht => hts t (by simp [ht])
    exact .nested (ih fun t ht => hts t (by simp [ht])) hc (by simp) (by simpa using he)

theorem Canonical.of_expression {ts : List Token} {e : Expr} (h : Expression ts e)
    (hts : ∀ t ∈ ts, t.Lexical) : e.Canonical := by
  cases h with
  | term h => exact .term (.of_term h hts)
  | group h => exact .group (.of_grouped h hts)

theorem IsFilter.of_filter {ts : List Token} {e : Expr} (h : Filter ts e)
    (hts : ∀ t ∈ ts, t.Lexical) : e.IsFilter := by
  cases h with
  | present _ hn => exact .present (.of_name hn (hts _ (by simp)))
  | missing _ hn => exact .missing (.of_name hn (hts _ (by simp)))
  | expression h => exact .canonical (.of_expression h hts)

end Expr

/-! ### The text of a tree -/

/-- The characters have tokens that the language gives the value to. -/
def Phrase.Spelled {α : Type} (P : Phrase α) (cs : List Char) (a : α) : Prop :=
  ∃ ts, Written cs ts ∧ P ts a

theorem name_ofWord {n : String} (h : IsName n) : Name (Token.ofWord n.toList) n := by
  unfold Token.ofWord
  split
  · rename_i d hd
    have hn : d.toText = n := String.toList_inj.1 (Decimal.toList_toText_of_ofDigits? hd)
    rw [← hn]
    exact .number d
  · rw [String.ofList_toList]
    exact .word h.not_keyword

theorem IsName.written {n : String} (h : IsName n) : Written n.toList [Token.ofWord n.toList] :=
  written_run (fun hn => h.ne_empty (String.toList_inj.1 hn)) (List.all_eq_true.2 h.isWordChar)

theorem IsName.spelled {n : String} (h : IsName n) : (Single Name).Spelled n.toList n :=
  ⟨_, h.written, .intro (name_ofWord h)⟩

theorem Literal.IsValue.spelled {v : Literal} (h : v.IsValue) :
    (Single Value).Spelled v.source.toList v := by
  cases h with
  | text s => exact ⟨_, written_quote s, .intro (.quoted s)⟩
  | number hd => exact ⟨_, written_number hd, .intro (.number _)⟩

theorem Comparison.spelled (op : Comparison) : Operator.Spelled op.symbol.toList op := by
  have heq : Written ['='] [.mark '='] := written_mark (by decide)
  have hlt : Written ['<'] [.mark '<'] := written_mark (by decide)
  have hgt : Written ['>'] [.mark '>'] := written_mark (by decide)
  have hne : Written ['!'] [.mark '!'] := written_mark (by decide)
  cases op with
  | eq => exact ⟨_, heq, .eq⟩
  | ne => exact ⟨_, hne.append_of_head heq (by decide) (by decide), .ne⟩
  | lt => exact ⟨_, hlt, .lt⟩
  | le => exact ⟨_, hlt.append_of_head heq (by decide) (by decide), .le⟩
  | gt => exact ⟨_, hgt, .gt⟩
  | ge => exact ⟨_, hgt.append_of_head heq (by decide) (by decide), .ge⟩

/-- A comparison is written with a blank on either side of the operator. -/
theorem spelled_compare {ns os vs : List Char} {n : String} {op : Comparison} {v : Literal}
    (hn : (Single Name).Spelled ns n) (ho : Operator.Spelled os op)
    (hv : (Single Value).Spelled vs v) :
    Plain.Spelled (ns ++ ' ' :: (os ++ ' ' :: vs)) (.compare op n v) := by
  obtain ⟨_, hname, ⟨hn⟩⟩ := hn
  obtain ⟨_, hop, ho⟩ := ho
  obtain ⟨_, hvalue, ⟨hv⟩⟩ := hv
  exact ⟨_, hname.append (hop.append hvalue), .compare hn ho hv⟩

namespace Expr

theorem IsPlain.spelled {e : Expr} (h : e.IsPlain) : Plain.Spelled e.source.toList e := by
  cases h with
  | text q => exact ⟨_, written_quote q, .text q⟩
  | @compare op f v hf hv =>
    have h := spelled_compare hf.spelled op.spelled hv.spelled
    simpa [source, String.toList_append] using h

theorem IsTerm.spelled {e : Expr} (h : e.IsTerm) : Term.Spelled e.source.toList e := by
  cases h with
  | plain h =>
    obtain ⟨ts, hts, h⟩ := h.spelled
    exact ⟨ts, hts, .plain h⟩
  | not h =>
    obtain ⟨ts, hts, h⟩ := h.spelled
    refine ⟨_, ?_, .not (.word (Keyword.ofWord?_spelling .not)) h⟩
    have h := (written_keyword .not).append hts
    simpa [source, String.toList_append, Keyword.spelling] using h

/-- One more term behind a text, with a connective between them. -/
theorem written_separator {text : String} {e : Expr} {ts us : List Token}
    (h : Written text.toList ts) (h' : Written e.source.toList us) (c : Connective) :
    Written (text ++ c.separator ++ e.source).toList (ts ++ .word c.keyword.spelling :: us) := by
  have h := h.append ((written_keyword c.keyword).append h')
  simpa [Connective.separator, String.toList_append] using h

/-- A group is written by joining its first two children, and then one child after the other. -/
theorem intercalate_source (c : Connective) (text : String) (e : Expr) (es : List Expr) :
    c.separator.intercalate (text :: (e :: es).map source) =
      c.separator.intercalate ((text ++ c.separator ++ e.source) :: es.map source) := by
  rw [List.map_cons, String.intercalate_cons_cons, String.intercalate_cons_append]

/-- Terms behind a group, with its connective in front of each. -/
theorem spelled_intercalate {c : Connective} {text : String} {ts : List Token}
    {es more : List Expr} (hwritten : Written text.toList ts) (hgroup : Grouped ts c es)
    (hmore : ∀ e ∈ more, e.IsTerm) :
    ∃ us, Written (c.separator.intercalate (text :: more.map source)).toList us ∧
      Grouped us c (es ++ more) := by
  induction more generalizing text ts es with
  | nil =>
    refine ⟨ts, ?_, by rwa [List.append_nil]⟩
    rwa [List.map_nil, String.intercalate_singleton]
  | cons e more ih =>
    obtain ⟨us, hus, he⟩ := (hmore e List.mem_cons_self).spelled
    have hsame := hgroup.same (.word (Keyword.ofWord?_spelling c.keyword)) he
    have h := ih (written_separator hwritten hus c) hsame
      fun e' he' => hmore e' (List.mem_cons_of_mem e he')
    rwa [List.append_assoc, List.singleton_append, ← intercalate_source] at h

/-- The text of a canonical group, from the first pair of children on. -/
theorem CanonicalGroup.spelled {c : Connective} {es : List Expr} (h : CanonicalGroup c es) :
    ∃ ts, Written (Expr.group c es).source.toList ts ∧ Grouped ts c es := by
  induction h with
  | @terms c e es he hne hes =>
    obtain ⟨e', more, rfl⟩ := List.exists_cons_of_ne_nil hne
    obtain ⟨ts, hts, he⟩ := he.spelled
    obtain ⟨us, hus, he'⟩ := (hes e' List.mem_cons_self).spelled
    have hstart := Grouped.start he (.word (Keyword.ofWord?_spelling c.keyword)) he'
    rw [source, sources_eq_map, List.map_cons, intercalate_source]
    exact spelled_intercalate (written_separator hts hus c) hstart
      fun x hx => hes x (List.mem_cons_of_mem e' hx)
  | @nested c c' es' es _ hc hne hes ih =>
    -- the second child changes the connective, so that the group so far becomes the first child
    obtain ⟨e', more, rfl⟩ := List.exists_cons_of_ne_nil hne
    obtain ⟨ts, hts, hgroup⟩ := ih
    obtain ⟨us, hus, he'⟩ := (hes e' List.mem_cons_self).spelled
    have hchange := hgroup.change hc (.word (Keyword.ofWord?_spelling c.keyword)) he'
    rw [source, sources_eq_map, List.map_cons, intercalate_source]
    exact spelled_intercalate (written_separator hts hus c) hchange
      fun x hx => hes x (List.mem_cons_of_mem e' hx)

theorem Canonical.spelled {e : Expr} (h : e.Canonical) : Expression.Spelled e.source.toList e := by
  cases h with
  | term h =>
    obtain ⟨ts, hts, h⟩ := h.spelled
    exact ⟨ts, hts, .term h⟩
  | group h =>
    obtain ⟨ts, hts, h⟩ := h.spelled
    exact ⟨ts, hts, .group h⟩

theorem IsFilter.spelled {e : Expr} (h : e.IsFilter) : Filter.Spelled e.source.toList e := by
  cases h with
  | canonical h =>
    obtain ⟨ts, hts, h⟩ := h.spelled
    exact ⟨ts, hts, .expression h⟩
  | present hf =>
    have h := (written_keyword .exist).append hf.written
    exact ⟨_, by simpa [source, String.toList_append, Keyword.spelling] using h,
      .present (.word (Keyword.ofWord?_spelling .exist)) (name_ofWord hf)⟩
  | missing hf =>
    have h := (written_keyword .missing).append hf.written
    exact ⟨_, by simpa [source, String.toList_append, Keyword.spelling] using h,
      .missing (.word (Keyword.ofWord?_spelling .missing)) (name_ofWord hf)⟩

end Expr

/-! ### Statements -/

namespace Statement

/-- Tokens of a text that make up a statement are read as the statement. -/
theorem ofText_eq_ok_of_spelled {text : String} {q : Statement}
    (h : Derives.Spelled text.toList q) : ofText text = .ok q := by
  obtain ⟨ts, hts, hq⟩ := h
  rw [ofText_eq_ok_iff_derives, Token.map_token_scan, hts.cut_eq]
  exact hq

/-- What is read comes from tokens of a text. -/
theorem exists_derives_of_ofText {text : String} {q : Statement} (h : ofText text = .ok q) :
    ∃ ts, Derives ts q ∧ ∀ t ∈ ts, t.Lexical := by
  rw [ofText_eq_ok_iff_derives, Token.map_token_scan] at h
  exact ⟨_, h, fun t ht => Token.lexical_of_mem_cut ht⟩

/-- What holds of every phrase of a clause's body holds of the clause. -/
theorem forall_mem_of_clause {α : Type} {k : Keyword} {P : Phrase α} {ts : List Token}
    {o : Option α} {R : α → Prop} (h : Clause k P ts o) (hts : ∀ t ∈ ts, t.Lexical)
    (hP : ∀ us a, P us a → (∀ t ∈ us, t.Lexical) → R a) : ∀ a ∈ o, R a := by
  rintro a ⟨⟩
  obtain _ | ⟨_, ha⟩ := h
  exact hP _ a ha fun t ht => hts t (List.mem_cons_of_mem _ ht)

theorem canonical_of_derives {ts : List Token} {q : Statement} (h : Derives ts q)
    (hts : ∀ t ∈ ts, t.Lexical) :
    (∀ e ∈ q.condition, e.Canonical) ∧ ∀ e ∈ q.filter, e.IsFilter := by
  obtain ⟨-, -, -, -, -, -, hcon, hfil, -, -⟩ := h
  refine ⟨forall_mem_of_clause hcon (fun t ht => hts t (by simp [ht])) ?_,
    forall_mem_of_clause hfil (fun t ht => hts t (by simp [ht])) ?_⟩
  · exact fun us e he hus => .of_expression he hus
  · exact fun us e he hus => .of_filter he hus

theorem written_selectFrom : Written "SELECT * FROM t".toList
    [.word Keyword.select.spelling, .mark '*', .word Keyword.from.spelling, .word "t"] := by
  have hstar : Written ['*'] [.mark '*'] := written_mark (by decide)
  have hindex : Written ['t'] [.word "t"] := written_run (by decide) (by decide)
  exact (written_keyword .select).append (hstar.append ((written_keyword .from).append hindex))

theorem ofText_where_source {e : Expr} (h : e.Canonical) :
    ofText ("SELECT * FROM t WHERE " ++ e.source) = .ok { index := "t", condition := some e } := by
  obtain ⟨ts, hts, he⟩ := h.spelled
  refine ofText_eq_ok_of_spelled ⟨_, ?_, .intro (.word (Keyword.ofWord?_spelling .select)) .all
    .absent .absent (.word (Keyword.ofWord?_spelling .from)) (.word (by decide))
    (.present (.word (Keyword.ofWord?_spelling .where)) he) .absent .absent .absent⟩
  have h := written_selectFrom.append ((written_keyword .where).append hts)
  simpa [Keyword.spelling, String.toList_append] using h

theorem ofText_filter_source {e : Expr} (h : e.IsFilter) :
    ofText ("SELECT * FROM t FILTER " ++ e.source) = .ok { index := "t", filter := some e } := by
  obtain ⟨ts, hts, he⟩ := h.spelled
  refine ofText_eq_ok_of_spelled ⟨_, ?_, .intro (.word (Keyword.ofWord?_spelling .select)) .all
    .absent .absent (.word (Keyword.ofWord?_spelling .from)) (.word (by decide)) .absent
    (.present (.word (Keyword.ofWord?_spelling .filter)) he) .absent .absent⟩
  have h := written_selectFrom.append ((written_keyword .filter).append hts)
  simpa [Keyword.spelling, String.toList_append] using h

/-- **A tree is read back from its text exactly if reading makes it.**  Behind `FILTER`, the text
of a tree is read as this tree exactly if some text is read as a statement that has the tree as
its condition or its filter, and behind `WHERE` exactly if some statement has it as its
condition. -/
theorem ofText_source_iff (e : Expr) :
    ((∃ q, ofText ("SELECT * FROM t FILTER " ++ e.source) = .ok q ∧ q.filter = some e) ↔
      ∃ text q, ofText text = .ok q ∧ (q.condition = some e ∨ q.filter = some e)) ∧
    ((∃ q, ofText ("SELECT * FROM t WHERE " ++ e.source) = .ok q ∧ q.condition = some e) ↔
      ∃ text q, ofText text = .ok q ∧ q.condition = some e) := by
  refine ⟨⟨?_, ?_⟩, ⟨?_, ?_⟩⟩
  · rintro ⟨q, hq, he⟩
    exact ⟨_, q, hq, .inr he⟩
  · rintro ⟨text, q, hq, he⟩
    obtain ⟨ts, hts, hlex⟩ := exists_derives_of_ofText hq
    obtain ⟨hcon, hfil⟩ := canonical_of_derives hts hlex
    refine ⟨_, ofText_filter_source ?_, rfl⟩
    rcases he with he | he
    · exact .canonical (hcon e he)
    · exact hfil e he
  · rintro ⟨q, hq, he⟩
    exact ⟨_, q, hq, he⟩
  · rintro ⟨text, q, hq, he⟩
    obtain ⟨ts, hts, hlex⟩ := exists_derives_of_ofText hq
    exact ⟨_, ofText_where_source ((canonical_of_derives hts hlex).1 e he), rfl⟩

end Statement

end SearchSql
