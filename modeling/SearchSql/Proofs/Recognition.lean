import SearchSql.Decimal.Lemmas
import SearchSql.Proofs.Parsing
import SearchSql.Statement.Reading

/-!
# Reading accepts exactly the grammar

Every reader of a part of statements parses the language that the grammar gives to this part.
The tokens that may follow a part are few: behind a clause there stands the keyword of a later
clause or the end of the text (`Grammar.Follow`), so looking one token ahead is enough.

* `Reader.parses_expression` : the readers of terms and expressions.
* `Reader.closes_search` : the part of a statement from `FROM` on.
* `Reader.recognizes_statement` : whole statements.
* `Statement.ofText_eq_ok_iff_accepts` : **a text is read as a statement exactly if the grammar
  derives the statement from its tokens.**
-/

namespace SearchSql

open Token (Located)

namespace Grammar

variable {α : Type}

/-! ### Parts of tokens -/

theorem name?_eq_some_iff (t : Token) (n : String) : t.name? = some n ↔ Name t n := by
  constructor
  · intro h
    cases t with
    | word w =>
      simp only [Token.name?] at h
      split at h
      · cases h
        exact .word (Option.isNone_iff_eq_none.1 ‹_›)
      · cases h
    | number d => cases h; exact .number d
    | quoted s => cases h
    | mark c => cases h
  · intro h
    cases h with
    | unreserved hw => simp [Token.name?, forall_not_spells_iff.1 hw]
    | number d => rfl

theorem literal?_eq_some_iff (t : Token) (v : Literal) : t.literal? = some v ↔ Value t v := by
  constructor
  · intro h
    cases t with
    | word w =>
      simp only [Token.literal?] at h
      split at h
      · rename_i hd
        cases h
        cases hw : w.toList with
        | nil => rw [hw] at hd; cases hd
        | cons c cs => rw [hw] at hd; exact .word hw (by simpa using hd)
      · cases h
    | number d => cases h; exact .number d
    | quoted s => cases h; exact .quoted s
    | mark c => cases h
  · intro h
    cases h with
    | quoted s => rfl
    | number d => rfl
    | word hw hc => simp [Token.literal?, hw, hc]

theorem text?_eq_some_iff (t : Token) (s : String) : t.text? = some s ↔ t = .quoted s := by
  cases t <;> simp [Token.text?]

theorem inRange?_eq_some_iff {m n : Nat} :
    Token.inRange? m = some n ↔ m < 4294967296 ∧ m = n := by
  rw [Token.inRange?]
  by_cases hm : m ≤ Token.maxInteger
  · rw [if_pos hm, Option.some.injEq]
    exact ⟨fun h => ⟨Nat.lt_succ_of_le hm, h⟩, And.right⟩
  · rw [if_neg hm]
    constructor
    · intro h
      cases h
    · rintro ⟨h, -⟩
      exact absurd (Nat.le_of_lt_succ h) hm

/-- A number is written with digits only if it is an integer that is not negative, and then it
is the value of these digits. -/
theorem isDigit_toText_iff (d : Decimal) :
    (∀ c ∈ d.toText.toList, c.isDigit = true) ↔ d.scale = 0 ∧ d.negative = false := by
  constructor
  · intro h
    have hn : d.negative = false := by
      cases hneg : d.negative with
      | false => rfl
      | true =>
        have := h '-' (by simp [Decimal.toText, hneg])
        exact absurd this (by decide)
    refine ⟨?_, hn⟩
    cases hf : d.fractionDigits with
    | nil => rw [← d.length_fractionDigits, hf, List.length_nil]
    | cons c cs =>
      have := h '.' (by simp [Decimal.toText, hn, Decimal.unsignedChars, hf, Decimal.joinPoint])
      exact absurd this (by decide)
  · rintro ⟨hs, hn⟩ c hc
    have hf : d.fractionDigits = [] := List.length_eq_zero_iff.1 (d.length_fractionDigits.trans hs)
    rw [Decimal.toList_toText hn, Decimal.unsignedChars, hf] at hc
    exact Decimal.isDigit_of_mem_digits (List.mem_of_mem_take hc)

theorem toList_toText_of_integer {d : Decimal} (hs : d.scale = 0) (hn : d.negative = false) :
    d.toText.toList = d.digits := by
  have hf : d.fractionDigits = [] := List.length_eq_zero_iff.1 (d.length_fractionDigits.trans hs)
  have hd := d.wholeDigits_append_fractionDigits
  rw [hf, List.append_nil] at hd
  rw [Decimal.toList_toText hn, Decimal.unsignedChars, hf]
  exact hd

theorem integer?_eq_some_iff (t : Token) (n : Nat) : t.integer? = some n ↔ Integer t n := by
  constructor
  · intro h
    cases t with
    | quoted s => cases h
    | mark c => cases h
    | word w =>
      simp only [Token.integer?] at h
      split at h
      · -- a word of digits has superfluous zeros, or is out of the range of numbers
        rename_i hw
        obtain ⟨hlt, rfl⟩ := inRange?_eq_some_iff.1 h
        refine .run rfl (fun hnil => hw.1 ?_) (fun c hc => List.all_eq_true.1 hw.2 c hc) hlt
        rw [← String.toList_inj, hnil]
        rfl
      · cases h
    | number d =>
      simp only [Token.integer?] at h
      split at h
      · rename_i hd
        obtain ⟨hlt, rfl⟩ := inRange?_eq_some_iff.1 h
        have htext := toList_toText_of_integer hd.1 hd.2
        rw [← d.ofDigitChars_digits, ← htext] at hlt ⊢
        refine .run rfl (fun hnil => ?_) ((isDigit_toText_iff d).2 hd) hlt
        have hlen := d.scale_lt_length_digits
        rw [← htext, hnil] at hlen
        exact absurd hlen (Nat.not_lt_zero _)
      · cases h
  · rintro ⟨hrun, hne, hdig, hlt⟩
    cases t with
    | quoted s => cases hrun
    | mark c => cases hrun
    | word w =>
      cases hrun
      have hw : w ≠ "" ∧ w.toList.all Char.isDigit = true :=
        ⟨fun h => hne (by rw [h]; rfl), List.all_eq_true.2 hdig⟩
      simp only [Token.integer?, if_pos hw]
      exact inRange?_eq_some_iff.2 ⟨hlt, rfl⟩
    | number d =>
      cases hrun
      have hd := (isDigit_toText_iff d).1 hdig
      rw [toList_toText_of_integer hd.1 hd.2, d.ofDigitChars_digits] at hlt ⊢
      simp only [Token.integer?, if_pos hd]
      exact inRange?_eq_some_iff.2 ⟨hlt, rfl⟩

theorem connective?_eq_some_iff (t : Token) (c : Connective) :
    Reader.connective? t = some c ↔ Key c.keyword t := by
  rw [Reader.connective?, Option.bind_eq_some_iff, key_iff]
  simp only [Connective.ofKeyword?_eq_some_iff]
  constructor
  · rintro ⟨k, hk, rfl⟩
    exact hk
  · intro hk
    exact ⟨_, hk, rfl⟩

theorem exists_name : ∃ t n, Name t n := ⟨_, _, .number ⟨false, 0, 0, by decide, by decide⟩⟩

/-! ### What can follow -/

theorem Key.unique {k k' : Keyword} {t : Token} (h : Key k t) (h' : Key k' t) : k = k' := by
  rw [key_iff] at h h'
  exact Option.some.inj (h.symm.trans h')

theorem Name.not_key {t : Token} {n : String} {k : Keyword} (h : Name t n) : ¬ Key k t := by
  rintro ⟨hk⟩
  cases h with
  | unreserved hw => exact hw k hk

theorem Plain.leads (k : Keyword) (T : Option Token → Prop) :
    Phrase.Leads Plain T fun o => ∀ t ∈ o, ¬ Key k t := by
  intro ts e o h _ t ht
  cases h with
  | text s =>
    cases ht
    exact nofun
  | compare hn _ _ =>
    cases ht
    exact hn.not_key

theorem Term.leads {k : Keyword} (hk : k ≠ .not) (T : Option Token → Prop) :
    Phrase.Leads Term T fun o => ∀ t ∈ o, ¬ Key k t := by
  intro ts e o h ho t ht
  cases h with
  | plain he => exact Plain.leads k T he ho t ht
  | not hnot _ =>
    cases ht
    exact fun hkt => hk (hkt.unique hnot)

/-- The text ends, or one of the given keywords is next. -/
def Follow (ks : List Keyword) (o : Option Token) : Prop := ∀ t ∈ o, ∃ k ∈ ks, Key k t

namespace Follow

variable {ks : List Keyword} {o : Option Token}

theorem ne_mark (h : Follow ks o) (c : Char) : o ≠ some (.mark c) := by
  rintro rfl
  obtain ⟨k, -, hk⟩ := h _ rfl
  cases hk

theorem not_key (h : Follow ks o) {k : Keyword} (hk : k ∉ ks) : ∀ t ∈ o, ¬ Key k t := by
  intro t ht hkt
  obtain ⟨k', hk', hkt'⟩ := h t ht
  exact hk (hkt.unique hkt' ▸ hk')

theorem of_none : Follow ks none := nofun

theorem mono {ks' : List Keyword} (h : ks ⊆ ks') (ho : Follow ks o) : Follow ks' o := by
  intro t ht
  obtain ⟨k, hk, hkt⟩ := ho t ht
  exact ⟨k, h hk, hkt⟩

end Follow

theorem leads_follow_clause {k : Keyword} {ks : List Keyword} (P : Phrase α) (hk : k ∈ ks) :
    (Clause k P).Leads (Follow ks) (Follow ks) :=
  Phrase.leads_clause fun t ht t' ht' => ⟨k, hk, by cases ht'; exact ht⟩

/-! ### Runs of phrases -/

/-- A list is a run whose links are commas. -/
theorem listed_iff {P : Phrase α} (ts : List Token) (as : List α) :
    Listed P ts as ↔
      ∃ r, Phrase.Chained P (fun t (_ : Unit) => t = .mark ',') ts r ∧ r.items = as := by
  constructor
  · intro h
    induction h with
    | @one ts a ha => exact ⟨⟨a, []⟩, ⟨ts, [], by simp, ha, .nil⟩, rfl⟩
    | @more ts us a as ha _ ih =>
      obtain ⟨r, ⟨us₁, us₂, rfl, hfirst, hmore⟩, rfl⟩ := ih
      exact ⟨⟨a, ((), r.first) :: r.more⟩, ⟨ts, _, rfl, ha, .cons rfl hfirst hmore⟩, rfl⟩
  · rintro ⟨⟨a, more⟩, ⟨us, vs, rfl, ha, hmore⟩, rfl⟩
    dsimp only at ha hmore
    induction hmore generalizing us a with
    | nil =>
      rw [List.append_nil]
      exact .one ha
    | cons ht ha' _ ih =>
      subst ht
      exact .more ha (ih _ _ ha')

theorem Term.join {ts : List Token} {e : Expr} (h : Term ts e) (c : Connective) (e' : Expr) :
    e.join c e' = .group c [e, e'] := by
  cases h with
  | plain h => cases h <;> rfl
  | not _ _ => rfl

/-- One more term behind an expression. -/
theorem Expression.join {ts us : List Token} {t : Token} {c : Connective} {e e' : Expr}
    (h : Expression ts e) (ht : Key c.keyword t) (h' : Term us e') :
    Expression (ts ++ t :: us) (e.join c e') := by
  cases h with
  | term he =>
    rw [he.join]
    exact .group (.start he ht h')
  | @group _ c' es hg =>
    rw [Expr.join]
    by_cases hc : c' = c
    · subst hc
      rw [if_pos rfl]
      exact .group (.same hg ht h')
    · rw [if_neg hc]
      exact .group (.change hg (Ne.symm hc) ht h')

theorem Grouped.exists_run {ts : List Token} {c : Connective} {es : List Expr}
    (h : Grouped ts c es) :
    ∃ r, Phrase.Chained Term (fun t (c : Connective) => Key c.keyword t) ts r ∧
      Expr.ofRun r = .group c es := by
  induction h with
  | @start ts us t c e e' he ht he' =>
    refine ⟨⟨e, [(c, e')]⟩, ⟨ts, t :: us, rfl, he, .single ht he'⟩, ?_⟩
    exact he.join c e'
  | @same ts us t c es e _ ht he ih =>
    obtain ⟨⟨first, more⟩, ⟨us₁, us₂, rfl, hfirst, hmore⟩, htree⟩ := ih
    refine ⟨⟨first, more ++ [(c, e)]⟩,
      ⟨us₁, us₂ ++ t :: us, by rw [List.append_assoc], hfirst, hmore.append (.single ht he)⟩, ?_⟩
    rw [Expr.ofRun_append, htree, Expr.join, if_pos rfl]
  | @change ts us t c c' es e _ hc ht he ih =>
    obtain ⟨⟨first, more⟩, ⟨us₁, us₂, rfl, hfirst, hmore⟩, htree⟩ := ih
    refine ⟨⟨first, more ++ [(c', e)]⟩,
      ⟨us₁, us₂ ++ t :: us, by rw [List.append_assoc], hfirst, hmore.append (.single ht he)⟩, ?_⟩
    rw [Expr.ofRun_append, htree, Expr.join, if_neg (Ne.symm hc)]

/-- An expression is a run of terms, and its tree is the tree of the run. -/
theorem expression_iff (ts : List Token) (e : Expr) :
    Expression ts e ↔
      ∃ r, Phrase.Chained Term (fun t (c : Connective) => Key c.keyword t) ts r ∧
        Expr.ofRun r = e := by
  constructor
  · intro h
    cases h with
    | term h => exact ⟨⟨e, []⟩, ⟨ts, [], by rw [List.append_nil], h, .nil⟩, rfl⟩
    | group h => exact h.exists_run
  · rintro ⟨⟨first, more⟩, ⟨us, vs, rfl, hfirst, hmore⟩, rfl⟩
    dsimp only at hfirst hmore
    -- the tree so far is an expression, and each link joins one more term to it
    have key : ∀ us e, Expression us e →
        Expression (us ++ vs) (more.foldl (fun e lt => e.join lt.1 lt.2) e) := by
      induction hmore with
      | nil =>
        intro us e he
        rwa [List.append_nil]
      | @cons t us' vs' c e' more ht he' _ ih =>
        intro us e he
        have h := ih _ _ (he.join ht he')
        rwa [List.append_assoc, List.cons_append] at h
    exact key us first (.term hfirst)

/-- An expression starts as a term does. -/
theorem Expression.leads {k : Keyword} (hk : k ≠ .not) (T : Option Token → Prop) :
    Phrase.Leads Expression T fun o => ∀ t ∈ o, ¬ Key k t := by
  intro ts e o h ho
  obtain ⟨r, ⟨us, vs, rfl, hfirst, -⟩, -⟩ := (expression_iff ts e).1 h
  rw [List.head?_append, Option.or_assoc]
  exact Term.leads hk (fun _ => True) hfirst trivial

end Grammar

namespace Reader

open Grammar

variable {α : Type}

/-! ### Names, values and operators -/

theorem parses_name : Parses name (Single Name) fun _ => True :=
  parses_take _ name?_eq_some_iff exists_name

theorem parses_literal : Parses literal (Single Value) fun _ => True :=
  parses_take _ literal?_eq_some_iff ⟨.quoted "", _, .quoted ""⟩

theorem parses_quotedString :
    Parses quotedString (Single fun t s => t = .quoted s) fun _ => True :=
  parses_take _ text?_eq_some_iff ⟨.quoted "", "", rfl⟩

theorem parses_integer : Parses integer (Single Integer) fun _ => True := by
  refine parses_take _ integer?_eq_some_iff ⟨.word "0", 0, ?_⟩
  rw [← integer?_eq_some_iff]
  decide

theorem parses_commaList {item : Reader α} {P : Phrase α} {S : Option Token → Prop}
    (hitem : Parses item P S) (hS : S (some (.mark ','))) :
    Parses (commaList item) (Listed P) fun o => S o ∧ o ≠ some (.mark ',') := by
  have hcomma : ∀ (t : Token) (_ : Unit), t = .mark ',' → S (some t) := by
    rintro t - rfl
    exact hS
  refine ((parses_chain hitem mark_part_iff hcomma).map Run.items listed_iff).weaken ?_
  rintro o ⟨ho, hne⟩
  exact ⟨ho, fun t ht _ htc => hne (htc ▸ ht)⟩

theorem parses_names : Parses names Names fun o => o ≠ some (.mark ',') :=
  (parses_commaList parses_name trivial).weaken fun _ h => ⟨trivial, h⟩

/-- How an operator goes on behind its first character. -/
def operatorRest : OperatorStart → Phrase Comparison
  | .equals => .only .eq
  | .bang => (Single fun t (_ : Unit) => t = .mark '=').andThen fun _ => .only .ne
  | .less => .orElse (fun t (_ : Unit) => t = .mark '=') (fun _ => .only .le) (.only .lt)
  | .greater => .orElse (fun t (_ : Unit) => t = .mark '=') (fun _ => .only .ge) (.only .gt)

/-- The first character of an operator. -/
def OperatorStart.sign : OperatorStart → Char
  | .equals => '='
  | .bang => '!'
  | .less => '<'
  | .greater => '>'

theorem operatorStart?_eq_some_iff (t : Token) (s : OperatorStart) :
    operatorStart? t = some s ↔ t = .mark s.sign := by
  constructor
  · intro h
    unfold operatorStart? at h
    split at h <;> cases h <;> rfl
  · rintro rfl
    cases s <;> rfl

theorem parses_comparison : Parses comparison Operator fun o => o ≠ some (.mark '=') := by
  have hrest : ∀ c c' : Comparison, Parses (do if ← acceptMark '=' then return c else return c')
      (.orElse (fun t (_ : Unit) => t = .mark '=') (fun _ => .only c) (.only c'))
      fun o => o ≠ some (.mark '=') := fun c c' =>
    parses_acceptMark (parses_pure c _) (parses_pure c' _) (Phrase.leads_only _ fun _ h => h)
  refine .congr (.bind (Q := operatorRest)
    (parses_take _ operatorStart?_eq_some_iff ⟨_, .equals, rfl⟩) (fun s => ?_)
    (fun s => Phrase.leads_true _ _) fun s => ?_) fun ts op => ?_
  · cases s with
    | equals => exact parses_pure Comparison.eq _
    | bang =>
      exact (parses_take _ mark_part_iff ⟨_, (), rfl⟩).bind (fun _ => parses_pure Comparison.ne _)
        (fun _ => Phrase.leads_true _ _) fun _ => Phrase.nonempty_only _
    | less => exact hrest .le .lt
    | greater => exact hrest .ge .gt
  · cases s with
    | equals => exact Phrase.nonempty_only _
    | bang => exact .andThen ⟨_, (), .intro rfl⟩ fun _ => Phrase.nonempty_only _
    | less => exact ⟨[], .lt, .inr ⟨rfl, rfl⟩⟩
    | greater => exact ⟨[], .gt, .inr ⟨rfl, rfl⟩⟩
  · constructor
    · rintro ⟨s, us, vs, rfl, ⟨rfl⟩, hvs⟩
      cases s with
      | equals => obtain ⟨rfl, rfl⟩ := hvs; exact .eq
      | bang => obtain ⟨-, us, vs, rfl, ⟨rfl⟩, rfl, rfl⟩ := hvs; exact .ne
      | less =>
        obtain ⟨-, -, us, rfl, rfl, rfl, rfl⟩ | ⟨rfl, rfl⟩ := hvs
        · exact .le
        · exact .lt
      | greater =>
        obtain ⟨-, -, us, rfl, rfl, rfl, rfl⟩ | ⟨rfl, rfl⟩ := hvs
        · exact .ge
        · exact .gt
    · intro h
      cases h with
      | eq => exact ⟨.equals, _, [], rfl, .intro rfl, rfl, rfl⟩
      | ne => exact ⟨.bang, _, _, rfl, .intro rfl, (), _, [], rfl, .intro rfl, rfl, rfl⟩
      | lt => exact ⟨.less, _, [], rfl, .intro rfl, .inr ⟨rfl, rfl⟩⟩
      | le => exact ⟨.less, _, [_], rfl, .intro rfl, .inl ⟨_, (), [], rfl, rfl, rfl, rfl⟩⟩
      | gt => exact ⟨.greater, _, [], rfl, .intro rfl, .inr ⟨rfl, rfl⟩⟩
      | ge => exact ⟨.greater, _, [_], rfl, .intro rfl, .inl ⟨_, (), [], rfl, rfl, rfl, rfl⟩⟩

/-! ### Terms and expressions -/

theorem parses_compare : Parses compare ((Single Name).andThen fun f => Operator.andThen
    fun op ts e => ∃ v, Single Value ts v ∧ .compare op f v = e) fun _ => True := by
  have hvalue : ∀ (f : String) (op : Comparison),
      Parses (do return Expr.compare op f (← literal))
        (fun ts e => ∃ v, Single Value ts v ∧ .compare op f v = e) fun _ => True :=
    fun f op => parses_literal.map _ fun _ _ => Iff.rfl
  have hne : ∀ (f : String) (op : Comparison),
      Phrase.Nonempty fun ts e => ∃ v, Single Value ts v ∧ Expr.compare op f v = e :=
    fun f op => ⟨_, _, _, .intro (.quoted ""), rfl⟩
  refine parses_name.bind (fun f => parses_comparison.bind (hvalue f) ?_ (hne f))
    (fun f => Phrase.leads_true _ _) fun f => .andThen ⟨_, _, .eq⟩ (hne f)
  -- a value is never an equals sign, so the operator ends before it
  rintro op ts e o ⟨v, ⟨hv⟩, -⟩ -
  cases hv <;> exact nofun

theorem parses_plainTerm : Parses plainTerm Plain fun _ => True := by
  refine .congr (.branch text?_eq_some_iff (fun s => parses_pure (Expr.text s) _) parses_compare ?_)
    fun ts e => ?_
  · -- a comparison starts with a name, which is not quoted
    rintro ts e o ⟨f, us, vs, rfl, ⟨hn⟩, -⟩ - t ht s rfl
    cases ht
    cases hn
  · constructor
    · rintro (⟨t, s, us, rfl, rfl, rfl, rfl⟩ |
        ⟨f, us, vs, rfl, ⟨hn⟩, op, os, ws, rfl, ho, v, ⟨hv⟩, rfl⟩)
      · exact .text s
      · exact .compare hn ho hv
    · intro h
      cases h with
      | text s => exact .inl ⟨_, s, [], rfl, rfl, rfl, rfl⟩
      | compare hn ho hv =>
        exact .inr ⟨_, [_], _, rfl, .intro hn, _, _, _, rfl, ho, _, .intro hv, rfl⟩

theorem parses_term : Parses term Term fun _ => True := by
  refine .congr (parses_acceptKeyword (parses_plainTerm.map Expr.not fun _ _ => Iff.rfl)
    parses_plainTerm (Plain.leads .not _)) fun ts e => ?_
  constructor
  · rintro (⟨t, -, us, rfl, ht, e, he, rfl⟩ | he)
    · exact .not ht he
    · exact .plain he
  · intro h
    cases h with
    | not ht he => exact .inl ⟨_, (), _, rfl, ht, _, he, rfl⟩
    | plain he => exact .inr he

theorem parses_expression :
    Parses expression Expression fun o => ∀ t ∈ o, ∀ c : Connective, ¬ Key c.keyword t :=
  ((parses_chain parses_term connective?_eq_some_iff fun _ _ _ => trivial).map Expr.ofRun
    expression_iff).weaken fun _ h => ⟨trivial, h⟩

/-! ### Clauses -/

theorem parses_selection : Parses selection Selection fun o => o ≠ some (.mark ',') := by
  refine .congr (parses_acceptMark (parses_pure none _)
    (parses_names.map some fun _ _ => Iff.rfl) ?_) fun ts o => ?_
  · -- names do not start with a star
    rintro ts a o ⟨ns, h, -⟩ -
    cases h with
    | one h => cases h with
      | intro h => cases h <;> exact nofun
    | more h _ => cases h with
      | intro h => cases h <;> exact nofun
  · constructor
    · rintro (⟨t, -, us, rfl, rfl, rfl, rfl⟩ | ⟨ns, h, rfl⟩)
      · exact .all
      · exact .fields h
    · intro h
      cases h with
      | all => exact .inl ⟨_, (), [], rfl, rfl, rfl, rfl⟩
      | fields h => exact .inr ⟨_, h, rfl⟩

theorem parses_filterCondition :
    Parses filterCondition Filter fun o => ∀ t ∈ o, ∀ c : Connective, ¬ Key c.keyword t := by
  have hname : ∀ (g : String → Expr), Parses (do return g (← name))
      (fun ts e => ∃ f, Single Name ts f ∧ g f = e)
      fun o => ∀ t ∈ o, ∀ c : Connective, ¬ Key c.keyword t :=
    fun g => (parses_name.weaken fun _ _ => trivial).map g fun _ _ => Iff.rfl
  refine .congr (parses_acceptKeyword (hname .present) (parses_acceptKeyword (hname .missing)
    parses_expression (Expression.leads (by decide) _)) ?_) fun ts e => ?_
  · -- neither the other test nor an expression starts with the keyword of the first test
    rintro ts e o (⟨t, -, us, rfl, ht, -⟩ | h) ho
    · intro t' ht' hexist
      cases ht'
      exact absurd (hexist.unique ht) (by decide)
    · exact Expression.leads (by decide) (fun _ => True) h trivial
  · constructor
    · rintro (⟨t, -, us, rfl, ht, f, ⟨hf⟩, rfl⟩ | ⟨t, -, us, rfl, ht, f, ⟨hf⟩, rfl⟩ | h)
      · exact .present ht hf
      · exact .missing ht hf
      · exact .expression h
    · intro h
      cases h with
      | present ht hf => exact .inl ⟨_, (), _, rfl, ht, _, .intro hf, rfl⟩
      | missing ht hf => exact .inr (.inl ⟨_, (), _, rfl, ht, _, .intro hf, rfl⟩)
      | expression h => exact .inr (.inr h)

/-- The keyword of a direction. -/
def directionKey : Direction → Keyword
  | .asc => .asc
  | .desc => .desc

theorem direction?_eq_some_iff (t : Token) (d : Direction) :
    direction? t = some d ↔ Key (directionKey d) t := by
  rw [← keyword_part_iff t (), direction?]
  cases d <;> simp only [directionKey] <;> split <;> simp_all

theorem parses_sortKey :
    Parses sortKey SortItem fun o => ∀ t ∈ o, ∀ d, ¬ Key (directionKey d) t := by
  have hdirection : ∀ f : String, Parses (do return SortKey.mk f ((← probe direction?).getD .asc))
      (.orElse (fun t d => Key (directionKey d) t) (fun d => .only ⟨f, d⟩) (.only ⟨f, .asc⟩))
      fun o => ∀ t ∈ o, ∀ d, ¬ Key (directionKey d) t := fun f =>
    .branch direction?_eq_some_iff (fun d => parses_pure (SortKey.mk f d) _)
      (parses_pure (SortKey.mk f .asc) _) (Phrase.leads_only _ fun _ h => h)
  refine .congr (parses_name.bind hdirection (fun f => Phrase.leads_true _ _)
    fun f => ⟨[], _, .inr ⟨rfl, rfl⟩⟩) fun ts k => ?_
  constructor
  · rintro ⟨f, us, vs, rfl, ⟨hf⟩, ⟨t, d, ws, rfl, ht, rfl, rfl⟩ | ⟨rfl, rfl⟩⟩
    · cases d with
      | asc => exact .asc hf ht
      | desc => exact .desc hf ht
    · exact .plain hf
  · intro h
    cases h with
    | plain hf => exact ⟨_, [_], [], rfl, .intro hf, .inr ⟨rfl, rfl⟩⟩
    | asc hf ht => exact ⟨_, [_], [_], rfl, .intro hf, .inl ⟨_, .asc, [], rfl, ht, rfl, rfl⟩⟩
    | desc hf ht => exact ⟨_, [_], [_], rfl, .intro hf, .inl ⟨_, .desc, [], rfl, ht, rfl, rfl⟩⟩

theorem parses_sortKeys : Parses sortKeys Order
    fun o => (∀ t ∈ o, ∀ d, ¬ Key (directionKey d) t) ∧ o ≠ some (.mark ',') := by
  have hcomma : ∀ t ∈ some (Token.mark ','), ∀ d, ¬ Key (directionKey d) t := by
    intro t ht d hd
    cases ht
    cases hd
  have hne : Phrase.Nonempty (Listed SortItem) :=
    have ⟨_, _, hn⟩ := exists_name
    ⟨_, _, .one (.plain hn)⟩
  refine .congr ((parses_keyword .by).bind (fun _ => parses_commaList parses_sortKey hcomma)
    (fun _ => Phrase.leads_true _ _) fun _ => hne) fun ts ks => ?_
  constructor
  · rintro ⟨-, us, vs, rfl, ⟨ht⟩, hks⟩
    exact .intro ht hks
  · rintro ⟨ht, hks⟩
    exact ⟨(), [_], _, rfl, .intro ht, hks⟩

/-- The numbers behind `LIMIT`: an offset, if there are two, and a limit. -/
inductive Page : Phrase (Option Nat × Nat)
  | limit {t : Token} {n : Nat} : Integer t n → Page [t] (none, n)
  | both {t t' : Token} {m n : Nat} : Integer t m → Integer t' n →
      Page [t, .mark ',', t'] (some m, n)

theorem parses_page : Parses page Page fun o => o ≠ some (.mark ',') := by
  have hsecond : ∀ m : Nat,
      Parses (do if ← acceptMark ',' then return (some m, ← integer) else return (none, m))
        (.orElse (fun t (_ : Unit) => t = .mark ',')
          (fun _ ts p => ∃ n, Single Integer ts n ∧ (some m, n) = p) (.only (none, m)))
        fun o => o ≠ some (.mark ',') := fun m =>
    parses_acceptMark ((parses_integer.weaken fun _ _ => trivial).map _ fun _ _ => Iff.rfl)
      (parses_pure (none, m) _) (Phrase.leads_only _ fun _ h => h)
  refine .congr (parses_integer.bind hsecond (fun m => Phrase.leads_true _ _)
    fun m => ⟨[], _, .inr ⟨rfl, rfl⟩⟩) fun ts p => ?_
  constructor
  · rintro ⟨m, us, vs, rfl, ⟨hm⟩, ⟨t, -, ws, rfl, rfl, n, ⟨hn⟩, rfl⟩ | ⟨rfl, rfl⟩⟩
    · exact .both hm hn
    · exact .limit hm
  · intro h
    cases h with
    | limit hm => exact ⟨_, [_], [], rfl, .intro hm, .inr ⟨rfl, rfl⟩⟩
    | both hm hn =>
      exact ⟨_, [_], [_, _], rfl, .intro hm, .inl ⟨_, (), _, rfl, rfl, _, .intro hn, rfl⟩⟩

/-- A script field is read without regard to where it stands. -/
theorem recognizes_scriptField : Recognizes scriptField Script fun _ => True where
  sound := by
    intro stop ts f rest h
    obtain ⟨n, ts₁, hn, h⟩ := of_read_bind_done h
    rw [read_bind_of_done (read_position stop ts₁)] at h
    obtain ⟨op, ts₂, hop, h⟩ := of_read_bind_done h
    -- only the equals sign is followed by a body
    by_cases hop' : op = .eq
    · subst hop'
      obtain ⟨body, ts₃, hbody, h⟩ := of_read_bind_done h
      cases h
      obtain ⟨us, rfl, hus⟩ := parses_name.sound hn
      obtain ⟨vs, rfl, hvs⟩ := parses_comparison.sound hop
      obtain ⟨ws, rfl, hws⟩ := parses_quotedString.sound hbody
      refine ⟨us ++ (vs ++ ws), by simp, ?_⟩
      rw [List.map_append, List.map_append]
      generalize us.map Located.token = us at hus
      generalize vs.map Located.token = vs at hvs
      generalize ws.map Located.token = ws at hws
      obtain ⟨hname⟩ := hus
      obtain ⟨rfl⟩ := hws
      cases hvs
      exact .intro body hname
    · rw [if_neg hop'] at h
      cases h
  complete := by
    intro f stop used rest h _
    generalize htoks : used.map Located.token = ts at h
    obtain ⟨body, hn⟩ := h
    obtain ⟨l₁, us, rfl, hl₁, hus⟩ := List.map_eq_cons_iff.1 htoks
    obtain ⟨l₂, vs, rfl, hl₂, hvs⟩ := List.map_eq_cons_iff.1 hus
    obtain ⟨l₃, ws, rfl, hl₃, hws⟩ := List.map_eq_cons_iff.1 hvs
    obtain rfl := List.map_eq_nil_iff.1 hws
    subst hl₁
    have hname := parses_name.complete stop [l₁] (l₂ :: l₃ :: rest) (.intro hn) trivial
    have hop : comparison.read stop (l₂ :: l₃ :: rest) = .done .eq (l₃ :: rest) := by
      refine parses_comparison.complete stop [l₂] _ ?_ ?_
      · rw [List.map_singleton, hl₂]
        exact .eq
      · simp [next, hl₃]
    have hbody := parses_quotedString.complete stop [l₃] rest (.intro hl₃) trivial
    rw [scriptField]
    exact (read_bind_of_done hname _).trans <| (read_bind_of_done (read_position stop _) _).trans <|
      (read_bind_of_done hop _).trans <| read_bind_of_done hbody _

/-! ### Statements -/

/-- The reader parses `P` up to the end of the text, and a phrase of `P` is empty or starts with
one of the given keywords. -/
structure Closes (r : Reader α) (P : Phrase α) (ks : List Keyword) : Prop where
  parses : Parses r P fun o => o = none
  leads : P.Leads (fun o => o = none) (Follow ks)
  nonempty : P.Nonempty
  closed : ∀ {stop ts a rest}, r.read stop ts = .done a rest → rest = []

theorem closes_finish (a : α) : Closes (do finish; return a) (.only a) [] where
  parses := by
    refine .congr (parses_finish.bind (fun _ => parses_pure a _)
      (fun _ => Phrase.leads_only _ fun _ h => h) fun _ => Phrase.nonempty_only a) fun ts b => ?_
    constructor
    · rintro ⟨-, us, vs, rfl, ⟨rfl, -⟩, rfl, rfl⟩
      exact ⟨rfl, rfl⟩
    · rintro ⟨rfl, rfl⟩
      exact ⟨(), [], [], rfl, ⟨rfl, rfl⟩, rfl, rfl⟩
  leads := Phrase.leads_only a fun _ h => h ▸ .of_none
  nonempty := Phrase.nonempty_only a
  closed {_ ts _ _} h := by
    cases ts with
    | nil => cases h; rfl
    | cons l ts => cases h

/-- A clause in front of what closes a statement, where none of the keywords that can follow
continues the clause. -/
theorem Closes.clause {β : Type} {k : Keyword} {ks : List Keyword} {body : Reader α}
    {f : Option α → Reader β} {P : Phrase α} {Q : Option α → Phrase β} {S : Option Token → Prop}
    (hf : ∀ a, Closes (f a) (Q a) ks) (hbody : Parses body P S)
    (hS : ∀ o, Follow ks o → S o) (hk : k ∉ ks) :
    Closes (clause k body >>= f) ((Clause k P).andThen Q) (k :: ks) where
  parses := by
    refine (hbody.clause hS fun t ht => ?_).bind (fun a => (hf a).parses) (fun a => (hf a).leads)
      fun a => (hf a).nonempty
    exact ht.not_key hk t rfl
  leads := by
    refine .andThen (leads_follow_clause P List.mem_cons_self) fun a => (hf a).leads.imp ?_
    exact fun o ho => ho.mono (List.subset_cons_self _ _)
  nonempty := .andThen ⟨[], none, .absent⟩ fun a => (hf a).nonempty
  closed h := by
    obtain ⟨a, mid, -, h⟩ := of_read_bind_done h
    exact (hf a).closed h

/-- The statement with the numbers of its `LIMIT` clause. -/
def paged (plain : Statement) : Option (Option Nat × Nat) → Statement
  | none => plain
  | some (none, limit) => { plain with limit }
  | some (some offset, limit) => { plain with offset, limit }

theorem closes_paged (plain : Statement) (hits : Option (Option Nat × Nat)) :
    Closes (do
      finish
      match hits with
      | none => return plain
      | some (none, limit) => return { plain with limit }
      | some (some offset, limit) => return { plain with offset, limit })
      (.only (paged plain hits)) [] := by
  obtain _ | ⟨_ | offset, limit⟩ := hits <;> exact closes_finish _

/-- The part of a statement from `FROM` on. -/
inductive Searching (fields facets : Option (List String)) (script : Option ScriptField) :
    Phrase Statement
  | intro {t t' : Token} {con fil ord lim : List Token} {index : String}
      {condition filter : Option Expr} {order : Option (List SortKey)}
      {hits : Option (Option Nat × Nat)} :
      Key .from t → Name t' index → Clause .where Expression con condition →
      Clause .filter Filter fil filter → Clause .order Order ord order →
      Clause .limit Page lim hits →
      Searching fields facets script (t :: t' :: (con ++ (fil ++ (ord ++ lim))))
        (paged { index, fields, facets, script, condition, filter, order } hits)

theorem Searching.leads (fields facets : Option (List String)) (script : Option ScriptField)
    (T : Option Token → Prop) :
    (Searching fields facets script).Leads T (Follow [.from]) := by
  rintro ts q o ⟨ht⟩ - t' ht'
  cases ht'
  exact ⟨.from, List.mem_singleton_self _, ht⟩

theorem closes_search (fields facets : Option (List String)) (script : Option ScriptField) :
    Closes (search fields facets script) (Searching fields facets script) [.from] := by
  have hconnective : ∀ {ks o}, Follow ks o → .and ∉ ks → .or ∉ ks →
      ∀ t ∈ o, ∀ c : Connective, ¬ Key c.keyword t := by
    intro ks o ho hand hor t ht c
    cases c with
    | and => exact ho.not_key hand t ht
    | or => exact ho.not_key hor t ht
  have hdirection : ∀ {ks o}, Follow ks o → .asc ∉ ks → .desc ∉ ks →
      ∀ t ∈ o, ∀ d, ¬ Key (directionKey d) t := by
    intro ks o ho hasc hdesc t ht d
    cases d with
    | asc => exact ho.not_key hasc t ht
    | desc => exact ho.not_key hdesc t ht
  -- the clauses from the last to the first, each with the keywords that can follow it
  have hlimit (plain : Statement) := Closes.clause (fun hits => closes_paged plain hits)
    parses_page (fun o ho => ho.ne_mark ',') (k := .limit) (by decide)
  have horder (plain : Option (List SortKey) → Statement) :=
    Closes.clause (fun order => hlimit (plain order)) parses_sortKeys (k := .order)
      (fun o ho => ⟨hdirection ho (by decide) (by decide), ho.ne_mark ','⟩) (by decide)
  have hfilter (plain : Option Expr → Option (List SortKey) → Statement) :=
    Closes.clause (fun filter => horder (plain filter)) parses_filterCondition (k := .filter)
      (fun o ho => hconnective ho (by decide) (by decide)) (by decide)
  have hwhere (plain : Option Expr → Option Expr → Option (List SortKey) → Statement) :=
    Closes.clause (fun condition => hfilter (plain condition)) parses_expression (k := .where)
      (fun o ho => hconnective ho (by decide) (by decide)) (by decide)
  have hplain (index : String) := hwhere fun condition filter order =>
    { index, fields, facets, script, condition, filter, order }
  have hindex := parses_name.bind (fun index => (hplain index).parses)
    (fun index => Phrase.leads_true _ _) fun index => (hplain index).nonempty
  obtain ⟨t, n, hname⟩ := exists_name
  refine ⟨.congr ((parses_keyword .from).bind (fun _ => hindex) (fun _ => Phrase.leads_true _ _)
    fun _ => ?_) fun ts q => ?_, Searching.leads _ _ _ _, ?_, fun h => ?_⟩
  · exact .andThen ⟨_, _, .intro hname⟩ fun index => (hplain index).nonempty
  · constructor
    · rintro ⟨-, _, _, rfl, ⟨ht⟩, index, _, _, rfl, ⟨hn⟩, condition, con, _, rfl, hcon, filter, fil,
        _, rfl, hfil, order, ord, _, rfl, hord, hits, lim, _, rfl, hlim, rfl, rfl⟩
      rw [List.append_nil]
      simp only [List.cons_append, List.nil_append]
      exact .intro ht hn hcon hfil hord hlim
    · rintro ⟨ht, hn, hcon, hfil, hord, hlim⟩
      exact ⟨(), [_], _, rfl, .intro ht, _, [_], _, rfl, .intro hn, _, _, _, rfl, hcon, _, _, _,
        rfl, hfil, _, _, _, rfl, hord, _, _, [], by rw [List.append_nil], hlim, rfl, rfl⟩
  · exact ⟨_, _, .intro (.word (Keyword.ofWord?_spelling .from)) hname .absent .absent .absent
      .absent⟩
  · obtain ⟨-, _, -, h⟩ := of_read_bind_done h
    obtain ⟨index, _, -, h⟩ := of_read_bind_done h
    exact (hplain index).closed h

/-- A statement from its script clause on. -/
def Scripting (fields facets : Option (List String)) : Phrase Statement :=
  (Clause .script Script).andThen (Searching fields facets)

/-- A statement from its facets on. -/
def Faceting (fields : Option (List String)) : Phrase Statement :=
  (Clause .facets Names).andThen (Scripting fields)

/-- A statement behind its first keyword. -/
def Selecting : Phrase Statement := Selection.andThen Faceting

/-- The parts of a statement in the order in which they are read. -/
theorem derives_iff (ts : List Token) (q : Statement) :
    Derives ts q ↔
      ((Single fun t (_ : Unit) => Key .select t).andThen fun _ => Selecting) ts q := by
  constructor
  · rintro ⟨h₁, hsel, hfac, hscr, h₂, h₃, hcon, hfil, hord, hlim⟩
    refine ⟨(), [_], _, rfl, .intro h₁, _, _, _, rfl, hsel, _, _, _, rfl, hfac, _, _, _, rfl, hscr,
      ?_⟩
    cases hlim with
    | absent => exact .intro h₂ h₃ hcon hfil hord .absent
    | limit hk hn => exact .intro h₂ h₃ hcon hfil hord (.present hk (.limit hn))
    | page hk hm hn => exact .intro h₂ h₃ hcon hfil hord (.present hk (.both hm hn))
  · rintro ⟨-, _, _, rfl, ⟨h₁⟩, fields, sel, _, rfl, hsel, facets, fac, _, rfl, hfac, script, scr,
      _, rfl, hscr, h₂, h₃, hcon, hfil, hord, hlim⟩
    simp only [List.cons_append, List.nil_append]
    cases hlim with
    | absent => exact .intro h₁ hsel hfac hscr h₂ h₃ hcon hfil hord .absent
    | present hk hpage => cases hpage with
      | limit hn => exact .intro h₁ hsel hfac hscr h₂ h₃ hcon hfil hord (.limit hk hn)
      | both hm hn => exact .intro h₁ hsel hfac hscr h₂ h₃ hcon hfil hord (.page hk hm hn)

theorem parses_facets :
    Parses (clause .facets names) (Clause .facets Names) (Follow [.script, .from]) :=
  parses_names.clause (fun _ ho => ho.ne_mark ',') fun t ht => ht.not_key (by decide) t rfl

theorem recognizes_script :
    Recognizes (clause .script scriptField) (Clause .script Script) (Follow [.from]) :=
  recognizes_scriptField.clause (fun _ _ => trivial) fun t ht => ht.not_key (by decide) t rfl

theorem Scripting.leads (fields facets : Option (List String)) :
    (Scripting fields facets).Leads (fun o => o = none) (Follow [.script, .from]) :=
  .andThen (leads_follow_clause _ (by decide)) fun script =>
    (Searching.leads fields facets script _).imp fun _ => Follow.mono (by decide)

theorem Faceting.leads (fields : Option (List String)) :
    (Faceting fields).Leads (fun o => o = none) (Follow [.facets, .script, .from]) :=
  .andThen (leads_follow_clause _ (by decide)) fun facets =>
    (Scripting.leads fields facets).imp fun _ => Follow.mono (by decide)

theorem recognizes_statement : Recognizes statement Derives fun o => o = none := by
  have hscripting := fun fields facets => recognizes_script.bind
    (fun script => (closes_search fields facets script).parses.toRecognizes)
    fun script => Searching.leads fields facets script _
  have hfaceting := fun fields => parses_facets.toRecognizes.bind (hscripting fields)
    (Scripting.leads fields)
  have hselecting := parses_selection.toRecognizes.bind hfaceting
    fun fields => (Faceting.leads fields).imp fun _ ho => ho.ne_mark ','
  exact .congr ((parses_keyword .select).toRecognizes.bind (fun _ => hselecting)
    fun _ => Phrase.leads_true _ _) fun ts q => (derives_iff ts q).symm

theorem rest_of_read_statement {stop : Nat} {ts rest : List Located} {q : Statement}
    (h : statement.read stop ts = .done q rest) : rest = [] := by
  obtain ⟨-, _, -, h⟩ := of_read_bind_done h
  obtain ⟨fields, _, -, h⟩ := of_read_bind_done h
  obtain ⟨facets, _, -, h⟩ := of_read_bind_done h
  obtain ⟨script, _, -, h⟩ := of_read_bind_done h
  exact (closes_search fields facets script).closed h

/-- A list of tokens is read as a statement exactly if the grammar derives it. -/
theorem read_statement_eq_done_iff (stop : Nat) (ts : List Located) (q : Statement) :
    (∃ rest, statement.read stop ts = .done q rest) ↔ Derives (ts.map Located.token) q := by
  constructor
  · rintro ⟨rest, h⟩
    obtain ⟨used, rfl, hq⟩ := recognizes_statement.sound h
    rwa [rest_of_read_statement h, List.append_nil]
  · intro hq
    have h := recognizes_statement.complete stop ts [] hq rfl
    rw [List.append_nil] at h
    exact ⟨[], h⟩

end Reader

/-! ### Texts -/

theorem Token.lex_eq (text : String) :
    Token.lex text = ((Token.scan text).map Located.token).map some ++ [none] := by
  simp [Token.lex, Sighting.ofText]

/-- The tokens of a text are accepted if those before its end make up a statement. -/
theorem Grammar.accepts_append_none_iff {ts : List Token} {q : Statement} :
    Accepts (ts.map some ++ [none]) q ↔ Derives ts q := by
  constructor
  · intro h
    generalize hw : ts.map some ++ [none] = w at h
    obtain ⟨hq⟩ := h
    have hts := List.append_cancel_right hw
    rw [List.map_inj_right (fun _ _ => Option.some.inj)] at hts
    rwa [hts]
  · exact .intro

theorem Outcome.result_eq_ok_iff {α : Type} {o : Outcome α} {a : α} :
    o.result = .ok a ↔ ∃ rest, o = .done a rest := by
  cases o <;> simp [Outcome.result]

theorem Statement.ofText_eq_ok_iff_derives {text : String} {q : Statement} :
    Statement.ofText text = .ok q ↔ Grammar.Derives ((Token.scan text).map Located.token) q := by
  rw [← Reader.read_statement_eq_done_iff text.length]
  exact Outcome.result_eq_ok_iff

/-- **Reading accepts exactly the grammar.**  A text is read as the statement `q` exactly if the
grammar derives `q` from the tokens of the text up to its end. -/
theorem Statement.ofText_eq_ok_iff_accepts (text : String) (q : Statement) :
    Statement.ofText text = .ok q ↔ Grammar.Accepts (Token.lex text) q := by
  rw [Token.lex_eq, Grammar.accepts_append_none_iff]
  exact Statement.ofText_eq_ok_iff_derives

end SearchSql
