import SearchSql.Proofs.Lookahead
import SearchSql.Proofs.Recognition

/-!
# Where an error points

An error of reading points at the first token that makes the text hopeless: what stands before
it is the beginning of a statement, and with it no statement begins like this.

In a script clause two errors show something else.  A comparison operator other than the equals
sign is reported as a whole, at its first token (`Grammar.ScriptOperator`).  An exclamation mark is
taken for the beginning of such an operator, so it is already too much, and the error points at
the token behind it (`Grammar.ScriptBang`).

* `Grammar.Viable` : the tokens are the beginning of tokens that the grammar accepts.
* `Grammar.Shown` : what the message of an error at a token shows.
* `Reader.of_read_statement_failed` : the ways in which reading a statement fails.
* `Statement.exists_diagnosis_of_ofText_eq_error` : **every error points at the first token that
  makes the text hopeless.**
-/

namespace SearchSql

open Token (Located)

namespace Grammar

/-- The tokens are the beginning of tokens that are accepted. -/
def Viable (w : List (Option Token)) : Prop := ∃ w' q, w <+: w' ∧ Accepts w' q

/-- A statement up to the keyword `SCRIPT`. -/
inductive Opening : List Token → Prop
  | intro {t t' : Token} {sel fac : List Token} {fields facets : Option (List String)} :
      Key .select t → Selection sel fields → Clause .facets Names fac facets → Key .script t' →
      Opening (t :: (sel ++ (fac ++ [t'])))

/-- A statement up to the name of its script field. -/
inductive ScriptHead : List Token → Prop
  | intro {ts : List Token} {t : Token} {n : String} :
      Opening ts → Name t n → ScriptHead (ts ++ [t])

/-- The longest comparison operator at the beginning of `w` is `op`. -/
def Starts (op : Comparison) (w : List (Option Token)) : Prop :=
  ∃ os, Operator os op ∧ os.map some <+: w ∧
    ∀ os' op', Operator os' op' → os'.map some <+: w → os'.length ≤ os.length

/-- The name of a script field stands right before token `k`, where the operator `op` begins. -/
def ScriptOperator (w : List (Option Token)) (k : Nat) (op : Comparison) : Prop :=
  ∃ head, ScriptHead head ∧ w.take k = head.map some ∧ Starts op (w.drop k)

/-- The name of a script field and an exclamation mark stand right before token `k`, which is not
an equals sign. -/
def ScriptBang (w : List (Option Token)) (k : Nat) : Prop :=
  ∃ head, ScriptHead head ∧ w.take k = (head ++ [Token.mark '!']).map some ∧
    w[k]? ≠ some (some (.mark '='))

/-- What the message of an error at token `k` shows: the token, or an operator other than the
equals sign that begins there in a script clause. -/
inductive Shown (w : List (Option Token)) (k : Nat) : String → Prop
  | operator {op : Comparison} : ScriptOperator w k op → op ≠ .eq → Shown w k op.symbol
  | token {t : Token} : w[k]? = some (some t) → (∀ op, ScriptOperator w k op → op = .eq) →
      Shown w k t.describe
  | endOfText : w[k]? = some none → Shown w k "EOF"

/-! ### Beginnings of statements -/

theorem map_some_prefix_iff {ts us : List Token} :
    ts.map some <+: us.map some ++ [none] ↔ ts <+: us := by
  induction ts generalizing us with
  | nil => simp
  | cons t ts ih =>
    cases us with
    | nil => simp
    | cons u us => simp [List.cons_prefix_cons, ih]

theorem append_none_prefix_iff {ts us : List Token} :
    ts.map some ++ [none] <+: us.map some ++ [none] ↔ ts = us := by
  induction ts generalizing us with
  | nil => cases us <;> simp
  | cons t ts ih =>
    cases us with
    | nil => simp
    | cons u us => simp [List.cons_prefix_cons, ih]

/-- Tokens without the end of the text can be completed as phrases can. -/
theorem viable_map_some_iff {ts : List Token} :
    Viable (ts.map some) ↔ Phrase.Viable Derives ts := by
  constructor
  · rintro ⟨_, q, hw, ⟨hq⟩⟩
    obtain ⟨more, rfl⟩ := map_some_prefix_iff.1 hw
    exact ⟨more, q, hq⟩
  · rintro ⟨more, q, hq⟩
    exact ⟨_, q, map_some_prefix_iff.2 (List.prefix_append _ _), .intro hq⟩

theorem viable_append_none_iff {ts : List Token} :
    Viable (ts.map some ++ [none]) ↔ ∃ q, Derives ts q := by
  constructor
  · rintro ⟨_, q, hw, ⟨hq⟩⟩
    rw [append_none_prefix_iff.1 hw]
    exact ⟨q, hq⟩
  · rintro ⟨q, hq⟩
    exact ⟨_, q, List.prefix_refl _, .intro hq⟩

theorem Viable.mono {w w' : List (Option Token)} (h : Viable w') (hw : w <+: w') : Viable w := by
  obtain ⟨v, q, hv, hq⟩ := h
  exact ⟨v, q, hw.trans hv, hq⟩

/-- Behind the name of a script field a statement can go on. -/
theorem ScriptHead.viable {ts : List Token} (h : ScriptHead ts) : Phrase.Viable Derives ts := by
  obtain ⟨⟨hselect, hsel, hfac, hscript⟩, hn⟩ := h
  obtain ⟨t, index, hindex⟩ := exists_name
  have hq := Derives.intro hselect hsel hfac (.present hscript (.intro "" hn))
    (.word (Keyword.ofWord?_spelling .from)) hindex .absent .absent .absent .absent
  exact ⟨[.mark '=', .quoted "", .word Keyword.from.spelling, t], _, by simpa using hq⟩

end Grammar

namespace Reader

open Grammar

/-! ### Operators -/

theorem read_comparison_of_two {a b : Token} {op : Comparison} (h : Operator [a, b] op)
    {l l' : Located} (hl : l.token = a) (hl' : l'.token = b) (stop : Nat) (ts : List Located) :
    comparison.read stop (l :: l' :: ts) = .done op ts := by
  cases h <;> simp [comparison, read_bind, take, acceptMark, probe, operatorStart?, hl, hl',
    Token.isMark]

theorem read_comparison_of_one {a : Token} {op : Comparison} (h : Operator [a] op) {l : Located}
    (hl : l.token = a) (stop : Nat) {ts : List Located}
    (hnext : op ≠ .eq → next ts ≠ some (.mark '=')) :
    comparison.read stop (l :: ts) = .done op ts := by
  by_cases hop : op = .eq
  · subst hop
    cases h
    rw [comparison, read_bind_of_done (read_take_some (a := .equals) (by rw [hl]; rfl) stop ts)]
    rfl
  · have hop' : Operator ([l].map Located.token) op := by rwa [List.map_singleton, hl]
    exact parses_comparison.complete stop [l] ts hop' (hnext hop)

theorem eq_one_or_two_of_operator {os : List Token} {op : Comparison} (h : Operator os op) :
    (∃ a, os = [a]) ∨ ∃ a b, os = [a, b] := by
  cases h <;> simp

/-- The operator that is read is the longest one. -/
theorem exists_read_comparison_iff (stop : Nat) (ts : List Located) (op : Comparison) :
    (∃ rest, comparison.read stop ts = .done op rest) ↔
      Starts op ((ts.map Located.token).map some ++ [none]) := by
  simp only [Starts, map_some_prefix_iff]
  constructor
  · rintro ⟨rest, h⟩
    obtain ⟨used, rfl, hop⟩ := parses_comparison.sound h
    refine ⟨_, hop, by simp, fun os' op' hop' hpre => ?_⟩
    rw [List.length_map]
    obtain ⟨a, rfl⟩ | ⟨a, b, rfl⟩ := eq_one_or_two_of_operator hop'
    · cases used with
      | nil => cases hop
      | cons l used => simp
    · -- an operator of two tokens is taken whole
      obtain ⟨more, hmore⟩ := hpre
      obtain ⟨l, us, hus, hl, hmore⟩ := List.map_eq_cons_iff.1 hmore.symm
      obtain ⟨l', us, rfl, hl', -⟩ := List.map_eq_cons_iff.1 hmore
      rw [hus, read_comparison_of_two hop' hl hl'] at h
      cases h
      have hlen := congrArg List.length hus
      simp only [List.length_append, List.length_cons] at hlen
      simp only [List.length_cons, List.length_nil]
      omega
  · rintro ⟨os, hop, ⟨more, hmore⟩, hmax⟩
    obtain ⟨a, rfl⟩ | ⟨a, b, rfl⟩ := eq_one_or_two_of_operator hop
    · obtain ⟨l, us, rfl, hl, rfl⟩ := List.map_eq_cons_iff.1 hmore.symm
      refine ⟨us, read_comparison_of_one hop hl stop fun hne hnext => ?_⟩
      -- with an equals sign behind it there would be a longer operator
      obtain ⟨l', vs, rfl, hl'⟩ : ∃ l' vs, us = l' :: vs ∧ l'.token = .mark '=' := by
        cases us with
        | nil => cases hnext
        | cons l' vs => exact ⟨l', vs, rfl, Option.some.inj hnext⟩
      obtain ⟨op', hop'⟩ : ∃ op', Operator [a, .mark '='] op' := by
        cases hop with
        | eq => exact absurd rfl hne
        | lt => exact ⟨_, .le⟩
        | gt => exact ⟨_, .ge⟩
      have hlen := hmax _ _ hop' ⟨vs.map Located.token, by simp [hl, hl']⟩
      exact absurd hlen (by simp)
    · obtain ⟨l, us, rfl, hl, hmore⟩ := List.map_eq_cons_iff.1 hmore.symm
      obtain ⟨l', us, rfl, hl', -⟩ := List.map_eq_cons_iff.1 hmore
      exact ⟨us, read_comparison_of_two hop hl hl' stop us⟩

/-! ### Script fields -/

/-- The ways in which reading a script field fails behind its name, other than at the first token
that does not continue a script field. -/
inductive ScriptFault (stop : Nat) : List Located → SyntaxError → List Located → Prop
  | operator {l : Located} {ts rest : List Located} {n : String} {op : Comparison} :
      Name l.token n → comparison.read stop ts = .done op rest → op ≠ .eq →
      ScriptFault stop (l :: ts) ⟨.equalsSign, .operator op, start stop ts⟩ rest
  | bang {l l' : Located} {ts : List Located} {n : String} {e : SyntaxError} :
      Name l.token n → l'.token = .mark '!' → next ts ≠ some (.mark '=') → e.At stop ts →
      ScriptFault stop (l :: l' :: ts) e ts.tail

theorem of_read_comparison_failed {stop : Nat} {ts rest : List Located} {e : SyntaxError}
    (h : comparison.read stop ts = .failed e rest) :
    (rest = ts.tail ∧ e.At stop ts) ∨ ∃ l us, ts = l :: us ∧ l.token = .mark '!' ∧
      next us ≠ some (.mark '=') ∧ rest = us.tail ∧ e.At stop us := by
  have haccept : ∀ (c c' : Comparison) (mid : List Located),
      (do if ← acceptMark '=' then return c else return c' : Reader Comparison).read stop mid ≠
        .failed e rest := by
    intro c c' mid h
    rw [acceptMark, bind_pure_bind] at h
    rcases of_read_bind_failed h with h | ⟨o, mid', -, h⟩
    · exact read_probe_ne_failed _ _ _ _ _ h
    · cases o <;> cases h
  rcases of_read_bind_failed h with h | ⟨s, mid, h₁, h₂⟩
  · obtain ⟨hrest, he, -⟩ := of_read_take_failed h
    exact .inl ⟨hrest, he⟩
  · obtain ⟨l, rfl, hl⟩ := of_read_take_done h₁
    rw [operatorStart?_eq_some_iff] at hl
    cases s with
    | equals => cases h₂
    | bang =>
      rcases of_read_bind_failed h₂ with h₂ | ⟨-, mid', -, h₂⟩
      · obtain ⟨hrest, he, hnone⟩ := of_read_take_failed h₂
        refine .inr ⟨l, mid, rfl, hl, fun hnext => ?_, hrest, he⟩
        have hno := hnone _ hnext
        rw [(mark_part_iff _ ()).2 rfl] at hno
        cases hno
      · cases h₂
    | less => exact absurd h₂ (haccept .le .lt mid)
    | greater => exact absurd h₂ (haccept .ge .gt mid)

theorem of_read_scriptField_failed {stop : Nat} {ts rest : List Located} {e : SyntaxError}
    (h : scriptField.read stop ts = .failed e rest) :
    Blames Script e stop ts rest ∨ ScriptFault stop ts e rest := by
  rcases of_read_bind_failed h with h | ⟨n, ts₁, hn, h₁⟩
  · refine .inl ((parses_name.failed h).imp [] ?_)
    rintro vs ⟨more, n, hv⟩
    refine ⟨more ++ [.mark '=', .quoted ""], ⟨n, ""⟩, ?_⟩
    rw [List.map_nil, List.nil_append, ← List.append_assoc]
    generalize vs ++ more = ws at hv
    obtain ⟨hn⟩ := hv
    exact .intro "" hn
  obtain ⟨us, rfl, hus⟩ := parses_name.sound hn
  obtain ⟨l, rfl, hl⟩ := exists_located_of_single hus
  rw [read_bind_of_done (read_position stop ts₁)] at h₁
  rcases of_read_bind_failed h₁ with h₂ | ⟨op, ts₂, hop, h₂⟩
  · rcases of_read_comparison_failed h₂ with ⟨hrest, he⟩ | ⟨l', us, rfl, hl', hnext, rfl, he⟩
    · exact .inl ⟨[l], ts₁, rfl, hrest, he, [.mark '=', .quoted ""], _, .intro "" hl⟩
    · exact .inr (.bang hl hl' hnext he)
  · by_cases hop' : op = .eq
    · subst hop'
      rcases of_read_bind_failed h₂ with h₃ | ⟨body, ts₃, -, h₃⟩
      · obtain ⟨vs, rfl, hvs⟩ := parses_comparison.sound hop
        refine .inl ((parses_quotedString.failed h₃).imp ([l] ++ vs) ?_)
        rintro ws ⟨more, body, hws⟩
        refine ⟨more, ⟨n, body⟩, ?_⟩
        rw [List.map_append, List.append_assoc, List.append_assoc]
        generalize vs.map Located.token = os at hvs
        generalize ws ++ more = ws at hws
        obtain ⟨rfl⟩ := hws
        cases hvs
        exact .intro body hl
      · cases h₃
    · rw [if_neg hop'] at h₂
      cases h₂
      exact .inr (.operator hl hop hop')

/-- From the script clause on, reading fails at the first token that does not fit, or in the
script field. -/
theorem of_read_script_bind_failed {fields facets : Option (List String)} {stop : Nat}
    {ts rest : List Located} {e : SyntaxError}
    (h : (clause .script scriptField >>= search fields facets).read stop ts = .failed e rest) :
    Blames (Scripting fields facets) e stop ts rest ∨
      ∃ l us, ts = l :: us ∧ Key .script l.token ∧ ScriptFault stop us e rest := by
  rcases of_read_bind_failed h with h | ⟨script, mid, h₁, h₂⟩
  · obtain ⟨l, us, rfl, hl, h⟩ := of_read_clause_failed h
    rcases of_read_scriptField_failed h with h | h
    · refine .inl (h.imp [l] ?_)
      rintro vs ⟨more, f, hf⟩
      obtain ⟨ws, q, hq⟩ := (closes_search fields facets (some f)).nonempty
      exact ⟨more ++ ws, q, some f, _, ws, by simp, .present hl hf, hq⟩
    · exact .inr ⟨l, us, rfl, hl, h⟩
  · obtain ⟨us, rfl, hus⟩ := recognizes_script.sound h₁
    exact .inl (((closes_search fields facets script).parses.failed h₂).andThen hus)

/-- The ways in which reading a statement fails. -/
theorem of_read_statement_failed {stop : Nat} {ts rest : List Located} {e : SyntaxError}
    (h : statement.read stop ts = .failed e rest) :
    Blames Derives e stop ts rest ∨ ∃ us mid, ts = us ++ mid ∧
      Opening (us.map Located.token) ∧ ScriptFault stop mid e rest := by
  have hscripting : ∀ fields facets, (Scripting fields facets).Nonempty :=
    fun fields facets => .andThen ⟨[], none, .absent⟩ fun script =>
      (closes_search fields facets script).nonempty
  have hfaceting : ∀ fields, (Faceting fields).Nonempty :=
    fun fields => .andThen ⟨[], none, .absent⟩ (hscripting fields)
  have hselecting : Selecting.Nonempty := .andThen ⟨_, _, .all⟩ hfaceting
  -- the parts before the script clause fail as they parse
  rcases (parses_keyword .select).failed_bind (fun _ => hselecting) h with
    h | ⟨_, us₁, ts₁, rfl, h₁, h⟩
  · exact .inl (h.imp [] fun vs ⟨more, q, hq⟩ => ⟨more, q, (derives_iff _ q).2 hq⟩)
  have hderives : Blames Selecting e stop ts₁ rest → Blames Derives e stop (us₁ ++ ts₁) rest := by
    intro h
    refine (h.andThen (Q := fun _ => Selecting) h₁).imp [] ?_
    exact fun vs ⟨more, q, hq⟩ => ⟨more, q, (derives_iff _ q).2 hq⟩
  rcases parses_selection.failed_bind hfaceting h with h | ⟨fields, us₂, ts₂, rfl, h₂, h⟩
  · exact .inl (hderives h)
  rcases parses_facets.failed_bind (hscripting fields) h with h | ⟨facets, us₃, ts₃, rfl, h₃, h⟩
  · exact .inl (hderives (h.andThen (Q := Faceting) h₂))
  rcases of_read_script_bind_failed h with h | ⟨l, ts₄, rfl, hl, hfault⟩
  · exact .inl (hderives (.andThen (.andThen h h₃) h₂))
  · obtain ⟨l₁, rfl, hl₁⟩ := exists_located_of_single h₁
    refine .inr ⟨l₁ :: (us₂ ++ (us₃ ++ [l])), ts₄, by simp, ?_, hfault⟩
    rw [List.map_cons, List.map_append, List.map_append, List.map_singleton]
    exact .intro hl₁ h₂ h₃ hl

/-- Behind the keyword `SCRIPT` a script field is read. -/
theorem read_statement_of_opening {us : List Located} (h : Opening (us.map Located.token))
    (stop : Nat) : ∃ f : ScriptField → Reader Statement, ∀ ts,
      statement.read stop (us ++ ts) = (scriptField >>= f).read stop ts := by
  generalize htoks : us.map Located.token = ws at h
  obtain @⟨_, _, _, _, fields, facets, hselect, hsel, hfac, hscript⟩ := h
  obtain ⟨l, us₁, rfl, rfl, h₁⟩ := List.map_eq_cons_iff.1 htoks
  obtain ⟨sel, us₂, rfl, rfl, h₂⟩ := List.map_eq_append_iff.1 h₁
  obtain ⟨fac, us₃, rfl, rfl, h₃⟩ := List.map_eq_append_iff.1 h₂
  obtain ⟨l', rfl, rfl⟩ := List.map_eq_singleton_iff.1 h₃
  refine ⟨fun s => search fields facets (some s), fun ts => ?_⟩
  have hfollow : ∀ {ks}, .script ∈ ks → Follow ks (some l'.token) := by
    rintro ks hks t ⟨⟩
    exact ⟨_, hks, hscript⟩
  -- the next token ends the selection, and the keyword ends the facets
  have hnext : next (fac ++ l' :: ts) ≠ some (.mark ',') := by
    have hlead : (Clause .facets Names).Leads (Follow [.facets, .script])
        (Follow [.facets, .script]) := leads_follow_clause Names (by decide)
    rw [next_append]
    exact (hlead hfac (hfollow (by decide))).ne_mark ','
  have h₁ := (parses_keyword .select).complete (a := ()) stop [l] (sel ++ (fac ++ l' :: ts))
    (.intro hselect) trivial
  have h₂ := parses_selection.complete stop sel (fac ++ l' :: ts) hsel hnext
  have h₃ := parses_facets.complete stop fac (l' :: ts) hfac (hfollow (by decide))
  have hlist : l :: (sel ++ (fac ++ [l'])) ++ ts = [l] ++ (sel ++ (fac ++ l' :: ts)) := by simp
  rw [hlist, statement, read_bind_of_done h₁, read_bind_of_done h₂, read_bind_of_done h₃]
  exact read_clause_bind_of_key hscript scriptField (search fields facets) stop ts

theorem exists_of_scriptHead {us : List Located} (h : ScriptHead (us.map Located.token)) :
    ∃ vs l n, us = vs ++ [l] ∧ Opening (vs.map Located.token) ∧ Name l.token n := by
  generalize hts : us.map Located.token = ts at h
  obtain ⟨hopen, hn⟩ := h
  obtain ⟨vs, ws, rfl, rfl, hws⟩ := List.map_eq_append_iff.1 hts
  obtain ⟨l, rfl, rfl⟩ := List.map_eq_singleton_iff.1 hws
  exact ⟨vs, l, _, rfl, hopen, hn⟩

/-- In a script clause an operator other than the equals sign is reported as a whole. -/
theorem read_statement_of_operator {us ts : List Located} {op : Comparison}
    (h : ScriptHead (us.map Located.token))
    (hop : Starts op ((ts.map Located.token).map some ++ [none])) (hne : op ≠ .eq) (stop : Nat) :
    ∃ rest, statement.read stop (us ++ ts) =
      .failed ⟨.equalsSign, .operator op, start stop ts⟩ rest := by
  obtain ⟨vs, l, n, rfl, hopen, hn⟩ := exists_of_scriptHead h
  obtain ⟨f, hf⟩ := read_statement_of_opening hopen stop
  obtain ⟨rest, hop⟩ := (exists_read_comparison_iff stop ts op).2 hop
  have hname := parses_name.complete stop [l] ts (.intro hn) trivial
  have hscript : scriptField.read stop ([l] ++ ts) =
      .failed ⟨.equalsSign, .operator op, start stop ts⟩ rest := by
    rw [scriptField, read_bind_of_done hname, read_bind_of_done (read_position stop ts),
      read_bind_of_done hop, if_neg hne]
    rfl
  exact ⟨rest, by rw [List.append_assoc, hf, read_bind, hscript]⟩

/-- The beginning of a statement can be completed so that it is read. -/
theorem exists_read_of_viable {us : List Located}
    (h : Phrase.Viable Derives (us.map Located.token)) (stop : Nat) :
    ∃ ts q rest, statement.read stop (us ++ ts) = .done q rest := by
  obtain ⟨more, q, hq⟩ := h
  refine ⟨more.map fun t => ⟨t, 0⟩, q, (read_statement_eq_done_iff stop _ q).2 ?_⟩
  rw [List.map_append, List.map_map]
  simpa [Function.comp_def] using hq

/-- In a script clause nothing but an equals sign can stand behind the name. -/
theorem not_viable_of_scriptHead {us : List Located} {l' : Located}
    (h : ScriptHead (us.map Located.token)) (hl' : l'.token ≠ .mark '=') :
    ¬ Phrase.Viable Derives ((us ++ [l']).map Located.token) := by
  intro hviable
  obtain ⟨vs, l, n, rfl, hopen, -⟩ := exists_of_scriptHead h
  obtain ⟨ts, q, rest, hq⟩ := exists_read_of_viable hviable 0
  obtain ⟨f, hf⟩ := read_statement_of_opening hopen 0
  rw [List.append_assoc, List.append_assoc, hf] at hq
  obtain ⟨s, mid, hs, -⟩ := of_read_bind_done hq
  obtain ⟨used, hused, hscript⟩ := recognizes_scriptField.sound hs
  generalize htoks : used.map Located.token = toks at hscript
  obtain ⟨body, -⟩ := hscript
  obtain ⟨l₁, us₁, rfl, -, h₁⟩ := List.map_eq_cons_iff.1 htoks
  obtain ⟨l₂, us₂, rfl, hl₂, -⟩ := List.map_eq_cons_iff.1 h₁
  simp only [List.cons_append, List.nil_append, List.cons.injEq] at hused
  exact hl' (hused.2.1 ▸ hl₂)

end Reader

/-! ### Errors of texts -/

/-- The error `e` of a text points at token `k`, the first one that makes the text hopeless. -/
structure Diagnosis (text : String) (e : SyntaxError) (k : Nat) : Prop where
  /-- The error stands where the token starts, or where the text ends. -/
  position : ∃ s, (Sighting.ofText text)[k]? = some s ∧ e.position = s.start
  message : ∃ shown, Grammar.Shown (Token.lex text) k shown ∧
    e.message = "Expected " ++ e.expected.describe ++ ", got " ++ shown
  /-- What stands before the token is the beginning of a statement. -/
  viable : ¬ Grammar.ScriptBang (Token.lex text) k → Grammar.Viable ((Token.lex text).take k)
  /-- In a script clause, what stands before an exclamation mark is. -/
  viable_of_scriptBang : Grammar.ScriptBang (Token.lex text) k →
    Grammar.Viable ((Token.lex text).take (k - 1))
  /-- With the token, no statement begins like this. -/
  hopeless : ¬ Grammar.Viable ((Token.lex text).take (k + 1))

namespace Diagnosis

open Grammar Reader

variable {text : String} {e : SyntaxError} {used mid : List Located}

/-! The tokens of a text, cut in front of `mid`. -/

theorem getElem?_sightings (h : Token.scan text = used ++ mid) :
    (Sighting.ofText text)[used.length]? = some ⟨next mid, start text.length mid⟩ := by
  rw [Sighting.ofText, h, List.map_append, List.append_assoc,
    List.getElem?_append_right (by simp)]
  cases mid <;> simp [next, start]

theorem getElem?_lex (h : Token.scan text = used ++ mid) :
    (Token.lex text)[used.length]? = some (next mid) := by
  rw [Token.lex, List.getElem?_map, getElem?_sightings h]
  rfl

theorem take_lex (h : Token.scan text = used ++ mid) :
    (Token.lex text).take used.length = (used.map Located.token).map some := by
  rw [Token.lex_eq, h, List.map_append, List.map_append, List.append_assoc]
  exact List.take_left' (by simp)

theorem drop_lex (h : Token.scan text = used ++ mid) :
    (Token.lex text).drop used.length = (mid.map Located.token).map some ++ [none] := by
  rw [Token.lex_eq, h, List.map_append, List.map_append, List.append_assoc]
  exact List.drop_left' (by simp)

theorem scriptHead_of_take {head : List Token} (h : Token.scan text = used ++ mid)
    (hhead : ScriptHead head) (htake : (Token.lex text).take used.length = head.map some) :
    ScriptHead (used.map Located.token) := by
  rw [take_lex h, List.map_inj_right fun _ _ => Option.some.inj] at htake
  exact htake ▸ hhead

/-- The token at which reading fails cannot be rescued by what follows. -/
theorem not_viable_of_at (h : Token.scan text = used ++ mid)
    (hread : statement.read text.length (used ++ mid) = .failed e mid.tail)
    (he : e.At text.length mid) : ¬ Viable ((Token.lex text).take (used.length + 1)) := by
  cases mid with
  | nil =>
    -- the text ends here, and it is not a statement
    have hlex : (Token.lex text).take (used.length + 1) = Token.lex text :=
      List.take_of_length_le (by simp [Token.lex_eq, h])
    rw [hlex, Token.lex_eq, viable_append_none_iff, h]
    rintro ⟨q, hq⟩
    obtain ⟨rest, hdone⟩ := (read_statement_eq_done_iff text.length _ q).2 hq
    rw [hread] at hdone
    cases hdone
  | cons l rest =>
    have hcut : Token.scan text = (used ++ [l]) ++ rest := by rw [h]; simp
    have htake := take_lex hcut
    rw [List.length_append, List.length_singleton] at htake
    rw [htake, viable_map_some_iff]
    intro hviable
    obtain ⟨ts, q, rest', hdone⟩ := exists_read_of_viable hviable text.length
    have hfail : statement.read text.length ((used ++ [l]) ++ rest) = .failed e rest := by
      simpa using hread
    rw [(causal_statement.failed hfail he.1).2 ts] at hdone
    cases hdone

/-- The message shows the token at which reading fails. -/
theorem exists_shown_of_at {rest : List Located} (h : Token.scan text = used ++ mid)
    (hread : statement.read text.length (used ++ mid) = .failed e rest)
    (he : e.At text.length mid) :
    ∃ shown, Shown (Token.lex text) used.length shown ∧
      e.message = "Expected " ++ e.expected.describe ++ ", got " ++ shown := by
  refine ⟨e.found.describe, ?_, rfl⟩
  rw [he.1]
  cases mid with
  | nil => exact .endOfText (getElem?_lex h)
  | cons l mid =>
    refine .token (getElem?_lex h) fun op ⟨head, hhead, htake, hop⟩ => ?_
    -- another operator would have been reported as a whole
    refine Decidable.byContradiction fun hne => ?_
    rw [drop_lex h] at hop
    obtain ⟨rest', hfail⟩ := read_statement_of_operator (scriptHead_of_take h hhead htake) hop hne
      text.length
    rw [hread] at hfail
    cases hfail
    cases he.1

theorem exists_of_blames {rest : List Located}
    (hread : statement.read text.length (Token.scan text) = .failed e rest)
    (h : Blames Derives e text.length (Token.scan text) rest) : ∃ k, Diagnosis text e k := by
  obtain ⟨used, mid, hcut, rfl, he, hviable⟩ := h
  rw [hcut] at hread
  have hbefore : Viable ((Token.lex text).take used.length) := by
    rw [take_lex hcut]
    exact viable_map_some_iff.2 hviable
  exact ⟨used.length,
    { position := ⟨_, getElem?_sightings hcut, he.2⟩
      message := exists_shown_of_at hcut hread he
      viable := fun _ => hbefore
      viable_of_scriptBang := fun _ => hbefore.mono (List.take_prefix_take_left (Nat.sub_le _ _))
      hopeless := not_viable_of_at hcut hread he }⟩

theorem exists_of_operator {us ts rest : List Located} {op : Comparison}
    (hcut : Token.scan text = us ++ ts) (hhead : ScriptHead (us.map Located.token))
    (hop : comparison.read text.length ts = .done op rest) (hne : op ≠ .eq) :
    ∃ k, Diagnosis text ⟨.equalsSign, .operator op, start text.length ts⟩ k := by
  have hbefore : Viable ((Token.lex text).take us.length) := by
    rw [take_lex hcut]
    exact viable_map_some_iff.2 hhead.viable
  have hstarts : ScriptOperator (Token.lex text) us.length op := by
    refine ⟨_, hhead, take_lex hcut, ?_⟩
    rw [drop_lex hcut]
    exact (exists_read_comparison_iff text.length ts op).1 ⟨rest, hop⟩
  refine ⟨us.length,
    { position := ⟨_, getElem?_sightings hcut, rfl⟩
      message := ⟨_, .operator hstarts hne, rfl⟩
      viable := fun _ => hbefore
      viable_of_scriptBang := fun _ => hbefore.mono (List.take_prefix_take_left (Nat.sub_le _ _))
      hopeless := ?_ }⟩
  -- the operator does not begin with an equals sign
  obtain ⟨os, rfl, hos⟩ := parses_comparison.sound hop
  obtain ⟨l, os, rfl, hl⟩ : ∃ l os', os = l :: os' ∧ l.token ≠ .mark '=' := by
    cases os with
    | nil => cases hos
    | cons l os =>
      refine ⟨l, os, rfl, fun hl => hne ?_⟩
      rw [List.map_cons, hl] at hos
      generalize os.map Located.token = ws at hos
      cases hos
      rfl
  have hcut' : Token.scan text = (us ++ [l]) ++ (os ++ rest) := by rw [hcut]; simp
  have htake := take_lex hcut'
  rw [List.length_append, List.length_singleton] at htake
  rw [htake, viable_map_some_iff]
  exact not_viable_of_scriptHead hhead hl

theorem exists_of_bang {us ts : List Located} {l : Located}
    (hcut : Token.scan text = us ++ l :: ts) (hhead : ScriptHead (us.map Located.token))
    (hl : l.token = .mark '!') (hnext : next ts ≠ some (.mark '='))
    (hread : statement.read text.length (Token.scan text) = .failed e ts.tail)
    (he : e.At text.length ts) : ∃ k, Diagnosis text e k := by
  have hcut' : Token.scan text = (us ++ [l]) ++ ts := by rw [hcut]; simp
  have hbang : ScriptBang (Token.lex text) (us ++ [l]).length := by
    refine ⟨_, hhead, ?_, ?_⟩
    · rw [take_lex hcut', List.map_append, List.map_singleton, hl]
    · rw [getElem?_lex hcut']
      exact fun h => hnext (Option.some.inj h)
  rw [hcut'] at hread
  refine ⟨(us ++ [l]).length,
    { position := ⟨_, getElem?_sightings hcut', he.2⟩
      message := exists_shown_of_at hcut' hread he
      viable := fun h => absurd hbang h
      viable_of_scriptBang := fun _ => ?_
      hopeless := not_viable_of_at hcut' hread he }⟩
  rw [List.length_append, List.length_singleton, Nat.add_sub_cancel, take_lex hcut]
  exact viable_map_some_iff.2 hhead.viable

end Diagnosis

theorem Outcome.result_eq_error_iff {α : Type} {o : Outcome α} {e : SyntaxError} :
    o.result = .error e ↔ ∃ rest, o = .failed e rest := by
  cases o <;> simp [Outcome.result]

/-- **An error points at the first token that makes the text hopeless.**  It stands at a token, or
at the end of the text; the message shows the token, or, in a script clause, the operator that
begins there; the tokens before it are the beginning of a statement, and with it they are not.
Only where an exclamation mark is followed by no equals sign in a script clause, the mark is
already too much. -/
theorem Statement.exists_diagnosis_of_ofText_eq_error (text : String) (e : SyntaxError)
    (h : Statement.ofText text = .error e) : ∃ k, Diagnosis text e k := by
  obtain ⟨rest, hread⟩ := Outcome.result_eq_error_iff.1 h
  change Reader.statement.read text.length (Token.scan text) = _ at hread
  rcases Reader.of_read_statement_failed hread with hb | ⟨us, mid, hcut, hopen, hfault⟩
  · exact Diagnosis.exists_of_blames hread hb
  -- the name of the script field belongs to what stands before the fault
  have hhead : ∀ {l : Located} {n : String}, Grammar.Name l.token n →
      Grammar.ScriptHead ((us ++ [l]).map Located.token) := by
    intro l n hn
    rw [List.map_append]
    exact .intro hopen hn
  cases hfault with
  | operator hn hop hne =>
    rw [List.append_cons] at hcut
    exact Diagnosis.exists_of_operator hcut (hhead hn) hop hne
  | bang hn hl hnext he =>
    rw [List.append_cons] at hcut
    exact Diagnosis.exists_of_bang hcut (hhead hn) hl hnext hread he

theorem Statement.exists_diagnosis_of_script_bang :
    Statement.ofText "SELECT * SCRIPT s ! x" =
        .error ⟨.equalsSign, .token (.word "x"), 20⟩ ∧
      ∃ k, Diagnosis "SELECT * SCRIPT s ! x" ⟨.equalsSign, .token (.word "x"), 20⟩ k := by
  have hread : Reader.statement.read 21 (Token.scan "SELECT * SCRIPT s ! x") =
      .failed ⟨.equalsSign, .token (.word "x"), 20⟩ [] := by
    decide +kernel
  have h : Statement.ofText "SELECT * SCRIPT s ! x" =
      .error ⟨.equalsSign, .token (.word "x"), 20⟩ :=
    congrArg Outcome.result hread
  exact ⟨h, Statement.exists_diagnosis_of_ofText_eq_error _ _ h⟩

end SearchSql
