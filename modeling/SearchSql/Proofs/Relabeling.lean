import SearchSql.Proofs.Recognition

/-!
# Reading sees the parts that tokens play

A reader does not look at the places of tokens, and of a token it sees only the part that the token
can play: which keyword it spells, which name it is, and so on.  So a change of the tokens that
keeps these parts, and any change of the places, comes out in errors only, which show the changed
token at its changed place.

## Main definitions

* `Relabeling` : a change of tokens and places, and what it makes of outcomes and errors.
* `Relabeling.KeepsParts` : changed tokens play the same parts.
* `Relabeling.move` : a change of places only.
* `Reader.Relabels μ r r'` : on the changed stream, `r'` comes to the changed outcome of `r`.

## Main statements

* `Reader.Relabels.bind`, `Reader.relabels_links` : the property is kept in sequences and runs.
* `Reader.relabels_statement` : every reader of a part of statements has it, and so has the reader
  of whole statements.
* `Reader.Relabels.readText`, `Reader.Relabels.readText_congr` : what this means for two texts.
-/

namespace SearchSql

open Token (Located)

/-- A change of tokens, and of the places at which they stand. -/
structure Relabeling where
  token : Token → Token
  place : Nat → Nat

namespace Relabeling

variable {α : Type} (μ : Relabeling)

def located (l : Located) : Located := ⟨μ.token l.token, μ.place l.start⟩

def found : Found → Found
  | .token t => .token (μ.token t)
  | .operator op => .operator op
  | .endOfText => .endOfText

/-- The error that shows the changed token at its changed place. -/
def error (e : SyntaxError) : SyntaxError := ⟨e.expected, μ.found e.found, μ.place e.position⟩

/-- The same value or the changed error, with the changed rest of the stream. -/
def outcome : Outcome α → Outcome α
  | .done a rest => .done a (rest.map μ.located)
  | .failed e rest => .failed (μ.error e) (rest.map μ.located)

/-- Changed tokens play the same parts in a statement. -/
structure KeepsParts : Prop where
  keyword? : ∀ t, (μ.token t).keyword? = t.keyword?
  name? : ∀ t, (μ.token t).name? = t.name?
  integer? : ∀ t, (μ.token t).integer? = t.integer?
  literal? : ∀ t, (μ.token t).literal? = t.literal?
  text? : ∀ t, (μ.token t).text? = t.text?
  isMark : ∀ c t, (μ.token t).isMark c = t.isMark c

/-- A change of places only. -/
def move (place : Nat → Nat) : Relabeling := ⟨id, place⟩

@[simp] theorem located_move (place : Nat → Nat) (l : Located) :
    (move place).located l = ⟨l.token, place l.start⟩ := rfl

theorem keepsParts_move (place : Nat → Nat) : (move place).KeepsParts :=
  ⟨fun _ => rfl, fun _ => rfl, fun _ => rfl, fun _ => rfl, fun _ => rfl, fun _ _ => rfl⟩

theorem error_move (place : Nat → Nat) :
    (move place).error = fun e => { e with position := place e.position } := by
  funext ⟨expected, found, position⟩
  cases found <;> rfl

theorem result_outcome (o : Outcome α) :
    (μ.outcome o).result = o.result.mapError μ.error := by
  cases o <;> rfl

variable {μ}

theorem KeepsParts.operatorStart? (h : μ.KeepsParts) (t : Token) :
    Reader.operatorStart? (μ.token t) = Reader.operatorStart? t := by
  refine Option.ext fun s => ?_
  have hmark : μ.token t = .mark s.sign ↔ t = .mark s.sign := by
    have := h.isMark s.sign t
    rw [Bool.eq_iff_iff] at this
    simpa only [Token.isMark, beq_iff_eq] using this
  rw [Reader.operatorStart?_eq_some_iff, Reader.operatorStart?_eq_some_iff, hmark]

end Relabeling

namespace Reader

variable {α β : Type} {μ : Relabeling}

/-- On the changed stream, `r'` comes to the changed outcome of `r`. -/
def Relabels (μ : Relabeling) (r r' : Reader α) : Prop :=
  ∀ stop ts, r'.read (μ.place stop) (ts.map μ.located) = μ.outcome (r.read stop ts)

/-! ### One token, and none -/

theorem relabels_pure (a : α) : Relabels μ (pure a) (pure a) := fun _ _ => rfl

theorem relabels_fail (e : SyntaxError) :
    Relabels μ (fail e : Reader α) (fail (μ.error e)) := fun _ _ => rfl

theorem relabels_take (expected : Expectation) {part? : Token → Option α}
    (hpart : ∀ t, part? (μ.token t) = part? t) :
    Relabels μ (take expected part?) (take expected part?) := by
  intro stop ts
  cases ts with
  | nil => rfl
  | cons l ts =>
    cases hl : part? l.token with
    | some a => rw [List.map_cons, read_take_some hl, read_take_some ((hpart _).trans hl)]; rfl
    | none => rw [List.map_cons, read_take_none hl, read_take_none ((hpart _).trans hl)]; rfl

theorem relabels_probe {part? : Token → Option α} (hpart : ∀ t, part? (μ.token t) = part? t) :
    Relabels μ (probe part?) (probe part?) := by
  intro stop ts
  cases ts with
  | nil => rfl
  | cons l ts =>
    cases hl : part? l.token with
    | some a => rw [List.map_cons, read_probe_some hl, read_probe_some ((hpart _).trans hl)]; rfl
    | none => rw [List.map_cons, read_probe_none hl, read_probe_none ((hpart _).trans hl)]; rfl

theorem relabels_finish : Relabels μ finish finish := by
  intro stop ts
  cases ts <;> rfl

/-! ### Sequences -/

theorem Relabels.bind {r r' : Reader α} {f f' : α → Reader β} (hr : Relabels μ r r')
    (hf : ∀ a, Relabels μ (f a) (f' a)) : Relabels μ (r >>= f) (r' >>= f') := by
  intro stop ts
  rw [read_bind, read_bind, hr stop ts]
  cases r.read stop ts with
  | done a rest => exact hf a stop rest
  | failed e rest => rfl

/-- A place that is looked up is the changed one. -/
theorem relabels_position_bind {f f' : Nat → Reader α}
    (hf : ∀ n, Relabels μ (f n) (f' (μ.place n))) :
    Relabels μ (position >>= f) (position >>= f') := by
  intro stop ts
  have hstart : start (μ.place stop) (ts.map μ.located) = μ.place (start stop ts) := by
    cases ts <;> rfl
  rw [read_bind_of_done (read_position _ _), read_bind_of_done (read_position _ _), hstart]
  exact hf _ stop ts

theorem Relabels.ite {c : Prop} [Decidable c] {r r' s s' : Reader α} (hr : Relabels μ r r')
    (hs : Relabels μ s s') : Relabels μ (if c then r else s) (if c then r' else s') := by
  by_cases hc : c
  · rwa [if_pos hc, if_pos hc]
  · rwa [if_neg hc, if_neg hc]

/-! ### Runs -/

theorem relabels_links {item : Reader α} (hitem : Relabels μ item item)
    {link? : Token → Option β} (hlink : ∀ t, link? (μ.token t) = link? t) :
    Relabels μ ⟨links item link?, links_suffix item link?⟩
      ⟨links item link?, links_suffix item link?⟩ := by
  intro stop ts
  change links item link? (μ.place stop) (ts.map μ.located) = μ.outcome (links item link? stop ts)
  fun_induction links item link? stop ts with
  | case1 =>
    rw [List.map_nil, links]
    rfl
  | case2 l ts hl =>
    rw [List.map_cons, links_stop ((hlink _).trans hl)]
    rfl
  | case3 l ts b hl e rest hi =>
    rw [List.map_cons, links_cons ((hlink _).trans hl), hitem stop ts, hi]
    rfl
  | case4 l ts b hl a mid hi more rest hm ih =>
    rw [List.map_cons, links_cons ((hlink _).trans hl), hitem stop ts, hi]
    rw [hm] at ih
    simp only [Relabeling.outcome, ih]
  | case5 l ts b hl a mid hi e rest hm ih =>
    rw [List.map_cons, links_cons ((hlink _).trans hl), hitem stop ts, hi]
    rw [hm] at ih
    simp only [Relabeling.outcome, ih]

theorem relabels_chain {item : Reader α} (hitem : Relabels μ item item)
    {link? : Token → Option β} (hlink : ∀ t, link? (μ.token t) = link? t) :
    Relabels μ (chain item link?) (chain item link?) :=
  hitem.bind fun _ => (relabels_links hitem hlink).bind fun _ => relabels_pure _

/-! ### The parts of statements -/

section parts

variable (hμ : μ.KeepsParts)

include hμ

theorem relabels_keyword (k : Keyword) : Relabels μ (keyword k) (keyword k) :=
  relabels_take _ fun t => by rw [hμ.keyword?]

theorem relabels_acceptKeyword (k : Keyword) :
    Relabels μ (acceptKeyword k) (acceptKeyword k) :=
  (relabels_probe fun t => by rw [hμ.keyword?]).bind fun _ => relabels_pure _

theorem relabels_acceptMark (c : Char) : Relabels μ (acceptMark c) (acceptMark c) :=
  (relabels_probe fun t => by rw [hμ.isMark]).bind fun _ => relabels_pure _

theorem relabels_clause (k : Keyword) {body : Reader α} (hbody : Relabels μ body body) :
    Relabels μ (clause k body) (clause k body) :=
  (relabels_acceptKeyword hμ k).bind fun _ =>
    .ite (hbody.bind fun _ => relabels_pure _) (relabels_pure _)

theorem relabels_commaList {item : Reader α} (hitem : Relabels μ item item) :
    Relabels μ (commaList item) (commaList item) :=
  (relabels_chain hitem fun t => by rw [hμ.isMark]).bind fun _ => relabels_pure _

theorem relabels_name : Relabels μ name name := relabels_take _ hμ.name?

theorem relabels_names : Relabels μ names names := relabels_commaList hμ (relabels_name hμ)

theorem relabels_integer : Relabels μ integer integer := relabels_take _ hμ.integer?

theorem relabels_literal : Relabels μ literal literal := relabels_take _ hμ.literal?

theorem relabels_comparison : Relabels μ comparison comparison := by
  refine (relabels_take _ hμ.operatorStart?).bind fun s => ?_
  cases s with
  | equals => exact relabels_pure _
  | bang =>
    exact (relabels_take _ fun t => by rw [hμ.isMark]).bind fun _ => relabels_pure _
  | less =>
    exact (relabels_acceptMark hμ '=').bind fun _ => .ite (relabels_pure _) (relabels_pure _)
  | greater =>
    exact (relabels_acceptMark hμ '=').bind fun _ => .ite (relabels_pure _) (relabels_pure _)

theorem relabels_plainTerm : Relabels μ plainTerm plainTerm := by
  refine (relabels_probe hμ.text?).bind fun o => ?_
  cases o with
  | some query => exact relabels_pure _
  | none =>
    exact (relabels_name hμ).bind fun _ => (relabels_comparison hμ).bind fun _ =>
      (relabels_literal hμ).bind fun _ => relabels_pure _

theorem relabels_expression : Relabels μ expression expression := by
  have hterm : Relabels μ term term := (relabels_acceptKeyword hμ .not).bind fun _ =>
    .ite ((relabels_plainTerm hμ).bind fun _ => relabels_pure _) (relabels_plainTerm hμ)
  have hlink : ∀ t, connective? (μ.token t) = connective? t := fun t => by
    rw [connective?, connective?, hμ.keyword?]
  exact (relabels_chain hterm hlink).bind fun _ => relabels_pure _

theorem relabels_selection : Relabels μ selection selection :=
  (relabels_acceptMark hμ '*').bind fun _ => .ite (relabels_pure _)
    ((relabels_names hμ).bind fun _ => relabels_pure _)

/-- The only place that is looked up is that of an operator, for the error that shows it. -/
theorem relabels_scriptField : Relabels μ scriptField scriptField :=
  (relabels_name hμ).bind fun _ => relabels_position_bind fun _ =>
    (relabels_comparison hμ).bind fun _ =>
      .ite ((relabels_take _ hμ.text?).bind fun _ => relabels_pure _) (relabels_fail _)

theorem relabels_filterCondition : Relabels μ filterCondition filterCondition :=
  have hname : ∀ g : String → Expr,
      Relabels μ (do return g (← name)) (do return g (← name)) :=
    fun _ => (relabels_name hμ).bind fun _ => relabels_pure _
  (relabels_acceptKeyword hμ .exist).bind fun _ => .ite (hname .present) <|
    (relabels_acceptKeyword hμ .missing).bind fun _ => .ite (hname .missing)
      (relabels_expression hμ)

theorem relabels_sortKeys : Relabels μ sortKeys sortKeys := by
  have hdirection : ∀ t, direction? (μ.token t) = direction? t := fun t => by
    rw [direction?, direction?, hμ.keyword?]
  exact (relabels_keyword hμ .by).bind fun _ => relabels_commaList hμ <|
    (relabels_name hμ).bind fun _ => (relabels_probe hdirection).bind fun _ => relabels_pure _

theorem relabels_page : Relabels μ page page :=
  (relabels_integer hμ).bind fun _ => (relabels_acceptMark hμ ',').bind fun _ =>
    .ite ((relabels_integer hμ).bind fun _ => relabels_pure _) (relabels_pure _)

theorem relabels_search (fields facets : Option (List String)) (script : Option ScriptField) :
    Relabels μ (search fields facets script) (search fields facets script) := by
  refine (relabels_keyword hμ .from).bind fun _ => (relabels_name hμ).bind fun _ =>
    (relabels_clause hμ .where (relabels_expression hμ)).bind fun _ =>
    (relabels_clause hμ .filter (relabels_filterCondition hμ)).bind fun _ =>
    (relabels_clause hμ .order (relabels_sortKeys hμ)).bind fun _ =>
    (relabels_clause hμ .limit (relabels_page hμ)).bind fun hits =>
    relabels_finish.bind fun _ => ?_
  obtain _ | ⟨_ | _, _⟩ := hits <;> exact relabels_pure _

/-- **A statement is read by the parts that its tokens play.** -/
theorem relabels_statement : Relabels μ statement statement :=
  (relabels_keyword hμ .select).bind fun _ => (relabels_selection hμ).bind fun _ =>
    (relabels_clause hμ .facets (relabels_names hμ)).bind fun _ =>
    (relabels_clause hμ .script (relabels_scriptField hμ)).bind fun _ => relabels_search hμ _ _ _

end parts

/-! ### Texts -/

/-- Of two texts, one of which has the changed tokens of the other, the same value is read, or an
error and the changed error. -/
theorem Relabels.readText {r : Reader α} (hr : Relabels μ r r) {text text' : String}
    (hscan : Token.scan text' = (Token.scan text).map μ.located)
    (hlength : text'.length = μ.place text.length) :
    r.readText text' = (r.readText text).mapError μ.error := by
  change (r.read text'.length (Token.scan text')).result = _
  rw [hscan, hlength, hr, μ.result_outcome]
  rfl

/-- Of two texts that have the same tokens once they are changed, the same value is read, or two
errors that are the same once they are changed. -/
theorem Relabels.readText_congr {r : Reader α} (hr : Relabels μ r r) {text text' : String}
    (hscan : (Token.scan text').map μ.located = (Token.scan text).map μ.located)
    (hlength : μ.place text'.length = μ.place text.length) :
    (r.readText text').mapError μ.error = (r.readText text).mapError μ.error := by
  change (r.read text'.length (Token.scan text')).result.mapError μ.error =
    (r.read text.length (Token.scan text)).result.mapError μ.error
  rw [← μ.result_outcome, ← μ.result_outcome, ← hr, ← hr, hscan, hlength]

end Reader

end SearchSql
