import SearchSql.Proofs.Delivery
import SearchSql.Proofs.LeftToRight
import SearchSql.Statement.Walking

/-!
# Walks and readers

A `Walk` moves a cursor, and what it leaves behind is hidden in the cursor: a token that was put
back, and one that can be.  A `Reader` takes tokens from the front of a list.  Wherever a cursor
stands in a text, a walk does with the cursor what its reader does with the tokens that the cursor
has still to hand out.

## Main definitions

* `Cursor.StandsIn` : a cursor that was moved along a text by calls.
* `Cursor.Delivers` : what a cursor hands out from now on.
* `Walk.AgreesAt`, `Walk.Follows` : a walk does what a reader does, from one cursor and from every
  cursor.

## Main statements

* `Cursor.Tracks.ofCursor_eq` : what a cursor has still to hand out.
* `Cursor.StandsIn.next_cases` : what is handed out next is the first token that is left, and
  `Cursor.StandsIn.delivers` : all tokens that are left are handed out, one after the other.
* `Walk.Follows.bind`, `Walk.follows_take`, `Walk.follows_probe`, `Walk.follows_position`,
  `Walk.follows_finish`, `Walk.follows_gather` : one lemma for each way to put walks together.
* `Walk.follows_statement` : a walk over a statement does what the reader of statements does.
* `Statement.ofText_eq_run` : **a statement is read alike by moving a cursor and from the list of
  tokens.**
-/

namespace SearchSql

open Token (Located)

/-- The `n`-th token of a stream; behind the last one, the end of the text. -/
def TokenStream.nth (s : TokenStream) (n : Nat) : Sighting :=
  match s.tokens[n]? with
  | some l => ⟨some l.token, l.start⟩
  | none => ⟨none, s.stop⟩

namespace Cursor

variable {text : String} {c : Cursor}

/-! ### What a cursor has still to hand out -/

/-- What a cursor has still to hand out are the tokens of the text from its place on. -/
theorem Tracks.ofCursor_eq {p : Pointer} (h : Tracks text c p) :
    TokenStream.ofCursor c = ⟨(Token.scan text).drop p.index, text.length⟩ := by
  cases h with
  | fresh =>
    rw [TokenStream.ofCursor, ← (from_zero text).stop]
    rfl
  | handed hfrom =>
    rw [TokenStream.ofCursor, ← hfrom.tokens, ← hfrom.stop]
    rfl
  | @putBack i cs offset hfrom =>
    -- the token that waits is the one in front of those that are not yet cut off
    have hpending : (Sighting.nth text i).located?.toList ++ (Token.scan text).drop (i + 1) =
        (Token.scan text).drop i := by
      rw [@List.drop_eq_getElem?_toList_append _ (Token.scan text) i, Sighting.nth]
      cases (Token.scan text)[i]? <;> rfl
    rw [TokenStream.ofCursor, hfrom.tokens, hfrom.stop]
    exact congrArg (TokenStream.mk · _) hpending

/-- The cursor stands in the text where calls can have moved it. -/
def StandsIn (c : Cursor) (text : String) : Prop := ∃ p, Tracks text c p

theorem standsIn_ofText (text : String) : (ofText text).StandsIn text := ⟨_, .fresh⟩

namespace StandsIn

theorem next (h : c.StandsIn text) : c.next.2.StandsIn text := by
  obtain ⟨p, h⟩ := h
  exact ⟨_, (h.call .next).2⟩

theorem unread (h : c.StandsIn text) : c.unread.StandsIn text := by
  obtain ⟨p, h⟩ := h
  exact ⟨_, (h.call .unread).2⟩

theorem stop (h : c.StandsIn text) : (TokenStream.ofCursor c).stop = text.length := by
  obtain ⟨p, h⟩ := h
  rw [h.ofCursor_eq]

/-- What is handed out next is the first token that is left; if none is left, it is the end of the
text. -/
theorem next_cases (h : c.StandsIn text) :
    (∃ l rest, c.next.1 = ⟨some l.token, l.start⟩ ∧
      TokenStream.ofCursor c = ⟨l :: rest, text.length⟩ ∧
      TokenStream.ofCursor c.next.2 = ⟨rest, text.length⟩) ∨
    c.next.1 = ⟨none, text.length⟩ ∧ TokenStream.ofCursor c = ⟨[], text.length⟩ ∧
      TokenStream.ofCursor c.next.2 = ⟨[], text.length⟩ := by
  obtain ⟨p, h⟩ := h
  obtain ⟨htoken, htracks⟩ := h.call .next
  have hnext : c.next.1 = .nth text p.index := Answer.token.inj htoken
  have hrest : TokenStream.ofCursor c.next.2 =
      ⟨(Token.scan text).drop (p.index + 1), text.length⟩ := htracks.ofCursor_eq
  rw [hnext, hrest, h.ofCursor_eq, Sighting.nth,
    @List.drop_eq_getElem?_toList_append _ (Token.scan text) p.index]
  cases hl : (Token.scan text)[p.index]? with
  | some l => exact .inl ⟨l, _, rfl, rfl, rfl⟩
  | none =>
    have hnil : (Token.scan text).drop (p.index + 1) = [] :=
      List.drop_eq_nil_of_le (Nat.le_succ_of_le (List.getElem?_eq_none_iff.1 hl))
    rw [hnil]
    exact .inr ⟨rfl, rfl, rfl⟩

/-- A token that is put back is left as before. -/
theorem ofCursor_unread (h : c.StandsIn text) :
    TokenStream.ofCursor c.next.2.unread = .ofCursor c := by
  have htokens := c.next.2.unread.tokens_ofCursor_next
  rw [next_unread_next, ← tokens_ofCursor_next] at htokens
  exact TokenStream.ext htokens (h.next.unread.stop.trans h.stop.symm)

end StandsIn

end Cursor

/-! ### Other ways to read -/

/-- The items of a run, put one behind the other. -/
theorem Run.items_eq_foldl {α β : Type} (r : Run β α) :
    r.items = r.more.foldl (fun as la => as ++ [la.2]) [r.first] := by
  rw [List.foldl_append_eq_append, items, ← List.flatMap_def]
  simp [List.map_eq_flatMap]

/-- A term is not a group. -/
theorem Grammar.Term.link?_eq_none {ts : List Token} {e : Expr} (h : Term ts e) :
    e.link? = none := by
  cases h with
  | not => rfl
  | plain h => cases h <;> rfl

namespace Reader

variable {α β σ : Type}

/-- What is gathered from the links and items that follow. -/
def gathered (item : Reader α) (link? : Token → Option β) (add : σ → β × α → σ) (s : σ) :
    Reader σ := do
  let more ← ⟨links item link?, links_suffix item link?⟩
  return more.foldl add s

/-- The first link and its item are gathered before the others. -/
theorem gathered_eq (item : Reader α) (link? : Token → Option β) (add : σ → β × α → σ) (s : σ) :
    gathered item link? add s =
      (probe link? >>= fun
        | none => pure s
        | some b => item >>= fun a => gathered item link? add (add s (b, a))) := by
  ext stop ts
  rw [gathered, read_bind, read_bind]
  cases ts with
  | nil => simp [links]
  | cons l ts =>
    cases hl : link? l.token with
    | none => simp [links_stop hl, read_probe_none hl]
    | some b =>
      simp only [links_cons hl, read_probe_some hl, read_bind]
      cases item.read stop ts with
      | failed e rest => rfl
      | done a rest =>
        simp only [gathered, read_bind]
        cases links item link? stop rest <;> rfl

/-- Gathering goes along the run. -/
theorem chain_bind_foldl (item : Reader α) (link? : Token → Option β) (start : α → σ)
    (add : σ → β × α → σ) :
    (chain item link? >>= fun run => pure (run.more.foldl add (start run.first))) =
      (item >>= fun first => gathered item link? add (start first)) := by
  ext stop ts
  rw [chain, read_bind, read_bind, read_bind]
  cases item.read stop ts with
  | failed e rest => rfl
  | done a rest =>
    simp only [gathered, read_bind]
    cases links item link? stop rest <;> rfl

theorem commaList_eq (item : Reader α) :
    commaList item =
      (item >>= fun first => gathered item (fun t => if t.isMark ',' then some () else none)
        (fun as la => as ++ [la.2]) [first]) := by
  rw [← chain_bind_foldl _ _ (fun a => [a]), commaList]
  simp only [Run.items_eq_foldl]

theorem bind_pure (r : Reader α) : r >>= pure = r := by
  ext stop ts
  rw [read_bind]
  cases r.read stop ts <;> rfl

/-- An expression can be read with an open group, which takes the terms one after the other. -/
theorem expression_eq :
    expression =
      ((term >>= fun first => gathered term connective?
        (fun s ce => (s.1.push s.2 ce.1, ce.2)) (Grouping.start, first)) >>=
        fun s => pure (s.1.finish s.2)) := by
  rw [← chain_bind_foldl term connective? fun e => (Grouping.start, e)]
  ext stop ts
  rw [expression, read_bind, read_bind, read_bind]
  cases hread : (chain term connective?).read stop ts with
  | failed e rest => rfl
  | done run rest =>
    -- the first term is not a group, which would take the second term as a child
    obtain ⟨used, rfl, us, vs, -, hfirst, -⟩ :=
      (parses_chain parses_term Grammar.connective?_eq_some_iff fun _ _ _ => trivial).sound hread
    have htree := Grouping.tree_eq_ofRun hfirst.link?_eq_none
    rw [Grouping.tree, ← Grouping.finish_foldl_push] at htree
    exact congrArg (Outcome.done · rest) htree.symm

/-- A token that is put back, and handed out again to be reported, is as good as taken. -/
theorem take_eq_probe (expected : Expectation) (part? : Token → Option α) :
    take expected part? =
      (probe part? >>= fun
        | some a => pure a
        | none => take expected fun _ => none) := by
  ext stop ts
  rw [read_bind]
  cases ts with
  | nil => rfl
  | cons l ts =>
    cases hl : part? l.token with
    | some a => rw [read_take_some hl, read_probe_some hl]; rfl
    | none => rw [read_take_none hl, read_probe_none hl]; rfl

end Reader

namespace Walk

variable {α β σ : Type}

/-- From where the cursor stands in the text, the walk does what the reader does with the tokens
that are left. -/
structure AgreesAt (text : String) (w : Walk α) (r : Reader α) (c : Cursor) : Prop where
  /-- They have the same answer and leave the same tokens. -/
  step_eq : r.step (.ofCursor c) = ((w.run c).1, .ofCursor (w.run c).2)
  /-- The cursor still stands in the text. -/
  standsIn : (w.run c).2.StandsIn text

/-- Wherever a cursor stands, the walk does what the reader does with the tokens that are left. -/
def Follows (w : Walk α) (r : Reader α) : Prop :=
  ∀ ⦃text c⦄, Cursor.StandsIn c text → AgreesAt text w r c

/-! ### One after the other -/

section bind

variable {text : String} {c c' : Cursor} {w : Walk α} {r : Reader α} {f : α → Walk β}
  {g : α → Reader β}

theorem AgreesAt.of_run {answer : Except SyntaxError α} (hrun : w.run c = (answer, c'))
    (hstep : r.step (.ofCursor c) = (answer, .ofCursor c')) (hc' : c'.StandsIn text) :
    AgreesAt text w r c := by
  constructor <;> rw [hrun]
  · exact hstep
  · exact hc'

/-- It is enough that the second parts agree where the first part leaves the cursor. -/
theorem AgreesAt.bind (h : AgreesAt text w r c)
    (hf : ∀ a, (w.run c).1 = .ok a → AgreesAt text (f a) (g a) (w.run c).2) :
    AgreesAt text (w >>= f) (r >>= g) c := by
  obtain ⟨hstep, hstands⟩ := h
  rcases hw : w.run c with ⟨e | a, c'⟩ <;> rw [hw] at hstep hstands hf
  · refine .of_run (by rw [run_bind, hw]) ?_ hstands
    rw [Reader.step_bind, hstep]
  · obtain ⟨hstep', hstands'⟩ := hf a rfl
    refine .of_run (by rw [run_bind, hw]) ?_ hstands'
    rw [Reader.step_bind, hstep]
    exact hstep'

theorem Follows.bind (h : Follows w r) (hf : ∀ a, Follows (f a) (g a)) :
    Follows (w >>= f) (r >>= g) :=
  fun _ _ hc => (h hc).bind fun a _ => hf a (h hc).standsIn

end bind

theorem follows_pure (a : α) : Follows (pure a) (pure a) := fun _ _ hc => ⟨rfl, hc⟩

theorem follows_fail (e : SyntaxError) : Follows (fail e : Walk α) (Reader.fail e) :=
  fun _ _ hc => ⟨rfl, hc⟩

/-! ### The next token -/

theorem follows_take (expected : Expectation) (part? : Token → Option α) :
    Follows (take expected part?) (Reader.take expected part?) := by
  intro text c hc
  refine .of_run (run_take expected part? c) ?_ hc.next
  rcases hc.next_cases with ⟨l, rest, hl, hs, hs'⟩ | ⟨hl, hs, hs'⟩ <;> rw [hl, hs, hs']
  · cases hpart : part? l.token with
    | some a => simp [Reader.step, Reader.read_take_some hpart, hpart]
    | none => simp [Reader.step, Reader.read_take_none hpart, hpart, Sighting.found]
  · rfl

/-- A token that does not fit is put back, so that the same tokens are left as before. -/
theorem follows_probe (part? : Token → Option α) :
    Follows (probe part?) (Reader.probe part?) := by
  intro text c hc
  rcases hc.next_cases with ⟨l, rest, hl, hs, hs'⟩ | ⟨hl, hs, -⟩
  · cases hpart : part? l.token with
    | some a =>
      have hrun : (probe part?).run c = (.ok (some a), c.next.2) := by
        simp [probe, Cursor.accept, hl, hpart]
      refine .of_run hrun ?_ hc.next
      rw [hs, hs', Reader.step, Reader.read_probe_some hpart]
      rfl
    | none =>
      have hrun : (probe part?).run c = (.ok none, c.next.2.unread) := by
        simp [probe, Cursor.accept, hl, hpart]
      refine .of_run hrun ?_ hc.next.unread
      rw [hc.ofCursor_unread, hs, Reader.step, Reader.read_probe_none hpart]
      rfl
  · have hrun : (probe part?).run c = (.ok none, c.next.2.unread) := by
      simp [probe, Cursor.accept, hl]
    refine .of_run hrun ?_ hc.next.unread
    rw [hc.ofCursor_unread, hs]
    rfl

theorem follows_position : Follows position Reader.position := by
  intro text c hc
  have hrun : position.run c = (.ok c.next.1.start, c.next.2.unread) := by
    rw [← c.position_unread_next.1]
    rfl
  refine .of_run hrun ?_ hc.next.unread
  rw [hc.ofCursor_unread]
  rcases hc.next_cases with ⟨l, rest, hl, hs, -⟩ | ⟨hl, hs, -⟩ <;> rw [hl, hs] <;> rfl

theorem follows_finish : Follows finish Reader.finish := by
  intro text c hc
  rcases hc.next_cases with ⟨l, rest, hl, hs, hs'⟩ | ⟨hl, hs, hs'⟩
  · have hrun : finish.run c = (.error ⟨.endOfInput, .token l.token, l.start⟩, c.next.2) := by
      simp [finish, c.position_unread_next.1, hl]
    refine .of_run hrun ?_ hc.next
    rw [hs, hs']
    rfl
  · have hrun : finish.run c = (.ok (), c.next.2) := by simp [finish, hl]
    refine .of_run hrun ?_ hc.next
    rw [hs, hs']
    rfl

theorem follows_refuse (expected : Expectation) :
    Follows (refuse expected : Walk α) (Reader.take expected fun _ => none) :=
  follows_take expected _

/-! ### Keywords, characters and clauses -/

/-- A choice made alike. -/
theorem Follows.ite {w w' : Walk α} {r r' : Reader α} {p : Prop} [Decidable p] (h : Follows w r)
    (h' : Follows w' r') : Follows (if p then w else w') (if p then r else r') := by
  by_cases hp : p
  · rwa [if_pos hp, if_pos hp]
  · rwa [if_neg hp, if_neg hp]

theorem follows_keyword (k : Keyword) : Follows (keyword k) (Reader.keyword k) :=
  follows_take _ _

theorem follows_acceptKeyword (k : Keyword) : Follows (acceptKeyword k) (Reader.acceptKeyword k) :=
  (follows_probe _).bind fun _ => follows_pure _

theorem follows_acceptMark (c : Char) : Follows (acceptMark c) (Reader.acceptMark c) :=
  (follows_probe _).bind fun _ => follows_pure _

theorem follows_clause (k : Keyword) {body : Walk α} {r : Reader α} (h : Follows body r) :
    Follows (clause k body) (Reader.clause k r) :=
  (follows_acceptKeyword k).bind fun _ => .ite (h.bind fun _ => follows_pure _) (follows_pure _)

/-! ### Loops -/

section gather

variable {w : Walk α} {r : Reader α}

/-- A loop goes on as long as the reader finds links. -/
theorem agreesAt_gatherMore (h : Follows w r) (link? : Token → Option β) (add : σ → β × α → σ)
    {text : String} {c : Cursor} (s : σ) (hc : c.StandsIn text) :
    AgreesAt text (gatherMore w link? add s) (Reader.gathered r link? add s) c := by
  rw [gatherMore_eq, Reader.gathered_eq]
  have hprobe := follows_probe link? hc
  refine hprobe.bind fun o ho => ?_
  cases o with
  | none => exact follows_pure s hprobe.standsIn
  | some b =>
    have hitem := h hprobe.standsIn
    exact hitem.bind fun a _ => agreesAt_gatherMore h link? add (add s (b, a)) hitem.standsIn
termination_by c.undelivered
decreasing_by exact undelivered_lt_of_link (Prod.ext (Except.ok.inj ho) rfl) rfl

theorem follows_gather (h : Follows w r) (link? : Token → Option β) (start : α → σ)
    (add : σ → β × α → σ) :
    Follows (gather w link? start add)
      (r >>= fun first => Reader.gathered r link? add (start first)) :=
  h.bind fun first _ _ hc => agreesAt_gatherMore h link? add (start first) hc

theorem follows_commaList (h : Follows w r) : Follows (commaList w) (Reader.commaList r) := by
  rw [Reader.commaList_eq]
  exact follows_gather h _ _ _

end gather

/-! ### Parts of statements -/

theorem follows_name : Follows name Reader.name := by
  rw [Reader.name, Reader.take_eq_probe]
  refine (follows_probe _).bind fun o => ?_
  cases o with
  | some n => exact follows_pure n
  | none => exact follows_refuse .identifier

theorem follows_names : Follows names Reader.names := follows_commaList follows_name

theorem follows_integer : Follows integer Reader.integer := follows_take _ _

theorem follows_literal : Follows literal Reader.literal := follows_take _ _

theorem follows_comparison : Follows comparison Reader.comparison := by
  refine (follows_take _ _).bind fun start => ?_
  cases start with
  | equals => exact follows_pure _
  | bang => exact (follows_take _ _).bind fun _ => follows_pure _
  | less | greater =>
    exact (follows_acceptMark '=').bind fun _ => .ite (follows_pure _) (follows_pure _)

theorem follows_compare : Follows compare Reader.compare :=
  follows_name.bind fun _ => follows_comparison.bind fun _ => follows_literal.bind fun _ =>
    follows_pure _

theorem follows_plainTerm : Follows plainTerm Reader.plainTerm := by
  refine (follows_probe _).bind fun o => ?_
  cases o with
  | some query => exact follows_pure _
  | none => exact follows_compare

theorem follows_term : Follows term Reader.term := by
  refine (follows_acceptKeyword .not).bind fun negated => ?_
  cases negated with
  | true => exact follows_plainTerm.bind fun _ => follows_pure _
  | false =>
    have h := follows_plainTerm.bind fun e => follows_pure e
    rw [Reader.bind_pure] at h
    exact h

theorem follows_expression : Follows expression Reader.expression := by
  rw [Reader.expression_eq]
  exact (follows_gather follows_term _ _ _).bind fun _ => follows_pure _

theorem follows_selection : Follows selection Reader.selection :=
  (follows_acceptMark '*').bind fun _ =>
    .ite (follows_pure _) (follows_names.bind fun _ => follows_pure _)

theorem follows_scriptField : Follows scriptField Reader.scriptField :=
  follows_name.bind fun _ => follows_position.bind fun _ => follows_comparison.bind fun _ =>
    .ite ((follows_take _ _).bind fun _ => follows_pure _) (follows_fail _)

theorem follows_filterCondition : Follows filterCondition Reader.filterCondition :=
  (follows_acceptKeyword .exist).bind fun _ => .ite (follows_name.bind fun _ => follows_pure _)
    ((follows_acceptKeyword .missing).bind fun _ => .ite (follows_name.bind fun _ => follows_pure _)
      follows_expression)

theorem follows_sortKeys : Follows sortKeys Reader.sortKeys :=
  (follows_keyword .by).bind fun _ => follows_commaList
    (follows_name.bind fun _ => (follows_probe _).bind fun _ => follows_pure _)

theorem follows_page : Follows page Reader.page :=
  follows_integer.bind fun _ => (follows_acceptMark ',').bind fun _ =>
    .ite (follows_integer.bind fun _ => follows_pure _) (follows_pure _)

theorem follows_search (fields facets : Option (List String)) (script : Option ScriptField) :
    Follows (search fields facets script) (Reader.search fields facets script) := by
  refine (follows_keyword .from).bind fun _ => follows_name.bind fun _ =>
    (follows_clause .where follows_expression).bind fun _ =>
    (follows_clause .filter follows_filterCondition).bind fun _ =>
    (follows_clause .order follows_sortKeys).bind fun _ =>
    (follows_clause .limit follows_page).bind fun hits => follows_finish.bind fun _ => ?_
  match hits with
  | none => exact follows_pure _
  | some (none, _) => exact follows_pure _
  | some (some _, _) => exact follows_pure _

theorem follows_statement : Follows statement Reader.statement :=
  (follows_keyword .select).bind fun _ => follows_selection.bind fun _ =>
    (follows_clause .facets follows_names).bind fun _ =>
    (follows_clause .script follows_scriptField).bind fun _ => follows_search _ _ _

end Walk

/-- A walk from the start of a text reads what its reader reads. -/
theorem Walk.Follows.readText {α : Type} {w : Walk α} {r : Reader α} (h : Follows w r)
    (text : String) : r.readText text = (w.run (Cursor.ofText text)).1 := by
  have hstart : TokenStream.ofCursor (Cursor.ofText text) = .ofText text :=
    Cursor.Tracks.fresh.ofCursor_eq
  rw [Reader.readText, ← hstart, (h (Cursor.standsIn_ofText text)).step_eq]

/-- **A statement is read alike by moving a cursor and from the list of tokens.** -/
theorem Statement.ofText_eq_run (text : String) :
    ofText text = (Walk.statement.run (Cursor.ofText text)).1 :=
  Walk.follows_statement.readText text

end SearchSql
