import SearchSql.Proofs.Parsing
import SearchSql.Statement.Reading

/-!
# Readers look one token ahead

What a reader makes of a stream is settled by the tokens that it takes and by the one behind
them.  An error that names a token is settled by the tokens up to that one: whatever follows, the
reader fails in the same way (`Reader.Causal.failed`).

* `Reader.Causal` : the property, for one reader.
* `Reader.Causal.bind`, `Reader.causal_links` : it is kept in sequences and runs.
* `Reader.causal_statement` : every part of the reader of statements has it, and so has the
  whole.
-/

namespace SearchSql

open Token (Located)

namespace Reader

variable {α β : Type}

/-- Neither a value nor an error that names a token depends on what stands behind the next
token. -/
structure Causal (r : Reader α) : Prop where
  /-- A value stays the same if only the next token does. -/
  done : ∀ {stop us l rest a}, r.read stop (us ++ l :: rest) = .done a (l :: rest) →
    ∀ rest', r.read stop (us ++ l :: rest') = .done a (l :: rest')
  /-- A token that does not fit is taken, and it does not fit whatever follows. -/
  failed : ∀ {stop us rest e t}, r.read stop (us ++ rest) = .failed e rest →
    e.found = .token t → us ≠ [] ∧ ∀ rest', r.read stop (us ++ rest') = .failed e rest'

theorem Causal.done_append {r : Reader α} (hr : Causal r) {stop : Nat} {us vs rest : List Located}
    {l : Located} {a : α} (h : r.read stop (us ++ (vs ++ l :: rest)) = .done a (vs ++ l :: rest))
    (rest' : List Located) :
    r.read stop (us ++ (vs ++ l :: rest')) = .done a (vs ++ l :: rest') := by
  cases vs with
  | nil => exact hr.done h rest'
  | cons x vs => exact hr.done h (vs ++ l :: rest')

/-! ### One token, and none -/

theorem causal_pure (a : α) : Causal (pure a) where
  done {_ us _ _ _} h _ := by
    rw [read_pure, Outcome.done.injEq, List.append_left_eq_self] at h
    obtain ⟨rfl, rfl⟩ := h
    rfl
  failed h := by cases h

theorem causal_position : Causal position where
  done {_ us _ _ _} h _ := by
    rw [read_position, Outcome.done.injEq, List.append_left_eq_self] at h
    obtain ⟨rfl, rfl⟩ := h
    rfl
  failed {_ us rest _ _} h := by
    rw [read_position] at h
    cases h

/-- An error that names no token settles nothing. -/
theorem causal_fail {e : SyntaxError} (he : ∀ t, e.found ≠ .token t) :
    Causal (fail e : Reader α) where
  done h := by cases h
  failed h ht := by
    obtain ⟨rfl, -⟩ := Outcome.failed.inj h
    exact absurd ht (he _)

theorem causal_take (expected : Expectation) (part? : Token → Option α) :
    Causal (take expected part?) where
  done {stop us l rest a} h rest' := by
    obtain ⟨x, hus, hx⟩ := of_read_take_done h
    obtain rfl : us = [x] := List.append_cancel_right hus
    exact read_take_some hx stop _
  failed {stop us rest e t} h he := by
    obtain ⟨hrest, hat, hnone⟩ := of_read_take_failed h
    cases hts : us ++ rest with
    | nil =>
      rw [hat.1, hts] at he
      cases he
    | cons x ts =>
      -- the token that is refused is all that is taken
      rw [hts] at hrest hnone
      subst hrest
      obtain rfl : us = [x] := List.append_cancel_right hts
      have hx : part? x.token = none := hnone _ rfl
      refine ⟨List.cons_ne_nil x [], fun rest' => ?_⟩
      rw [List.singleton_append, read_take_none hx] at h ⊢
      cases h
      rfl

theorem causal_probe (part? : Token → Option α) : Causal (probe part?) where
  done {stop us l rest a} h rest' := by
    rcases of_read_probe_done h with ⟨rfl, hus, hnone⟩ | ⟨x, b, rfl, hus, hx⟩
    · rw [List.append_left_eq_self] at hus
      subst hus
      exact read_probe_none (hnone l.token rfl) stop rest'
    · obtain rfl : us = [x] := List.append_cancel_right hus
      exact read_probe_some hx stop _
  failed h := absurd h (read_probe_ne_failed _ _ _ _ _)

theorem causal_finish : Causal finish where
  done {_ us _ _ _} h := by
    cases us <;> cases h
  failed {_ us rest _ _} h _ := by
    cases us with
    | nil =>
      cases rest with
      | nil => cases h
      | cons l rest =>
        rw [List.nil_append, read_finish_cons, Outcome.failed.injEq] at h
        exact absurd h.2.symm (List.cons_ne_self l rest)
    | cons x us =>
      refine ⟨List.cons_ne_nil x us, fun rest' => ?_⟩
      rw [List.cons_append, read_finish_cons, Outcome.failed.injEq,
        List.append_left_eq_self] at h
      obtain ⟨rfl, rfl⟩ := h
      rfl

/-! ### Sequences -/

theorem suffix_of_read_done {r : Reader α} {stop : Nat} {ts rest : List Located} {a : α}
    (h : r.read stop ts = .done a rest) : rest <:+ ts := by
  have hs := r.rest_suffix stop ts
  rwa [h] at hs

theorem suffix_of_read_failed {r : Reader α} {stop : Nat} {ts rest : List Located}
    {e : SyntaxError} (h : r.read stop ts = .failed e rest) : rest <:+ ts := by
  have hs := r.rest_suffix stop ts
  rwa [h] at hs

theorem Causal.bind {r : Reader α} {f : α → Reader β} (hr : Causal r) (hf : ∀ a, Causal (f a)) :
    Causal (r >>= f) where
  done {stop us l rest b} h rest' := by
    obtain ⟨a, mid, h₁, h₂⟩ := of_read_bind_done h
    -- the first reader takes `ws`, the second one `vs`
    obtain ⟨vs, rfl⟩ := suffix_of_read_done h₂
    obtain ⟨ws, hws⟩ := suffix_of_read_done h₁
    rw [← List.append_assoc, List.append_cancel_right_eq] at hws
    subst hws
    rw [List.append_assoc] at h₁ ⊢
    rw [read_bind_of_done (hr.done_append h₁ rest')]
    exact (hf a).done h₂ rest'
  failed {stop us rest e t} h he := by
    rcases of_read_bind_failed h with h | ⟨a, mid, h₁, h₂⟩
    · obtain ⟨hne, h⟩ := hr.failed h he
      refine ⟨hne, fun rest' => ?_⟩
      rw [read_bind, h rest']
    · obtain ⟨vs, rfl⟩ := suffix_of_read_failed h₂
      obtain ⟨ws, hws⟩ := suffix_of_read_done h₁
      rw [← List.append_assoc, List.append_cancel_right_eq] at hws
      subst hws
      -- the second reader takes a token, so what the first one looks at stays
      obtain ⟨hne, h₂⟩ := (hf a).failed h₂ he
      obtain ⟨l, vs, rfl⟩ := List.exists_cons_of_ne_nil hne
      refine ⟨by simp, fun rest' => ?_⟩
      rw [List.append_assoc, List.cons_append] at h₁ ⊢
      rw [read_bind_of_done (hr.done h₁ (vs ++ rest'))]
      exact h₂ rest'

/-! ### Runs -/

theorem causal_links {item : Reader α} (hitem : Causal item) (link? : Token → Option β) :
    Causal ⟨links item link?, links_suffix item link?⟩ where
  done {stop us l rest xs} h rest' := by
    change links item link? stop (us ++ l :: rest) = _ at h
    change links item link? stop (us ++ l :: rest') = _
    generalize hts : us ++ l :: rest = ts at h
    fun_induction links item link? stop ts generalizing us xs with
    | case1 => simp at hts
    | case2 x ts hx =>
      cases h
      rw [List.append_left_eq_self] at hts
      subst hts
      exact links_stop hx rest'
    | case3 x ts b hx e mid hi => cases h
    | case4 x ts b hx a mid hi more rest₀ hm ih =>
      cases h
      obtain ⟨vs, rfl⟩ := suffix_of_read_done (r := ⟨_, links_suffix item link?⟩) hm
      obtain ⟨ws, rfl⟩ := suffix_of_read_done hi
      obtain rfl : us = x :: (ws ++ vs) := by
        rwa [← List.append_assoc, ← List.cons_append, List.append_cancel_right_eq] at hts
      rw [List.cons_append, List.append_assoc, links_cons hx, hitem.done_append hi rest']
      dsimp only
      rw [ih rfl hm]
    | case5 x ts b hx a mid hi e rest₀ hm ih => cases h
  failed {stop us rest e t} h he := by
    change links item link? stop (us ++ rest) = _ at h
    change us ≠ [] ∧ ∀ rest', links item link? stop (us ++ rest') = _
    generalize hts : us ++ rest = ts at h
    fun_induction links item link? stop ts generalizing us with
    | case1 => cases h
    | case2 x ts hx => cases h
    | case3 x ts b hx e mid hi =>
      cases h
      obtain ⟨vs, rfl⟩ := suffix_of_read_failed hi
      obtain rfl : us = x :: vs := by
        rwa [← List.cons_append, List.append_cancel_right_eq] at hts
      refine ⟨by simp, fun rest' => ?_⟩
      rw [List.cons_append, links_cons hx, (hitem.failed hi he).2 rest']
    | case4 x ts b hx a mid hi more rest₀ hm ih => cases h
    | case5 x ts b hx a mid hi e rest₀ hm ih =>
      cases h
      obtain ⟨vs, rfl⟩ := suffix_of_read_failed (r := ⟨_, links_suffix item link?⟩) hm
      obtain ⟨ws, rfl⟩ := suffix_of_read_done hi
      obtain rfl : us = x :: (ws ++ vs) := by
        rwa [← List.append_assoc, ← List.cons_append, List.append_cancel_right_eq] at hts
      -- the rest of the run takes a token, so the item stays the same
      obtain ⟨hne, hl⟩ := ih rfl hm
      obtain ⟨l, vs, rfl⟩ := List.exists_cons_of_ne_nil hne
      refine ⟨by simp, fun rest' => ?_⟩
      rw [List.cons_append, List.append_assoc, links_cons hx, List.cons_append,
        hitem.done hi (vs ++ rest')]
      dsimp only
      rw [← List.cons_append, hl rest']

theorem causal_chain {item : Reader α} (hitem : Causal item) (link? : Token → Option β) :
    Causal (chain item link?) :=
  hitem.bind fun _ => (causal_links hitem link?).bind fun _ => causal_pure _

theorem causal_commaList {item : Reader α} (hitem : Causal item) : Causal (commaList item) :=
  (causal_chain hitem _).bind fun _ => causal_pure _

/-! ### The parts of statements -/

theorem causal_acceptKeyword (k : Keyword) : Causal (acceptKeyword k) :=
  (causal_probe _).bind fun _ => causal_pure _

theorem causal_acceptMark (c : Char) : Causal (acceptMark c) :=
  (causal_probe _).bind fun _ => causal_pure _

theorem Causal.ite {c : Prop} [Decidable c] {r r' : Reader α} (hr : Causal r) (hr' : Causal r') :
    Causal (if c then r else r') := by
  split
  · exact hr
  · exact hr'

theorem causal_clause {body : Reader α} (hbody : Causal body) (k : Keyword) :
    Causal (clause k body) :=
  (causal_acceptKeyword k).bind fun _ => .ite (hbody.bind fun _ => causal_pure _) (causal_pure _)

theorem causal_name : Causal name := causal_take _ _

theorem causal_names : Causal names := causal_commaList causal_name

theorem causal_comparison : Causal comparison := by
  refine (causal_take _ _).bind fun s => ?_
  cases s with
  | equals => exact causal_pure _
  | bang => exact (causal_take _ _).bind fun _ => causal_pure _
  | less => exact (causal_acceptMark '=').bind fun _ => .ite (causal_pure _) (causal_pure _)
  | greater => exact (causal_acceptMark '=').bind fun _ => .ite (causal_pure _) (causal_pure _)

theorem causal_plainTerm : Causal plainTerm := by
  refine (causal_probe _).bind fun o => ?_
  cases o with
  | some query => exact causal_pure _
  | none =>
    exact causal_name.bind fun _ => causal_comparison.bind fun _ =>
      (causal_take _ _).bind fun _ => causal_pure _

theorem causal_expression : Causal expression := by
  have hterm : Causal term := (causal_acceptKeyword .not).bind fun _ =>
    .ite (causal_plainTerm.bind fun _ => causal_pure _) causal_plainTerm
  exact (causal_chain hterm _).bind fun _ => causal_pure _

theorem causal_selection : Causal selection :=
  (causal_acceptMark '*').bind fun _ => .ite (causal_pure _)
    (causal_names.bind fun _ => causal_pure _)

theorem causal_scriptField : Causal scriptField :=
  causal_name.bind fun _ => causal_position.bind fun _ => causal_comparison.bind fun _ =>
    .ite ((causal_take _ _).bind fun _ => causal_pure _) (causal_fail nofun)

theorem causal_filterCondition : Causal filterCondition :=
  (causal_acceptKeyword .exist).bind fun _ => .ite (causal_name.bind fun _ => causal_pure _) <|
    (causal_acceptKeyword .missing).bind fun _ =>
      .ite (causal_name.bind fun _ => causal_pure _) causal_expression

theorem causal_sortKeys : Causal sortKeys :=
  (causal_take _ _).bind fun _ => causal_commaList <|
    causal_name.bind fun _ => (causal_probe _).bind fun _ => causal_pure _

theorem causal_page : Causal page :=
  (causal_take _ _).bind fun _ => (causal_acceptMark ',').bind fun _ =>
    .ite ((causal_take _ _).bind fun _ => causal_pure _) (causal_pure _)

theorem causal_search (fields facets : Option (List String)) (script : Option ScriptField) :
    Causal (search fields facets script) := by
  refine (causal_take _ _).bind fun _ => causal_name.bind fun _ =>
    (causal_clause causal_expression .where).bind fun _ =>
    (causal_clause causal_filterCondition .filter).bind fun _ =>
    (causal_clause causal_sortKeys .order).bind fun _ =>
    (causal_clause causal_page .limit).bind fun hits => causal_finish.bind fun _ => ?_
  obtain _ | ⟨_ | _, _⟩ := hits <;> exact causal_pure _

theorem causal_statement : Causal statement :=
  (causal_take _ _).bind fun _ => causal_selection.bind fun _ =>
    (causal_clause causal_names .facets).bind fun _ =>
    (causal_clause causal_scriptField .script).bind fun _ => causal_search _ _ _

end Reader

end SearchSql
