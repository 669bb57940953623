import SearchSql.Reader
import SearchSql.Token.Cursor

/-!
# Reading where a cursor stands

A `Walk` reads what a `Reader` reads, but it moves a cursor along the text: it has one token after
the other handed out, and puts a token back that it only looked at.  Whether it succeeds or fails,
what it leaves behind is the state of the cursor, from which the next walk goes on.

## Main definitions

* `TokenStream.ofCursor` : the tokens that a cursor has still to hand out, and `Cursor.undelivered`,
  how many they are.
* `Cursor.accept` : have the next token handed out, and put it back if it does not fit.
* `Walk` : a function from cursors to values or errors, with the cursor where it stops.
* `Walk.take`, `Walk.probe`, `Walk.position`, `Walk.finish` : the ways to look at the next token.
* `Walk.gather` : a loop that goes on as long as the next token is a link.

No walk puts back more than it was handed out (`Walk.undelivered_le`), so that such a loop ends.
That a walk and its reader have the same answer is shown in `Proofs.Simulation`.
-/

namespace SearchSql

open Token (Located)

/-- The token of a stream that a cursor hands out; the end of the text is none. -/
def Sighting.located? (s : Sighting) : Option Located := s.token?.map fun t => ⟨t, s.start⟩

/-- What an error shows that points at what a cursor hands out. -/
def Sighting.found (s : Sighting) : Found :=
  match s.token? with
  | some t => .token t
  | none => .endOfText

/-- The tokens that a cursor has still to hand out. -/
def TokenStream.ofCursor (c : Cursor) : TokenStream where
  tokens := (c.pending.bind Sighting.located?).toList ++ Token.locate c.offset (segments c.rest)
  stop := c.offset + c.rest.length

namespace Cursor

/-- How many tokens the cursor has still to hand out. -/
def undelivered (c : Cursor) : Nat := (TokenStream.ofCursor c).tokens.length

/-- Have the next token handed out if it is one of those that `part?` gives a value to.  Any other
token is put back. -/
def accept {α : Type} (c : Cursor) (part? : Token → Option α) : Option α × Cursor :=
  let step := c.next
  match step.1.token?.bind part? with
  | some a => (some a, step.2)
  | none => (none, step.2.unread)

/-! ### How many tokens are left -/

/-- The token that is handed out is the first of those that were left. -/
theorem tokens_ofCursor_next (c : Cursor) :
    (TokenStream.ofCursor c).tokens =
      c.next.1.located?.toList ++ (TokenStream.ofCursor c.next.2).tokens := by
  obtain ⟨rest, offset, last, _ | s⟩ := c
  · rw [next, advance]
    dsimp only
    split
    · rename_i h
      simp [TokenStream.ofCursor, Sighting.located?, segments_of_next?_none h,
        segments_of_next?_none (show Segment.next? [] = none from rfl)]
    · rename_i h
      simp [TokenStream.ofCursor, Sighting.located?, segments_of_next?_some h, Token.locate]
  · rfl

theorem undelivered_next (c : Cursor) :
    c.undelivered = c.next.1.located?.toList.length + c.next.2.undelivered := by
  rw [undelivered, tokens_ofCursor_next, List.length_append]
  rfl

/-- A token that is put back is left as before. -/
theorem undelivered_unread_next (c : Cursor) : c.next.2.unread.undelivered = c.undelivered := by
  rw [undelivered_next c.next.2.unread, next_unread_next, ← undelivered_next]

theorem undelivered_next_le (c : Cursor) : c.next.2.undelivered ≤ c.undelivered := by
  rw [undelivered_next c]
  omega

variable {α : Type}

theorem undelivered_accept_le (c : Cursor) (part? : Token → Option α) :
    (c.accept part?).2.undelivered ≤ c.undelivered := by
  unfold accept
  dsimp only
  split
  · exact c.undelivered_next_le
  · exact Nat.le_of_eq c.undelivered_unread_next

/-- A token that fits is not the end of the text. -/
theorem undelivered_accept_lt {c : Cursor} {part? : Token → Option α} {a : α}
    (h : (c.accept part?).1 = some a) : (c.accept part?).2.undelivered < c.undelivered := by
  unfold accept at h ⊢
  dsimp only at h ⊢
  split at h
  · rename_i hpart
    obtain ⟨t, ht, -⟩ := Option.bind_eq_some_iff.1 hpart
    have hlocated : c.next.1.located?.toList.length = 1 := by simp [Sighting.located?, ht]
    rw [undelivered_next c, hlocated]
    exact Nat.lt_one_add_iff.2 (Nat.le_refl _)
  · cases h

end Cursor

/-- A way to read a value from where a cursor stands. -/
structure Walk (α : Type) where
  /-- The value or the error, and the cursor afterwards. -/
  run : Cursor → Except SyntaxError α × Cursor
  /-- What was handed out before is not put back. -/
  undelivered_le : ∀ c, (run c).2.undelivered ≤ c.undelivered

namespace Walk

variable {α β σ : Type}

/-- Walks that agree wherever a cursor stands are equal. -/
@[ext] theorem ext {w w' : Walk α} (h : ∀ c, w.run c = w'.run c) : w = w' := by
  cases w
  cases w'
  congr
  funext c
  exact h c

/-! ### One walk after the other -/

/-- Leave the cursor where it is and succeed. -/
def succeed (a : α) : Walk α := ⟨fun c => (.ok a, c), fun _ => Nat.le_refl _⟩

/-- Go on with the walk that the value selects.  An error ends the walk where it was found. -/
def andThen (w : Walk α) (f : α → Walk β) : Walk β where
  run c :=
    match w.run c with
    | (.ok a, c') => (f a).run c'
    | (.error e, c') => (.error e, c')
  undelivered_le c := by
    have h := w.undelivered_le c
    split <;> rename_i hw <;> rw [hw] at h
    · exact Nat.le_trans ((f _).undelivered_le _) h
    · exact h

instance : Monad Walk where
  pure := succeed
  bind := andThen

theorem run_bind (w : Walk α) (f : α → Walk β) (c : Cursor) :
    (w >>= f).run c =
      match w.run c with
      | (.ok a, c') => (f a).run c'
      | (.error e, c') => (.error e, c') := rfl

/-- Fail where the cursor stands. -/
def fail (e : SyntaxError) : Walk α := ⟨fun c => (.error e, c), fun _ => Nat.le_refl _⟩

/-! ### Looking at the next token -/

/-- Have the next token handed out, which must be one of those that `part?` gives a value to. -/
def take (expected : Expectation) (part? : Token → Option α) : Walk α where
  run c :=
    let step := c.next
    match step.1.token?.bind part? with
    | some a => (.ok a, step.2)
    | none => (.error ⟨expected, step.1.found, step.2.position⟩, step.2)
  undelivered_le c := by
    dsimp only
    split <;> exact c.undelivered_next_le

/-- Have the next token handed out, and report it. -/
def refuse (expected : Expectation) : Walk α := take expected fun _ => none

/-- Have the next token handed out if it is one of those that `part?` gives a value to, else put it
back. -/
def probe (part? : Token → Option α) : Walk (Option α) :=
  ⟨fun c => (.ok (c.accept part?).1, (c.accept part?).2), fun c => c.undelivered_accept_le part?⟩

/-- Where the next token starts, or the text ends.  To find out, the token is handed out and put
back. -/
def position : Walk Nat where
  run c :=
    let step := c.next
    (.ok step.2.position, step.2.unread)
  undelivered_le c := Nat.le_of_eq c.undelivered_unread_next

/-- Have the next token handed out, which must be the end of the text. -/
def finish : Walk Unit where
  run c :=
    let step := c.next
    match step.1.token? with
    | none => (.ok (), step.2)
    | some t => (.error ⟨.endOfInput, .token t, step.2.position⟩, step.2)
  undelivered_le c := by
    dsimp only
    split <;> exact c.undelivered_next_le

theorem run_take (expected : Expectation) (part? : Token → Option α) (c : Cursor) :
    (take expected part?).run c =
      ((c.next.1.token?.bind part?).elim (.error ⟨expected, c.next.1.found, c.next.1.start⟩) .ok,
        c.next.2) := by
  rw [← c.position_unread_next.1, take]
  dsimp only
  split <;> rename_i h <;> rw [h] <;> rfl

/-! ### Keywords, characters and clauses -/

/-- Take the given keyword. -/
def keyword (k : Keyword) : Walk Unit :=
  take (.keyword k) fun t => if t.keyword? = some k then some () else none

/-- Take the given keyword if it is next, and tell whether it was. -/
def acceptKeyword (k : Keyword) : Walk Bool := do
  return (← probe fun t => if t.keyword? = some k then some () else none).isSome

/-- Take the given character if it is next, and tell whether it was. -/
def acceptMark (c : Char) : Walk Bool := do
  return (← probe fun t => if t.isMark c then some () else none).isSome

/-- A clause that starts with the given keyword and may be left out. -/
def clause (k : Keyword) (body : Walk α) : Walk (Option α) := do
  if ← acceptKeyword k then
    let a ← body
    return some a
  else
    return none

/-! ### Loops -/

/-- A link that is taken, and what is taken behind it, is not left any more. -/
theorem undelivered_lt_of_link {item : Walk α} {link? : Token → Option β} {c c₁ c₂ : Cursor} {b : β}
    {answer : Except SyntaxError α} (hlink : c.accept link? = (some b, c₁))
    (hitem : item.run c₁ = (answer, c₂)) : c₂.undelivered < c.undelivered := by
  have hlt : (c.accept link?).2.undelivered < c.undelivered :=
    Cursor.undelivered_accept_lt (by rw [hlink])
  have hle := item.undelivered_le c₁
  rw [hlink] at hlt
  rw [hitem] at hle
  exact Nat.lt_of_le_of_lt hle hlt

/-- As long as the next token is a link, take it and an item behind it, and add both to what was
gathered before. -/
def gatherFrom (item : Walk α) (link? : Token → Option β) (add : σ → β × α → σ) (s : σ)
    (c : Cursor) : Except SyntaxError σ × Cursor :=
  match _hlink : c.accept link? with
  | (none, c₁) => (.ok s, c₁)
  | (some b, c₁) =>
    match _hitem : item.run c₁ with
    | (.error e, c₂) => (.error e, c₂)
    | (.ok a, c₂) => gatherFrom item link? add (add s (b, a)) c₂
termination_by c.undelivered
decreasing_by exact undelivered_lt_of_link _hlink _hitem

theorem undelivered_gatherFrom_le (item : Walk α) (link? : Token → Option β)
    (add : σ → β × α → σ) (s : σ) (c : Cursor) :
    (gatherFrom item link? add s c).2.undelivered ≤ c.undelivered := by
  fun_induction gatherFrom item link? add s c with
  | case1 s c c₁ hlink =>
    have hle := c.undelivered_accept_le link?
    rwa [hlink] at hle
  | case2 s c b c₁ hlink e c₂ hitem => exact Nat.le_of_lt (undelivered_lt_of_link hlink hitem)
  | case3 s c b c₁ hlink a c₂ hitem ih =>
    exact Nat.le_trans ih (Nat.le_of_lt (undelivered_lt_of_link hlink hitem))

/-- Go on from what was gathered before. -/
def gatherMore (item : Walk α) (link? : Token → Option β) (add : σ → β × α → σ) (s : σ) : Walk σ :=
  ⟨gatherFrom item link? add s, undelivered_gatherFrom_le item link? add s⟩

/-- One more round of the loop. -/
theorem gatherMore_eq (item : Walk α) (link? : Token → Option β) (add : σ → β × α → σ) (s : σ) :
    gatherMore item link? add s =
      (probe link? >>= fun
        | none => pure s
        | some b => item >>= fun a => gatherMore item link? add (add s (b, a))) := by
  refine ext fun c => ?_
  rw [run_bind]
  simp only [gatherMore, probe]
  rw [gatherFrom]
  rcases c.accept link? with ⟨_ | b, c₁⟩
  · rfl
  · simp only [run_bind]
    rcases item.run c₁ with ⟨e | a, c₂⟩ <;> rfl

/-- An item, and as long as the next token is a link, one more item behind it. -/
def gather (item : Walk α) (link? : Token → Option β) (start : α → σ) (add : σ → β × α → σ) :
    Walk σ := do
  let first ← item
  gatherMore item link? add (start first)

/-- One or more items with a comma between each two. -/
def commaList (item : Walk α) : Walk (List α) :=
  gather item (fun t => if t.isMark ',' then some () else none) (fun a => [a])
    fun as la => as ++ [la.2]

end Walk

end SearchSql
