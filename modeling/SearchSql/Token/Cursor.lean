import SearchSql.Token.Segment

/-!
# Reading a text token by token

A `Cursor` hands out the tokens of a text one after the other, and behind the last one the end
of the text as often as it is asked.  The token that was handed out last can be put back, once,
to be handed out again.

* `Cursor.ofText` : the cursor at the start of a text.
* `Cursor.next` : hand out the next token.
* `Cursor.unread` : put the last token back; a second time, and before the first token, this
  does nothing.
* `Cursor.position` : where the last token starts, also after it was put back.
-/

namespace SearchSql

/-- A token, or `none` for the end of the text, with the offset at which it stands. -/
structure Sighting where
  token? : Option Token
  start : Nat
deriving DecidableEq, Repr

/-- A place in a text, with one token that can be put back. -/
structure Cursor where
  /-- The characters not yet cut into tokens. -/
  rest : List Char
  /-- The offset of `rest` in the text. -/
  offset : Nat
  /-- The token handed out last, if it can be put back. -/
  last : Option Sighting
  /-- A token that was put back and waits to be handed out again. -/
  pending : Option Sighting
deriving DecidableEq, Repr

namespace Cursor

/-- The cursor at the start of a text. -/
def ofText (text : String) : Cursor := ⟨text.toList, 0, none, none⟩

/-- Cut the next token off the rest of the text. -/
def advance (c : Cursor) : Sighting × Cursor :=
  match Segment.next? c.rest with
  | none => (⟨none, c.offset + c.rest.length⟩,
      { c with rest := [], offset := c.offset + c.rest.length })
  | some (s, rest) => (⟨some s.token, c.offset + s.gap.length⟩,
      { c with rest := rest, offset := c.offset + s.gap.length + s.lexeme.length })

/-- Hand out the next token: the one that was put back, else a new one. -/
def next (c : Cursor) : Sighting × Cursor :=
  match c.pending with
  | some s => (s, { c with last := some s, pending := none })
  | none =>
    let step := c.advance
    (step.1, { step.2 with last := some step.1 })

/-- Put the last token back. -/
def unread (c : Cursor) : Cursor :=
  match c.last with
  | some s => { c with last := none, pending := some s }
  | none => c

/-- The start of the token that was handed out last; before the first, the start of the
text. -/
def position (c : Cursor) : Nat :=
  match c.pending, c.last with
  | some s, _ => s.start
  | none, some s => s.start
  | none, none => c.offset

/-! ### Putting a token back -/

@[simp] theorem unread_ofText (text : String) : (ofText text).unread = ofText text := rfl

@[simp] theorem unread_unread (c : Cursor) : c.unread.unread = c.unread := by
  obtain ⟨rest, offset, last, pending⟩ := c
  cases last <;> rfl

/-- Cutting off a token puts nothing back. -/
theorem pending_advance (c : Cursor) : c.advance.2.pending = c.pending := by
  unfold advance
  split <;> rfl

/-- The token that was handed out can be put back. -/
theorem last_next (c : Cursor) : c.next.2.last = some c.next.1 ∧ c.next.2.pending = none := by
  unfold next
  split
  · exact ⟨rfl, rfl⟩
  · rename_i h
    exact ⟨rfl, c.pending_advance.trans h⟩

/-- A token that is put back is handed out again. -/
theorem next_unread_next (c : Cursor) : c.next.2.unread.next = c.next := by
  obtain ⟨hl, hp⟩ := c.last_next
  have hu : c.next.2.unread = { c.next.2 with last := none, pending := some c.next.1 } := by
    rw [unread, hl]
  rw [hu, next]
  refine Prod.ext rfl ?_
  simp only [← hl, ← hp]

/-- Putting a token back does not change the position. -/
theorem position_unread_next (c : Cursor) :
    c.next.2.position = c.next.1.start ∧ c.next.2.unread.position = c.next.1.start := by
  obtain ⟨hl, hp⟩ := c.last_next
  constructor
  · rw [position, hp, hl]
  · rw [unread, hl]
    rfl

end Cursor

end SearchSql
