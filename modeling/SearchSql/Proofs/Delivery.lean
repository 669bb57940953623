import SearchSql.Token.Cursor

/-!
# How a cursor delivers the tokens of a text

A `Cursor` keeps the text that is not yet cut, the token that can be put back and the token that
was put back.  Seen from outside it is a `Pointer` into the endless sequence of the text's tokens:
an index, whether the index may go back by one, and the place of the last token.

## Main definitions

* `Sighting.nth text i` : the `i`-th token of a text; behind the last one, its end.
* `Call`, `Answer` : what can be asked of a cursor, and what it answers.
* `Pointer` : the plain cursor, which moves an index.
* `Cursor.run` : the answers to a sequence of calls, for either kind of cursor.
* `Answer.kept` : of the tokens that were handed out, those that were not put back.

## Main statements

* `Cursor.Tracks` : how the state of a cursor goes with the index of a pointer, and
  `Cursor.Tracks.call` : every call keeps this.
* `Cursor.run_call_eq_run_pointer` : **a cursor answers every sequence of calls as a pointer
  does**, and what it hands out is the sequence of tokens, none left out and none twice.
-/

namespace SearchSql

open Token (Located)

/-- The `i`-th token of a text with its place.  Behind the last token stands the end of the text,
as often as one likes. -/
def Sighting.nth (text : String) (i : Nat) : Sighting :=
  match (Token.scan text)[i]? with
  | some l => ⟨some l.token, l.start⟩
  | none => ⟨none, text.length⟩

namespace Cursor

/-- What can be asked of a cursor. -/
inductive Call where
  | next
  | unread
  | position
deriving DecidableEq, Repr

/-- What a cursor answers. -/
inductive Answer where
  /-- A token is handed out. -/
  | token (s : Sighting)
  /-- Putting a token back is done without a word. -/
  | silence
  /-- A place in the text. -/
  | place (start : Nat)
deriving DecidableEq, Repr

/-- The answer of a cursor to a call, and the cursor afterwards. -/
def call (k : Call) (c : Cursor) : Answer × Cursor :=
  match k with
  | .next => (.token c.next.1, c.next.2)
  | .unread => (.silence, c.unread)
  | .position => (.place c.position, c)

/-- A place in an endless sequence of tokens. -/
structure Pointer where
  /-- The index of the next token. -/
  index : Nat
  /-- The last token can be put back. -/
  canUnread : Bool
  /-- Where the token starts that was handed out last. -/
  start : Nat
deriving DecidableEq, Repr

namespace Pointer

/-- The pointer to the first token; nothing has been handed out yet. -/
def first : Pointer := ⟨0, false, 0⟩

/-- The answer of a pointer into the tokens `T` to a call, and the pointer afterwards. -/
def call (T : Nat → Sighting) (k : Call) (p : Pointer) : Answer × Pointer :=
  match k with
  | .next => (.token (T p.index), ⟨p.index + 1, true, (T p.index).start⟩)
  | .unread => (.silence, if p.canUnread then ⟨p.index - 1, false, p.start⟩ else p)
  | .position => (.place p.start, p)

end Pointer

/-- The answers to a sequence of calls, one after the other, and the state afterwards. -/
def run {σ : Type} (f : Call → σ → Answer × σ) : List Call → σ → List Answer × σ
  | [], s => ([], s)
  | k :: ks, s => ((f k s).1 :: (run f ks (f k s).2).1, (run f ks (f k s).2).2)

/-- What is kept after one more answer, and whether the last token can still be put back.  A
token that is put back is the last one. -/
def Answer.keep (held : List Sighting × Bool) : Answer → List Sighting × Bool
  | .token s => (held.1 ++ [s], true)
  | .silence => (if held.2 then held.1.dropLast else held.1, false)
  | .place _ => held

/-- Of the tokens that were handed out, those that were not put back. -/
def Answer.kept (answers : List Answer) : List Sighting := (answers.foldl keep ([], false)).1

/-! ### Runs -/

section run

variable {σ τ : Type} {f : Call → σ → Answer × σ} {g : Call → τ → Answer × τ}

/-- States that a relation ties together answer alike, if every call does so and keeps the
relation. -/
theorem run_of_step {R : σ → τ → Prop}
    (step : ∀ k s t, R s t → (f k s).1 = (g k t).1 ∧ R (f k s).2 (g k t).2) (ks : List Call)
    {s : σ} {t : τ} (h : R s t) :
    (run f ks s).1 = (run g ks t).1 ∧ R (run f ks s).2 (run g ks t).2 := by
  induction ks generalizing s t with
  | nil => exact ⟨rfl, h⟩
  | cons k ks ih =>
    obtain ⟨hanswer, hnext⟩ := step k s t h
    obtain ⟨hanswers, hlast⟩ := ih hnext
    exact ⟨by rw [run, run, hanswer, hanswers], hlast⟩

/-- What each call keeps, given its answer, holds after every run. -/
theorem foldl_of_step {α : Type} {R : α → σ → Prop} {fold : α → Answer → α}
    (step : ∀ k a s, R a s → R (fold a (f k s).1) (f k s).2) (ks : List Call) {a : α} {s : σ}
    (h : R a s) : R ((run f ks s).1.foldl fold a) (run f ks s).2 := by
  induction ks generalizing a s with
  | nil => exact h
  | cons k ks ih => exact ih (step k a s h)

end run

/-! ### The state of a cursor -/

/-- The characters `cs`, which stand at `offset`, hold the tokens of the text from the `i`-th
on. -/
structure From (text : String) (i : Nat) (cs : List Char) (offset : Nat) : Prop where
  tokens : Token.locate offset (segments cs) = (Token.scan text).drop i
  stop : offset + cs.length = text.length

/-- The cursor stands where the pointer points.  While a token waits to be handed out again, the
text is already cut behind it. -/
inductive Tracks (text : String) : Cursor → Pointer → Prop
  | fresh : Tracks text (ofText text) .first
  | handed {i : Nat} {cs : List Char} {offset : Nat} : From text (i + 1) cs offset →
      Tracks text ⟨cs, offset, some (.nth text i), none⟩ ⟨i + 1, true, (Sighting.nth text i).start⟩
  | putBack {i : Nat} {cs : List Char} {offset : Nat} : From text (i + 1) cs offset →
      Tracks text ⟨cs, offset, none, some (.nth text i)⟩ ⟨i, false, (Sighting.nth text i).start⟩

theorem from_zero (text : String) : From text 0 text.toList 0 :=
  ⟨rfl, by rw [Nat.zero_add, String.length_toList]⟩

/-- Cutting off a token goes on by one in the sequence of tokens. -/
theorem advance_of_from {text : String} {i : Nat} {c : Cursor}
    (h : From text i c.rest c.offset) :
    c.advance.1 = .nth text i ∧ From text (i + 1) c.advance.2.rest c.advance.2.offset := by
  have hdrop : (Token.scan text).drop (i + 1) = ((Token.scan text).drop i).tail := by
    rw [List.tail_drop]
  have hget : (Token.scan text)[i]? = ((Token.scan text).drop i).head? := by
    rw [List.head?_drop]
  unfold advance
  split
  · rename_i hnext
    -- no token is left, now and from here on
    have htokens : (Token.scan text).drop i = [] := by
      rw [← h.tokens, segments_of_next?_none hnext, Token.locate_nil]
    rw [htokens] at hdrop hget
    refine ⟨by rw [Sighting.nth, hget, ← h.stop]; rfl, ?_, ?_⟩
    · rw [hdrop, segments_of_next?_none (by rfl)]
      rfl
    · simpa using h.stop
  · rename_i s rest hnext
    have htokens := h.tokens
    rw [segments_of_next?_some hnext, Token.locate] at htokens
    rw [← htokens] at hdrop hget
    refine ⟨by rw [Sighting.nth, hget]; rfl, ?_, ?_⟩
    · rw [hdrop]
      rfl
    · have hlength := Segment.length_of_next? hnext
      have hstop := h.stop
      dsimp only
      omega

/-- A token that is newly cut off is the next one, and it can be put back. -/
theorem tracks_next {text : String} {i : Nat} {c : Cursor} (h : From text i c.rest c.offset)
    (hp : c.pending = none) :
    c.next.1 = .nth text i ∧
      Tracks text c.next.2 ⟨i + 1, true, (Sighting.nth text i).start⟩ := by
  obtain ⟨hanswer, hfrom⟩ := advance_of_from h
  have hpending : c.advance.2.pending = none := c.pending_advance.trans hp
  have hnext : c.next =
      (.nth text i, ⟨c.advance.2.rest, c.advance.2.offset, some (.nth text i), none⟩) := by
    rw [next, hp]
    simp only [hanswer, hpending]
  rw [hnext]
  exact ⟨rfl, .handed hfrom⟩

/-- **Each call keeps the cursor at the pointer**, and both give the same answer. -/
theorem Tracks.call {text : String} (k : Call) {c : Cursor} {p : Pointer} (h : Tracks text c p) :
    (c.call k).1 = (p.call (.nth text) k).1 ∧
      Tracks text (c.call k).2 (p.call (.nth text) k).2 := by
  cases k with
  | next =>
    cases h with
    | fresh =>
      obtain ⟨hanswer, htracks⟩ := tracks_next (c := ofText text) (from_zero text) rfl
      exact ⟨congrArg Answer.token hanswer, htracks⟩
    | handed h =>
      obtain ⟨hanswer, htracks⟩ := tracks_next (c := ⟨_, _, some _, none⟩) h rfl
      exact ⟨congrArg Answer.token hanswer, htracks⟩
    | putBack h => exact ⟨rfl, .handed h⟩
  | unread =>
    cases h with
    | fresh => exact ⟨rfl, .fresh⟩
    | handed h => exact ⟨rfl, .putBack h⟩
    | putBack h => exact ⟨rfl, .putBack h⟩
  | position =>
    refine ⟨?_, h⟩
    cases h <;> rfl

theorem Tracks.last_or_pending {text : String} {c : Cursor} {p : Pointer} (h : Tracks text c p) :
    c.last = none ∨ c.pending = none := by
  cases h with
  | fresh => exact .inl rfl
  | handed _ => exact .inr rfl
  | putBack _ => exact .inl rfl

theorem index_run_replicate (T : Nat → Sighting) (k : Nat) (p : Pointer) :
    (run (Pointer.call T) (List.replicate k .next) p).2.index = p.index + k := by
  induction k generalizing p with
  | zero => rfl
  | succ k ih =>
    simp only [List.replicate_succ, run, ih, Pointer.call]
    omega

/-- Without putting back, the calls for a token give one token of the text after the other. -/
theorem next_run_replicate (text : String) (k : Nat) :
    (run call (List.replicate k .next) (ofText text)).2.next.1 = .nth text k ∧
      (run call (List.replicate k .next) (ofText text)).2.next.2.position =
        (Sighting.nth text k).start := by
  have hfresh : Tracks text (ofText text) .first := .fresh
  have htracks := (run_of_step (fun k _ _ h => h.call k) (List.replicate k .next) hfresh).2
  obtain ⟨hnext, htracks'⟩ := htracks.call .next
  have hplace := (htracks'.call .position).1
  have hindex := index_run_replicate (.nth text) k .first
  simp only [call, Pointer.call, Answer.token.injEq, Answer.place.injEq, hindex] at hnext hplace
  rw [Pointer.first, Nat.zero_add] at hnext hplace
  exact ⟨hnext, hplace⟩

/-! ### What is handed out -/

/-- A pointer hands out the tokens up to its index, less those that were put back. -/
def Pointer.Holds (T : Nat → Sighting) (held : List Sighting × Bool) (p : Pointer) : Prop :=
  held.1 = (List.range p.index).map T ∧ held.2 = p.canUnread

theorem Pointer.Holds.call {T : Nat → Sighting} (k : Call) {held : List Sighting × Bool}
    {p : Pointer} (h : Holds T held p) :
    Holds T (Answer.keep held (p.call T k).1) (p.call T k).2 := by
  obtain ⟨hheld, hflag⟩ := h
  cases k with
  | next =>
    refine ⟨?_, rfl⟩
    simp only [Answer.keep, Pointer.call, hheld, List.range_succ, List.map_append, List.map_cons,
      List.map_nil]
  | unread =>
    simp only [Answer.keep, Pointer.call, hflag]
    cases hu : p.canUnread with
    | false => exact ⟨hheld, hu.symm⟩
    | true =>
      refine ⟨?_, rfl⟩
      simp only [if_true, hheld, ← List.map_dropLast]
      rw [List.dropLast_eq_take, List.length_range, List.take_range, Nat.min_eq_left (by omega)]
  | position => exact ⟨hheld, hflag⟩

/-- Without a call for a token nothing changes. -/
theorem run_call_of_next_notMem {calls : List Call} (h : .next ∉ calls) (text : String) :
    (run call calls (ofText text)).2 = ofText text := by
  induction calls with
  | nil => rfl
  | cons k ks ih =>
    rw [List.mem_cons, not_or] at h
    have hk : ((ofText text).call k).2 = ofText text := by
      cases k with
      | next => exact absurd rfl h.1
      | unread => exact unread_ofText text
      | position => rfl
    rw [run, hk]
    exact ih h.2

/-- **A cursor answers every sequence of calls as a pointer into the tokens of the text does.**
A token that was put back and a token that can be put back are never there at once; the tokens
that were handed out and not put back are the tokens of the text up to the pointer, each once and
in order; and to put a token back twice, or before one was handed out, does nothing. -/
theorem run_call_eq_run_pointer (text : String) (calls : List Call) :
    let cursor := run call calls (ofText text)
    let pointer := run (Pointer.call (.nth text)) calls .first
    cursor.1 = pointer.1 ∧
      (cursor.2.last = none ∨ cursor.2.pending = none) ∧
      Answer.kept cursor.1 = (List.range pointer.2.index).map (.nth text) ∧
      cursor.2.unread.unread = cursor.2.unread ∧
      (.next ∈ calls ∨ cursor.2.unread = cursor.2) := by
  intro cursor pointer
  obtain ⟨hanswers, htracks⟩ : cursor.1 = pointer.1 ∧ Tracks text cursor.2 pointer.2 :=
    run_of_step (fun k _ _ h => h.call k) calls .fresh
  have hholds : Pointer.Holds (.nth text) (pointer.1.foldl Answer.keep ([], false)) pointer.2 :=
    foldl_of_step (fun k _ _ h => h.call k) calls ⟨rfl, rfl⟩
  refine ⟨hanswers, htracks.last_or_pending, ?_, unread_unread _, ?_⟩
  · rw [hanswers]
    exact hholds.1
  · by_cases h : .next ∈ calls
    · exact .inl h
    · have hstill : cursor.2 = ofText text := run_call_of_next_notMem h text
      exact .inr (by rw [hstill, unread_ofText])

end Cursor

end SearchSql
