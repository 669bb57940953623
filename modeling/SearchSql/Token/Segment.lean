import SearchSql.Text.Quoted
import SearchSql.Token

/-!
# Cutting a text into tokens

A text is a sequence of *segments*, each a gap of blanks and comments and the lexeme of a token
behind it, and a last gap.

* `gapLength` : how many characters the gap at the start of a text has.
* `readLexeme` : the token that starts at a character outside gaps.
* `Segment.next?` : the first segment of a text, and what follows it.
* `segments` : all segments of a text.
* `Token.scan` : the tokens of a text with their places.

A segment is taken from the front of the text without loss (`Segment.append_of_next?`) and its
lexeme is not empty (`Segment.lexeme_ne_nil`), so that a text has at most as many tokens as
characters (`length_segments_le`).
-/

namespace SearchSql

open Text

/-- The number of characters in the gap at the start of a text: blanks, and comments, which run
from a comment sign to before the next line break.  `inComment` tells that the text starts
inside a comment. -/
def gapLength : (inComment : Bool) → List Char → Nat
  | _, [] => 0
  | true, c :: cs => gapLength (!isLineBreak c) cs + 1
  | false, c :: cs =>
    if isBlank c then gapLength false cs + 1
    else if c = commentSign then gapLength true cs + 1
    else 0

/-- A token at the start of a text, the characters it is written with and what follows. -/
structure Lexeme where
  written : List Char
  token : Token
  rest : List Char
deriving DecidableEq, Repr

/-- The token at the start of the text `c :: cs`, where `c` stands outside gaps: a quoted string,
the longest run of word characters, or `c` itself. -/
def readLexeme (c : Char) (cs : List Char) : Lexeme :=
  if isQuoteMark c then
    let body := readBody c cs
    ⟨c :: body.written, .quoted (String.ofList body.value), body.rest⟩
  else if isWordChar c then
    let run := c :: cs.takeWhile isWordChar
    ⟨run, Token.ofWord run, cs.dropWhile isWordChar⟩
  else ⟨[c], .mark c, cs⟩

/-- A gap and the lexeme of the token behind it. -/
structure Segment where
  gap : List Char
  lexeme : List Char
  token : Token
deriving DecidableEq, Repr

/-- The first segment of a text and what follows it, unless the text is a gap throughout. -/
def Segment.next? (cs : List Char) : Option (Segment × List Char) :=
  match cs.drop (gapLength false cs) with
  | [] => none
  | c :: rest =>
    let lexeme := readLexeme c rest
    some (⟨cs.take (gapLength false cs), lexeme.written, lexeme.token⟩, lexeme.rest)

/-! ### A segment is taken from the front of the text -/

@[simp] theorem written_append_rest_readLexeme (c : Char) (cs : List Char) :
    (readLexeme c cs).written ++ (readLexeme c cs).rest = c :: cs := by
  unfold readLexeme
  split
  · simp
  · split <;> simp [List.takeWhile_append_dropWhile]

theorem written_ne_nil (c : Char) (cs : List Char) : (readLexeme c cs).written ≠ [] := by
  unfold readLexeme
  split
  · simp
  · split <;> simp

namespace Segment

theorem append_of_next? {cs rest : List Char} {s : Segment} (h : next? cs = some (s, rest)) :
    s.gap ++ (s.lexeme ++ rest) = cs := by
  unfold next? at h
  split at h
  · cases h
  · rename_i c tail hd
    simp only [Option.some.injEq, Prod.mk.injEq] at h
    obtain ⟨rfl, rfl⟩ := h
    rw [written_append_rest_readLexeme, ← hd, List.take_append_drop]

theorem lexeme_ne_nil {cs rest : List Char} {s : Segment} (h : next? cs = some (s, rest)) :
    s.lexeme ≠ [] := by
  unfold next? at h
  split at h
  · cases h
  · simp only [Option.some.injEq, Prod.mk.injEq] at h
    obtain ⟨rfl, -⟩ := h
    exact written_ne_nil _ _

theorem length_of_next? {cs rest : List Char} {s : Segment} (h : next? cs = some (s, rest)) :
    s.gap.length + s.lexeme.length + rest.length = cs.length := by
  have := congrArg List.length (append_of_next? h)
  simp only [List.length_append] at this
  omega

theorem length_rest_lt {cs rest : List Char} {s : Segment} (h : next? cs = some (s, rest)) :
    rest.length < cs.length := by
  have := length_of_next? h
  have := List.length_pos_iff.2 (lexeme_ne_nil h)
  omega

end Segment

/-! ### All segments -/

/-- The segments of a text. -/
def segments (cs : List Char) : List Segment :=
  match _h : Segment.next? cs with
  | none => []
  | some (s, rest) => s :: segments rest
termination_by cs.length
decreasing_by exact Segment.length_rest_lt _h

theorem segments_of_next?_none {cs : List Char} (h : Segment.next? cs = none) :
    segments cs = [] := by
  rw [segments]
  split <;> simp_all

theorem segments_of_next?_some {cs rest : List Char} {s : Segment}
    (h : Segment.next? cs = some (s, rest)) : segments cs = s :: segments rest := by
  rw [segments]
  split <;> simp_all

theorem length_segments_le (cs : List Char) : (segments cs).length ≤ cs.length := by
  fun_induction segments cs with
  | case1 => simp
  | case2 cs s rest h ih =>
    have := Segment.length_rest_lt h
    simp only [List.length_cons]
    omega

/-! ### Nothing is lost -/

theorem gapLength_le (inComment : Bool) (cs : List Char) : gapLength inComment cs ≤ cs.length := by
  induction cs generalizing inComment with
  | nil => cases inComment <;> simp [gapLength]
  | cons c cs ih =>
    cases inComment with
    | true =>
      have := ih (!isLineBreak c)
      simp only [gapLength, List.length_cons]
      omega
    | false =>
      have h₁ := ih false
      have h₂ := ih true
      simp only [gapLength, List.length_cons]
      split <;> try split
      all_goals omega

/-- A text without a token is a gap throughout. -/
theorem Segment.next?_eq_none_iff {cs : List Char} :
    Segment.next? cs = none ↔ gapLength false cs = cs.length := by
  have hle := gapLength_le false cs
  have hdrop : cs.drop (gapLength false cs) = [] ↔ gapLength false cs = cs.length := by
    rw [List.drop_eq_nil_iff]
    omega
  rw [← hdrop]
  unfold Segment.next?
  split <;> simp_all

namespace Token

/-- The tokens of consecutive segments, the first of which starts at `offset`. -/
def locate (offset : Nat) : List Segment → List Located
  | [] => []
  | s :: ss =>
    ⟨s.token, offset + s.gap.length⟩ :: locate (offset + s.gap.length + s.lexeme.length) ss

/-- The tokens of a text, each with the offset of its first character. -/
def scan (text : String) : List Located := locate 0 (segments text.toList)

@[simp] theorem locate_nil (offset : Nat) : locate offset [] = [] := rfl

@[simp] theorem length_locate (offset : Nat) (ss : List Segment) :
    (locate offset ss).length = ss.length := by
  induction ss generalizing offset with
  | nil => rfl
  | cons s ss ih => simp [locate, ih]

/-- Starting later moves every place by the same distance. -/
theorem locate_add (offset n : Nat) (ss : List Segment) :
    locate (offset + n) ss = (locate offset ss).map fun l => { l with start := l.start + n } := by
  induction ss generalizing offset with
  | nil => rfl
  | cons s ss ih =>
    have h : offset + n + s.gap.length + s.lexeme.length =
        offset + s.gap.length + s.lexeme.length + n := by omega
    simp only [locate, h, ih, List.map_cons, List.cons.injEq, and_true]
    congr 1
    omega

end Token

end SearchSql
