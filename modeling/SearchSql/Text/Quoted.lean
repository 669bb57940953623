import SearchSql.Text.Class

/-!
# Quoted strings

A quoted string opens with a quote mark and runs to the next mark of the same kind, or, left
open, to the end of its line.  Inside it a backslash takes the next character out of its role:
`\n`, `\t` and `\r` stand for line feed, tab and carriage return, and any other character after
a backslash stands for itself.

* `Body` : the body of a quoted string as it stands in a text: its value, the characters it is
  written with, and what follows it.
* `readBody` : read the body after an opening mark.
* `quote` : write a text as a quoted string.

Reading loses no character of the text (`written_append_rest`), and a text that was written by
`quote` is read back (`readBody_flatMap_escape`).
-/

namespace SearchSql

namespace Text

/-- The body of a quoted string, read from behind its opening mark. -/
structure Body where
  /-- The text that the body stands for. -/
  value : List Char
  /-- The characters of the body as written, with the closing mark if there is one. -/
  written : List Char
  /-- What follows the body. -/
  rest : List Char
deriving DecidableEq, Repr

namespace Body

/-- Put one character of the value, written as `spelling`, in front of a body. -/
def push (c : Char) (spelling : List Char) (b : Body) : Body :=
  { b with value := c :: b.value, written := spelling ++ b.written }

end Body

/-- The character that a backslash followed by `c` stands for. -/
def unescape (c : Char) : Char :=
  match c with
  | 'n' => '\n'
  | 't' => '\t'
  | 'r' => '\r'
  | c => c

/-- Read the body of a string that was opened by `mark`.  The body ends with the next `mark`,
which belongs to it, before the next line break, or with the text.  A backslash and the
character after it, whatever it is, make up one character of the value; a backslash that ends
the text has no value. -/
def readBody (mark : Char) : List Char → Body
  | [] => ⟨[], [], []⟩
  | c :: cs =>
    if c = mark then ⟨[], [c], cs⟩
    else if isLineBreak c then ⟨[], [], c :: cs⟩
    else if c = '\\' then
      match cs with
      | [] => ⟨[], [c], []⟩
      | e :: es => (readBody mark es).push (unescape e) [c, e]
    else (readBody mark cs).push c [c]

/-- How a character is written between double quotes. -/
def escape (c : Char) : List Char :=
  match c with
  | '"' => ['\\', '"']
  | '\\' => ['\\', '\\']
  | '\n' => ['\\', 'n']
  | '\r' => ['\\', 'r']
  | c => [c]

/-- A text as a quoted string, between double quotes. -/
def quote (s : String) : String :=
  String.ofList ('"' :: s.toList.flatMap escape ++ ['"'])

/-! ### Reading step by step -/

@[simp] theorem readBody_nil (mark : Char) : readBody mark [] = ⟨[], [], []⟩ := by
  rw [readBody]

@[simp] theorem readBody_mark (mark : Char) (cs : List Char) :
    readBody mark (mark :: cs) = ⟨[], [mark], cs⟩ := by
  rw [readBody.eq_def]
  simp

theorem readBody_lineBreak {mark c : Char} (hm : c ≠ mark) (hc : isLineBreak c = true)
    (cs : List Char) : readBody mark (c :: cs) = ⟨[], [], c :: cs⟩ := by
  rw [readBody.eq_def]
  simp [hm, hc]

theorem readBody_escaped {mark : Char} (hm : '\\' ≠ mark) (e : Char) (cs : List Char) :
    readBody mark ('\\' :: e :: cs) = (readBody mark cs).push (unescape e) ['\\', e] := by
  rw [readBody.eq_def]
  simp [hm, isLineBreak]

theorem readBody_plain {mark c : Char} (hm : c ≠ mark) (hb : isLineBreak c = false)
    (he : c ≠ '\\') (cs : List Char) :
    readBody mark (c :: cs) = (readBody mark cs).push c [c] := by
  rw [readBody.eq_def]
  simp [hm, hb, he]

/-! ### Reading loses nothing -/

@[simp] theorem written_append_rest (mark : Char) (cs : List Char) :
    (readBody mark cs).written ++ (readBody mark cs).rest = cs := by
  fun_induction readBody mark cs <;> simp_all [Body.push]

/-! ### What is written is read back -/

/-- A character is written with a backslash, or it is written as it is and has no role in a
quoted string. -/
theorem escape_cases (c : Char) :
    (∃ e, escape c = ['\\', e] ∧ unescape e = c) ∨
      escape c = [c] ∧ c ≠ '"' ∧ isLineBreak c = false ∧ c ≠ '\\' := by
  by_cases h : c = '"' ∨ c = '\\' ∨ c = '\n' ∨ c = '\r'
  · left
    rcases h with rfl | rfl | rfl | rfl
    · exact ⟨'"', rfl, rfl⟩
    · exact ⟨'\\', rfl, rfl⟩
    · exact ⟨'n', rfl, rfl⟩
    · exact ⟨'r', rfl, rfl⟩
  · right
    simp only [not_or] at h
    obtain ⟨h₁, h₂, h₃, h₄⟩ := h
    refine ⟨?_, h₁, by simp [isLineBreak, h₃, h₄], h₂⟩
    unfold escape
    split
    · exact absurd rfl h₁
    · exact absurd rfl h₂
    · exact absurd rfl h₃
    · exact absurd rfl h₄
    · rfl

/-- The body of a text written between double quotes is read as that text, whatever follows
it. -/
theorem readBody_flatMap_escape (s rest : List Char) :
    readBody '"' (s.flatMap escape ++ '"' :: rest) = ⟨s, s.flatMap escape ++ ['"'], rest⟩ := by
  induction s with
  | nil => simp
  | cons c s ih =>
    rw [List.flatMap_cons]
    rcases escape_cases c with ⟨e, he, hu⟩ | ⟨he, h₁, h₂, h₃⟩
    · rw [he, List.append_assoc, List.cons_append, List.cons_append, List.nil_append,
        readBody_escaped (by decide), ih, hu]
      rfl
    · rw [he, List.append_assoc, List.cons_append, List.nil_append, readBody_plain h₁ h₂ h₃, ih]
      rfl

end Text

end SearchSql
