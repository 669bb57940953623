/-!
# Trimming white space

A statement given to a command is trimmed before it is read.  Trimming goes by the Unicode
property *White_Space*, which is wider than the blanks of the statement language: it has the
no-break space and the typographic spaces, but not the other control characters.

* `isWhiteSpace` : the property, as a table of ranges.
* `dropEndWhile` : drop the longest final part of a list whose members satisfy a predicate.
* `trim` : drop white space at both ends.
-/

namespace SearchSql

namespace Text

/-- The ranges of code points with the property *White_Space*, ends included. -/
def whiteSpaceRanges : List (Nat × Nat) :=
  [(0x09, 0x0D), (0x20, 0x20), (0x85, 0x85), (0xA0, 0xA0), (0x1680, 0x1680), (0x2000, 0x200A),
    (0x2028, 0x2029), (0x202F, 0x202F), (0x205F, 0x205F), (0x3000, 0x3000)]

/-- The character has the property *White_Space*. -/
def isWhiteSpace (c : Char) : Bool :=
  whiteSpaceRanges.any fun r => r.1 ≤ c.toNat && c.toNat ≤ r.2

/-- Drop the longest final part of a list whose members all satisfy `p`. -/
def dropEndWhile {α : Type} (p : α → Bool) (l : List α) : List α :=
  (l.reverse.dropWhile p).reverse

/-- Drop the white space at both ends of a text. -/
def trim (s : String) : String :=
  String.ofList (dropEndWhile isWhiteSpace (s.toList.dropWhile isWhiteSpace))

section dropEndWhile

variable {α : Type} {p : α → Bool}

@[simp] theorem dropEndWhile_nil : dropEndWhile p [] = [] := rfl

/-- What is dropped satisfies the predicate throughout. -/
theorem exists_dropEndWhile_append (l : List α) :
    ∃ dropped, dropEndWhile p l ++ dropped = l ∧ ∀ a ∈ dropped, p a = true := by
  refine ⟨(l.reverse.takeWhile p).reverse, ?_, fun a ha => ?_⟩
  · rw [dropEndWhile, ← List.reverse_append, List.takeWhile_append_dropWhile,
      List.reverse_reverse]
  · rw [List.mem_reverse] at ha
    exact (List.all_eq_true.1 List.all_takeWhile) a ha

/-- A final part that satisfies the predicate throughout makes no difference. -/
theorem dropEndWhile_append {l dropped : List α} (h : ∀ a ∈ dropped, p a = true) :
    dropEndWhile p (l ++ dropped) = dropEndWhile p l := by
  rw [dropEndWhile, List.reverse_append, List.dropWhile_append_of_pos]
  · rfl
  · simpa using h

end dropEndWhile

end Text

end SearchSql
