/-!
# Character classes of the statement language

The scanner sorts the characters of a statement into blanks, word characters, quote marks and
the comment sign; every other character stands for itself.

* `isBlank` : the control characters and the space, which separate tokens.
* `isLineBreak` : the two blanks that end a comment or an unclosed quoted string.
* `isWordChar` : the characters of which names, keywords and numbers are made.
* `isQuoteMark` : the two characters that open a quoted string.

No character is in two of the classes blank, word character and quote mark, and the comment
sign is in none of them.
-/

namespace SearchSql

namespace Text

/-- Blanks are the control characters up to the space, and the space. -/
def isBlank (c : Char) : Bool := c.toNat ≤ 0x20

/-- Line feed and carriage return. -/
def isLineBreak (c : Char) : Bool := c == '\n' || c == '\r'

/-- ASCII letters and digits, the underscore, the dot, and the Latin-1 characters from the
no-break space on. -/
def isWordChar (c : Char) : Bool :=
  c.isAlphanum || c == '_' || c == '.' || (0xA0 ≤ c.toNat && c.toNat ≤ 0xFF)

/-- The single and the double quote. -/
def isQuoteMark (c : Char) : Bool := c == '"' || c == '\''

/-- The character that starts a comment. -/
def commentSign : Char := '#'

/-! ### The classes are disjoint -/

theorem isLineBreak_iff {c : Char} : isLineBreak c = true ↔ c = '\n' ∨ c = '\r' := by
  simp [isLineBreak]

theorem isQuoteMark_iff {c : Char} : isQuoteMark c = true ↔ c = '"' ∨ c = '\'' := by
  simp [isQuoteMark]

theorem isBlank_of_isLineBreak {c : Char} (h : isLineBreak c = true) : isBlank c = true := by
  rcases isLineBreak_iff.1 h with rfl | rfl <;> rfl

theorem toNat_of_isAlphanum {c : Char} (h : c.isAlphanum = true) : 0x30 ≤ c.toNat := by
  delta Char.isAlphanum Char.isAlpha Char.isUpper Char.isLower Char.isDigit at h
  simp only [Bool.or_eq_true, Bool.and_eq_true, decide_eq_true_eq, ge_iff_le,
    UInt32.le_iff_toNat_le] at h
  change 0x30 ≤ c.val.toNat
  rcases h with (h | h) | h
  · exact Nat.le_trans (by decide) h.1
  · exact Nat.le_trans (by decide) h.1
  · exact h.1

theorem isBlank_eq_false_of_isWordChar {c : Char} (h : isWordChar c = true) :
    isBlank c = false := by
  simp only [isWordChar, Bool.or_eq_true, beq_iff_eq, Bool.and_eq_true, decide_eq_true_eq] at h
  have : 0x20 < c.toNat := by
    rcases h with ((h | rfl) | rfl) | h
    · exact Nat.lt_of_lt_of_le (by decide) (toNat_of_isAlphanum h)
    · decide
    · decide
    · omega
  simp only [isBlank, decide_eq_false_iff_not]
  omega

@[simp] theorem isWordChar_commentSign : isWordChar commentSign = false := rfl
@[simp] theorem isBlank_commentSign : isBlank commentSign = false := rfl
@[simp] theorem isQuoteMark_commentSign : isQuoteMark commentSign = false := rfl

theorem isWordChar_eq_false_of_isQuoteMark {c : Char} (h : isQuoteMark c = true) :
    isWordChar c = false := by
  rcases isQuoteMark_iff.1 h with rfl | rfl <;> rfl

theorem isBlank_eq_false_of_isQuoteMark {c : Char} (h : isQuoteMark c = true) :
    isBlank c = false := by
  rcases isQuoteMark_iff.1 h with rfl | rfl <;> rfl

theorem isWordChar_of_isDigit {c : Char} (h : c.isDigit = true) : isWordChar c = true := by
  have : c.isAlphanum = true := by rw [Char.isAlphanum, h, Bool.or_true]
  simp [isWordChar, this]

end Text

end SearchSql
