import SearchSql.Expr.QueryString
import SearchSql.Proofs.Numerals
import SearchSql.Proofs.RoundTrip

/-!
# Texts are kept as they are written

A text that is written as a quoted string is the value of the one token it is read as, whatever
characters it holds and whatever stands behind it.  A name or a value that is written without
quotes reaches the query string character by character, whether its token is a number or a word.

* `Comparison.Queries op n w q` : `q` is the query string of a comparison of `n` with `w`.
* `Cursor.next_quote` : **a quoted text is read back in any context**, and reading goes on right
  behind it.
* `Reader.expression_step_verbatim` : **a comparison without quotes keeps its name and its value**,
  and the value is a number exactly if it is a numeral.
-/

namespace SearchSql

open Text Grammar
open Token (Located)

/-! ### Quoted texts -/

/-- **A text is read back from the quoted string that it is written as, in any context.**  Where a
cursor stands at the quoted string, it hands out the text as one token that starts there, and
stands at the characters behind the closing mark; and the tokens of a text that starts with a quoted
string are the one of the string and those of the rest. -/
theorem Cursor.next_quote (u r : String) (offset : Nat) (last : Option Sighting) :
    let s : Sighting := ⟨some (.quoted u), offset⟩
    Cursor.next ⟨(quote u ++ r).toList, offset, last, none⟩ =
        (s, ⟨r.toList, offset + (quote u).length, some s, none⟩) ∧
      Token.scan (quote u ++ r) = ⟨.quoted u, 0⟩ ::
        (Token.scan r).map fun l => { l with start := l.start + (quote u).length } := by
  have hnext := Segment.next?_quote u r.toList
  rw [← String.toList_append] at hnext
  constructor
  · simp only [next, advance, hnext, List.length_nil, Nat.add_zero, String.length_toList]
  · rw [Token.scan, segments_of_next?_some hnext, Token.locate, List.length_nil, Nat.add_zero,
      String.length_toList, Token.locate_add, Token.scan]

-- a backslash in front of a letter, a mark and a line break are all escaped
example : Token.scan (quote "\\n\"\n#" ++ "x") =
    [⟨.quoted "\\n\"\n#", 0⟩, ⟨.word "x", 10⟩] := by
  decide +kernel

/-! ### Names and values without quotes -/

/-- The query string of a comparison of the field `n` with a value that is written `w`: a pair, a
negated pair, or a range that is open at one end. -/
inductive Comparison.Queries (n w : String) : Comparison → String → Prop
  | eq : Queries n w .eq (n ++ ":" ++ w)
  | ne : Queries n w .ne ("NOT " ++ n ++ ":" ++ w)
  | lt : Queries n w .lt (n ++ ":\x7b* TO " ++ w ++ "\x7d")
  | le : Queries n w .le (n ++ ":[* TO " ++ w ++ "]")
  | gt : Queries n w .gt (n ++ ":\x7b" ++ w ++ " TO *\x7d")
  | ge : Queries n w .ge (n ++ ":[" ++ w ++ " TO *]")

theorem Comparison.queries_clause (op : Comparison) (n w : String) :
    op.Queries n w (op.clause n w) := by
  cases op <;> constructor

/-- A run that starts with a digit is a value that is written as the run: the number of which it is
the notation, or else a text. -/
theorem exists_value_ofWord {w : String} (hdigit : w.toList.head?.any Char.isDigit = true) :
    ∃ v, Value (Token.ofWord w.toList) v ∧ v.toText = w ∧
      ∀ d, v = .number d ↔ Decimal.ofDigits? w.toList = some d := by
  cases hd : Decimal.ofDigits? w.toList with
  | some d =>
    refine ⟨.number d, ?_, String.toList_inj.1 (Decimal.toList_toText_of_ofDigits? hd), by simp⟩
    rw [Token.ofWord, hd]
    exact .number d
  | none =>
    obtain ⟨c, cs, hcs⟩ : ∃ c cs, w.toList = c :: cs := by
      refine List.exists_cons_of_ne_nil fun h => ?_
      rw [h] at hdigit
      cases hdigit
    rw [hcs] at hdigit
    refine ⟨.text w, ?_, rfl, by simp⟩
    rw [Token.ofWord, hd, String.ofList_toList]
    exact .word hcs (by simpa using hdigit)

/-- A phrase that makes up a whole text is read from it, and nothing is left. -/
theorem Reader.Recognizes.step_of_spelled {α : Type} {r : Reader α} {P : Phrase α}
    {Stop : Option Token → Prop} (h : r.Recognizes P Stop) (hstop : Stop none) {text : String}
    {a : α} (hspelled : P.Spelled text.toList a) :
    r.step (.ofText text) = (.ok a, ⟨[], text.length⟩) := by
  obtain ⟨ts, hts, ha⟩ := hspelled
  have htokens : (Token.scan text).map Located.token = ts := by
    rw [Token.map_token_scan, hts.cut_eq]
  have hread := h.complete text.length (Token.scan text) [] (by rwa [htokens]) hstop
  rw [List.append_nil] at hread
  simp [step, TokenStream.ofText, hread]

/-- **A comparison without quotes keeps its name and its value.**  Whatever tokens they are, the
name and the value of the comparison that is read are those of the text, character by character,
and so they stand in its query string; and the value is a number exactly if it is written as a
numeral, which then is the numeral of this number. -/
theorem Reader.expression_step_verbatim {n w : String} (hn : IsName n)
    (hw : w.toList.all isWordChar = true) (hdigit : w.toList.head?.any Char.isDigit = true)
    (op : Comparison) :
    let text := n ++ " " ++ op.symbol ++ " " ++ w
    ∃ v q, expression.step (.ofText text) = (.ok (.compare op n v), ⟨[], text.length⟩) ∧
      v.toText = w ∧ (Expr.compare op n v).queryString? = some q ∧ op.Queries n w q ∧
      ∀ m k, (∃ d, v = .number d ∧ d.coefficient = m ∧ d.scale = k) ↔ Numeral w.toList m k := by
  intro text
  obtain ⟨v, hvalue, htext, hnumber⟩ := exists_value_ofWord hdigit
  have hne : w.toList ≠ [] := by
    intro h
    rw [h] at hdigit
    cases hdigit
  have hspelled : Expression.Spelled text.toList (.compare op n v) := by
    -- the token of the value is that of a run, whether it is a number or a word
    obtain ⟨ts, hts, hplain⟩ :=
      spelled_compare hn.spelled op.spelled ⟨_, written_run hne hw, .intro hvalue⟩
    exact ⟨ts, by simpa [text, String.toList_append] using hts, .term (.plain hplain)⟩
  refine ⟨v, op.clause n w, parses_expression.step_of_spelled (by simp) hspelled, htext, ?_,
    op.queries_clause n w, fun m k => ?_⟩
  · rw [Expr.queryString?, htext]
  · simp only [hnumber]
    exact Decimal.exists_ofDigits?_iff w.toList m k

/-- Zeros at the end are kept, in a name and in a value that both are numbers. -/
theorem Reader.expression_step_trailing_zeros :
    IsName "10.0" ∧ "2.50".toList.all isWordChar = true ∧
      "2.50".toList.head?.any Char.isDigit = true ∧
      ∃ v, expression.step (.ofText "10.0 >= 2.50") = (.ok (.compare .ge "10.0" v), ⟨[], 12⟩) ∧
        v.toText = "2.50" ∧
        (Expr.compare .ge "10.0" v).queryString? = some "10.0:[2.50 TO *]" ∧
        ∃ d, v = .number d ∧ d.coefficient = 250 ∧ d.scale = 2 := by
  have hn : IsName "10.0" := ⟨by decide, List.all_eq_true.1 (by decide), by decide⟩
  have hw : "2.50".toList.all isWordChar = true := by decide
  have hdigit : "2.50".toList.head?.any Char.isDigit = true := by decide
  have hwhole : IsWholePart ['2'] := ⟨by decide, by simp, by simp⟩
  have hnumeral : Numeral (['2'] ++ '.' :: ['5', '0']) 250 2 :=
    .fraction hwhole (by decide) (by simp) (by decide) (by decide)
  obtain ⟨v, q, hstep, htext, hquery, hq, hnumber⟩ := expression_step_verbatim hn hw hdigit .ge
  cases hq
  exact ⟨hn, hw, hdigit, v, hstep, htext, hquery, (hnumber 250 2).2 hnumeral⟩

end SearchSql
