import SearchSql.Decimal.Lemmas
import SearchSql.Proofs.Grammar

/-!
# How tokens are written

A text is cut into tokens from left to right, so a part of it has its tokens whatever stands
behind the part, as long as that does not continue a word.

* `Token.cut` : the tokens of a text, without their places.
* `Token.Lexical` : what every token of a text is like (`Token.lexical_of_mem_cut`).
* `Written cs ts` : the characters `cs` have the tokens `ts`, whatever stands behind them.
* `Written.append` : parts with a blank between them are written one after the other.
* `Segment.next?_quote` : a quoted string is cut off as a whole, whatever stands behind it.
* `written_run`, `written_keyword`, `written_number`, `written_quote`, `written_mark` : how each
  kind of token is written.
-/

namespace SearchSql

open Text

namespace Token

/-- The tokens of a text. -/
def cut (cs : List Char) : List Token := (segments cs).map Segment.token

theorem map_token_locate (offset : Nat) (ss : List Segment) :
    (locate offset ss).map Located.token = ss.map Segment.token := by
  induction ss generalizing offset with
  | nil => rfl
  | cons s ss ih => simp [locate, ih]

theorem map_token_scan (text : String) :
    (scan text).map Located.token = cut text.toList :=
  map_token_locate 0 _

/-! ### Cutting off one token -/

@[simp] theorem cut_nil : cut [] = [] := by
  have h : segments [] = [] := segments_of_next?_none rfl
  rw [cut, h, List.map_nil]

theorem cut_blank {c : Char} (hc : isBlank c = true) (cs : List Char) :
    cut (c :: cs) = cut cs := by
  have hgap : gapLength false (c :: cs) = gapLength false cs + 1 := by simp [gapLength, hc]
  -- the blank only makes the first gap longer
  cases h : Segment.next? cs with
  | none =>
    have h' : Segment.next? (c :: cs) = none := by
      simpa [Segment.next?_eq_none_iff, hgap] using h
    rw [cut, cut, segments_of_next?_none h, segments_of_next?_none h']
  | some p =>
    obtain ⟨s, rest⟩ := p
    have h' : Segment.next? (c :: cs) = some ({ s with gap := c :: s.gap }, rest) := by
      unfold Segment.next? at h ⊢
      rw [hgap, List.drop_succ_cons, List.take_succ_cons]
      split at h
      · cases h
      · cases h
        rfl
    rw [cut, cut, segments_of_next?_some h, segments_of_next?_some h']
    rfl

/-- Outside gaps, the first token is the one that starts at the first character. -/
theorem cut_lexeme {c : Char} (hb : isBlank c = false) (hs : c ≠ commentSign) (cs : List Char) :
    cut (c :: cs) = (readLexeme c cs).token :: cut (readLexeme c cs).rest := by
  have hgap : gapLength false (c :: cs) = 0 := by simp [gapLength, hb, hs]
  have h : Segment.next? (c :: cs) =
      some (⟨[], (readLexeme c cs).written, (readLexeme c cs).token⟩, (readLexeme c cs).rest) := by
    simp [Segment.next?, hgap]
  rw [cut, segments_of_next?_some h]
  rfl

/-! ### The tokens of texts -/

/-- What a token of a text is like: a word is a run of word characters that is not a number, and
a number has no sign. -/
def Lexical : Token → Prop
  | .word w => w.toList ≠ [] ∧ (∀ c ∈ w.toList, isWordChar c = true) ∧
      Decimal.ofDigits? w.toList = none
  | .number d => d.negative = false
  | .quoted _ => True
  | .mark _ => True

theorem lexical_ofWord {run : List Char} (hne : run ≠ []) (h : ∀ c ∈ run, isWordChar c = true) :
    (ofWord run).Lexical := by
  unfold ofWord
  split
  · rename_i d hd
    exact (Decimal.ofDigits?_eq_some_iff.1 hd).1
  · rename_i hn
    exact ⟨by simpa using hne, by simpa using h, by simpa using hn⟩

theorem lexical_readLexeme (c : Char) (cs : List Char) : (readLexeme c cs).token.Lexical := by
  unfold readLexeme
  split
  · trivial
  · split
    · rename_i hc
      refine lexical_ofWord (List.cons_ne_nil _ _) fun x hx => ?_
      rcases List.mem_cons.1 hx with rfl | hx
      · exact hc
      · exact List.all_eq_true.1 List.all_takeWhile x hx
    · trivial

theorem lexical_of_mem_cut {cs : List Char} {t : Token} (h : t ∈ cut cs) : t.Lexical := by
  obtain ⟨s, hs, rfl⟩ := List.mem_map.1 h
  fun_induction segments cs with
  | case1 => cases hs
  | case2 cs s' rest h' ih =>
    rcases List.mem_cons.1 hs with rfl | hs
    · unfold Segment.next? at h'
      split at h'
      · cases h'
      · cases h'
        exact lexical_readLexeme _ _
    · exact ih hs (List.mem_map_of_mem hs)

end Token

/-! ### Parts of texts -/

/-- The characters `cs` have the tokens `ts`, whatever stands behind them, unless it continues a
word. -/
def Written (cs : List Char) (ts : List Token) : Prop :=
  ∀ rest, rest.head?.any isWordChar = false → Token.cut (cs ++ rest) = ts ++ Token.cut rest

namespace Written

variable {cs ds : List Char} {ts us : List Token}

theorem cut_eq (h : Written cs ts) : Token.cut cs = ts := by
  have h := h [] rfl
  rwa [List.append_nil, Token.cut_nil, List.append_nil] at h

/-- A part that does not continue a word can stand right behind another one. -/
theorem append_of_head (h : Written cs ts) (h' : Written ds us) (hne : ds ≠ [])
    (hds : ds.head?.any isWordChar = false) : Written (cs ++ ds) (ts ++ us) := by
  intro rest hrest
  have hhead : (ds ++ rest).head?.any isWordChar = false := by
    obtain ⟨c, ds, rfl⟩ := List.exists_cons_of_ne_nil hne
    exact hds
  rw [List.append_assoc, h _ hhead, h' rest hrest, List.append_assoc]

theorem blank_cons (h : Written cs ts) : Written (' ' :: cs) ts := by
  intro rest hrest
  rw [List.cons_append, Token.cut_blank (by decide), h rest hrest]

/-- A blank divides two parts. -/
theorem append (h : Written cs ts) (h' : Written ds us) : Written (cs ++ ' ' :: ds) (ts ++ us) :=
  h.append_of_head h'.blank_cons (List.cons_ne_nil _ _) rfl

end Written

/-- The longest run of word characters is one token. -/
theorem written_run {run : List Char} (hne : run ≠ []) (h : run.all isWordChar = true) :
    Written run [Token.ofWord run] := by
  intro rest hrest
  obtain ⟨c, cs, rfl⟩ := List.exists_cons_of_ne_nil hne
  rw [List.all_cons, Bool.and_eq_true] at h
  obtain ⟨hc, hcs⟩ := h
  rw [List.all_eq_true] at hcs
  -- the run ends where `rest` begins, since that does not continue a word
  have htake : (cs ++ rest).takeWhile isWordChar = cs := by
    rw [List.takeWhile_append_of_pos hcs]
    cases rest with
    | nil => simp
    | cons x rest => simp [show isWordChar x = false from hrest]
  have hdrop : (cs ++ rest).dropWhile isWordChar = rest := by
    rw [List.dropWhile_append_of_pos hcs]
    cases rest with
    | nil => rfl
    | cons x rest => simp [show isWordChar x = false from hrest]
  have hquote : isQuoteMark c = false := by
    by_cases hq : isQuoteMark c = true
    · exact absurd hc (by simp [isWordChar_eq_false_of_isQuoteMark hq])
    · simpa using hq
  have hsign : c ≠ commentSign := by
    rintro rfl
    exact absurd hc (by simp)
  rw [List.cons_append, Token.cut_lexeme (isBlank_eq_false_of_isWordChar hc) hsign, readLexeme,
    if_neg (by simp [hquote]), if_pos hc, htake, hdrop]
  rfl

theorem written_keyword (k : Keyword) : Written k.spelling.toList [.word k.spelling] := by
  have h : Written k.spelling.toList [Token.ofWord k.spelling.toList] :=
    written_run (by cases k <;> decide) (by cases k <;> decide)
  have hword : Token.ofWord k.spelling.toList = .word k.spelling := by cases k <;> decide
  rwa [hword] at h

/-- The character is a token of its own wherever it stands outside gaps and quoted strings. -/
def isSign (c : Char) : Bool :=
  !(isBlank c || c == commentSign || isQuoteMark c || isWordChar c)

theorem written_mark {c : Char} (h : isSign c = true) : Written [c] [.mark c] := by
  simp only [isSign, Bool.not_eq_true', Bool.or_eq_false_iff, beq_eq_false_iff_ne] at h
  obtain ⟨⟨⟨hblank, hsign⟩, hquote⟩, hword⟩ := h
  intro rest _
  rw [List.singleton_append, Token.cut_lexeme hblank hsign, readLexeme, if_neg (by simp [hquote]),
    if_neg (by simp [hword])]
  rfl

/-- A text that is written as a quoted string is the first token, whatever stands behind it. -/
theorem Segment.next?_quote (s : String) (rest : List Char) :
    Segment.next? ((quote s).toList ++ rest) = some (⟨[], (quote s).toList, .quoted s⟩, rest) := by
  have hchars : (quote s).toList ++ rest = '"' :: (s.toList.flatMap escape ++ '"' :: rest) := by
    simp [quote]
  have hread : readLexeme '"' (s.toList.flatMap escape ++ '"' :: rest) =
      ⟨(quote s).toList, .quoted s, rest⟩ := by
    rw [readLexeme, if_pos (by decide), readBody_flatMap_escape]
    simp [quote]
  have hgap : gapLength false ('"' :: (s.toList.flatMap escape ++ '"' :: rest)) = 0 := rfl
  rw [hchars, Segment.next?, hgap, List.drop_zero, List.take_zero]
  simp only [hread]

theorem written_quote (s : String) : Written (quote s).toList [.quoted s] := by
  intro rest _
  rw [Token.cut, segments_of_next?_some (Segment.next?_quote s rest)]
  rfl

/-! ### Numbers -/

theorem isWordChar_of_mem_toText {d : Decimal} (hd : d.negative = false) {c : Char}
    (hc : c ∈ d.toText.toList) : isWordChar c = true := by
  have hdigit : ∀ x, x ∈ d.wholeDigits ∨ x ∈ d.fractionDigits → isWordChar x = true := by
    intro x hx
    rw [← List.mem_append, d.wholeDigits_append_fractionDigits] at hx
    exact isWordChar_of_isDigit (Decimal.isDigit_of_mem_digits hx)
  rw [Decimal.toList_toText hd] at hc
  unfold Decimal.unsignedChars Decimal.joinPoint at hc
  split at hc
  · exact hdigit c (.inl hc)
  · rcases List.mem_append.1 hc with hc | hc
    · exact hdigit c (.inl hc)
    · rcases List.mem_cons.1 hc with rfl | hc
      · decide
      · exact hdigit c (.inr hc)

/-- A number starts with a digit. -/
theorem exists_digit_cons_toText {d : Decimal} (hd : d.negative = false) :
    ∃ c cs, d.toText.toList = c :: cs ∧ c.isDigit = true := by
  obtain ⟨c, cs, hw⟩ := List.exists_cons_of_ne_nil
    (Decimal.ne_nil_of_isWhole d.isWhole_wholeDigits)
  have hc : c.isDigit = true := by
    have hmem : c ∈ d.wholeDigits := by rw [hw]; exact List.mem_cons_self
    exact Decimal.isDigit_of_mem_digits (List.mem_of_mem_take hmem)
  rw [Decimal.toList_toText hd]
  unfold Decimal.unsignedChars Decimal.joinPoint
  rw [hw]
  split
  · exact ⟨c, cs, rfl, hc⟩
  · exact ⟨c, _, rfl, hc⟩

theorem toText_ne_nil {d : Decimal} (hd : d.negative = false) : d.toText.toList ≠ [] := by
  obtain ⟨c, cs, h, -⟩ := exists_digit_cons_toText hd
  simp [h]

theorem ofWord_toText {d : Decimal} (hd : d.negative = false) :
    Token.ofWord d.toText.toList = .number d := by
  have h : Decimal.ofDigits? d.toText.toList = some d := by
    rw [Decimal.toList_toText hd]
    exact Decimal.ofDigits?_eq_some_iff.2 ⟨hd, rfl⟩
  rw [Token.ofWord, h]

theorem written_number {d : Decimal} (hd : d.negative = false) :
    Written d.toText.toList [.number d] := by
  have h := written_run (toText_ne_nil hd)
    (List.all_eq_true.2 fun c hc => isWordChar_of_mem_toText hd hc)
  rwa [ofWord_toText hd] at h

end SearchSql
