import Mathlib.Data.List.Basic
import SearchSql.Proofs.Delivery
import SearchSql.Proofs.Spelling

/-!
# Cutting a text loses nothing and takes the longest lexemes

What the parts of a text are, said about the characters of the text and what stands on either side
of a part, and independent of how a text is cut.

## Main definitions

* `IsGap after cs` : blanks and whole comments.
* `IsRun before after cs` : a run of word characters that cannot be made longer on either side.
* `Unescapes mark written value` : the characters between two quote marks, and what they stand for.
* `QuoteEnds mark after tail` : how a quoted string ends.
* `IsLexeme before after cs t` : the characters of a token.
* `Segmented before cs ls` : a text as a sequence of gaps and lexemes, with the tokens of the
  lexemes and their places.

## Main statements

* `isGap_take_gapLength`, `IsGap.gapLength_append` : where a gap ends.
* `isLexeme_readLexeme`, `IsLexeme.exists_readLexeme` : where a lexeme ends, and what its token is.
* `segmented_iff` : a text has one segmentation, whose tokens are those that it is cut into.
* `Cursor.next_follows_segmented` : **reading a text token by token follows its segmentation**,
  and reaches the end after at most as many tokens as the text has characters.
-/

namespace SearchSql

open Text
open Token (Located)

/-- A gap with the characters `after` behind it: blanks, and comments, each of which runs from a
comment sign to before the next line break or to the end of the text. -/
inductive IsGap (after : List Char) : List Char → Prop
  | nil : IsGap after []
  | blank {c : Char} {cs : List Char} : isBlank c = true → IsGap after cs → IsGap after (c :: cs)
  | comment {body cs : List Char} : (∀ c ∈ body, isLineBreak c = false) →
      (∀ c ∈ (cs ++ after).head?, isLineBreak c = true) → IsGap after cs →
      IsGap after (commentSign :: (body ++ cs))

/-- A run of word characters, with no word character on either side. -/
structure IsRun (before after run : List Char) : Prop where
  ne_nil : run ≠ []
  isWordChar : ∀ c ∈ run, isWordChar c = true
  left : ∀ c ∈ before.getLast?, Text.isWordChar c = false
  right : ∀ c ∈ after.head?, Text.isWordChar c = false

/-- A backslash followed by the first character stands for the second one. -/
inductive Escapes : Char → Char → Prop
  | lineFeed : Escapes 'n' '\n'
  | tab : Escapes 't' '\t'
  | carriageReturn : Escapes 'r' '\r'
  | other {c : Char} : c ≠ 'n' → c ≠ 't' → c ≠ 'r' → Escapes c c

/-- The inside of a string that was opened by `mark`, without an unescaped mark or line break, and
the text that it stands for. -/
inductive Unescapes (mark : Char) : List Char → List Char → Prop
  | nil : Unescapes mark [] []
  | plain {c : Char} {written value : List Char} : c ≠ mark → isLineBreak c = false → c ≠ '\\' →
      Unescapes mark written value → Unescapes mark (c :: written) (c :: value)
  | escaped {c d : Char} {written value : List Char} : Escapes c d →
      Unescapes mark written value → Unescapes mark ('\\' :: c :: written) (d :: value)

/-- What ends a string that was opened by `mark`, where `after` is what follows it: the same mark,
nothing if a line break or the end of the text follows, or a backslash that ends the text. -/
inductive QuoteEnds (mark : Char) : (after tail : List Char) → Prop
  | closed (after : List Char) : QuoteEnds mark after [mark]
  | lineBreak {c : Char} (rest : List Char) : isLineBreak c = true → QuoteEnds mark (c :: rest) []
  | endOfText : QuoteEnds mark [] []
  | backslash : QuoteEnds mark [] ['\\']

/-- The characters of a token, between the characters `before` and `after` of the text. -/
inductive IsLexeme (before after : List Char) : List Char → Token → Prop
  | number {d : Decimal} : IsRun before after d.toText.toList →
      IsLexeme before after d.toText.toList (.number d)
  | word {w : String} : IsRun before after w.toList → (∀ d : Decimal, d.toText ≠ w) →
      IsLexeme before after w.toList (.word w)
  | quoted {mark : Char} {body tail value : List Char} : isQuoteMark mark = true →
      Unescapes mark body value → QuoteEnds mark after tail →
      IsLexeme before after (mark :: (body ++ tail)) (.quoted (String.ofList value))
  | mark {c : Char} : isBlank c = false → c ≠ commentSign → isQuoteMark c = false →
      isWordChar c = false → IsLexeme before after [c] (.mark c)

/-- The characters `cs`, which stand behind `before`, are gaps and lexemes in turn, and end with a
gap.  Each token has the place at which its lexeme starts. -/
inductive Segmented : (before cs : List Char) → List Located → Prop
  | last {before gap : List Char} : IsGap [] gap → Segmented before gap []
  | next {before gap lexeme after : List Char} {t : Token} {ls : List Located} :
      IsGap (lexeme ++ after) gap → IsLexeme (before ++ gap) after lexeme t →
      Segmented (before ++ gap ++ lexeme) after ls →
      Segmented before (gap ++ (lexeme ++ after)) (⟨t, (before ++ gap).length⟩ :: ls)

/-! ### Gaps -/

/-- The rest of a comment and the gap behind it. -/
def InComment (after cs : List Char) : Prop :=
  ∃ body gap, cs = body ++ gap ∧ (∀ c ∈ body, isLineBreak c = false) ∧
    (∀ c ∈ (gap ++ after).head?, isLineBreak c = true) ∧ IsGap after gap

theorem InComment.cons {after cs : List Char} {c : Char} (hc : isLineBreak c = false)
    (h : InComment after cs) : InComment after (c :: cs) := by
  obtain ⟨body, gap, rfl, hbody, hhead, hgap⟩ := h
  refine ⟨c :: body, gap, rfl, ?_, hhead, hgap⟩
  simpa using ⟨hc, hbody⟩

/-- The characters that are skipped are a gap. -/
theorem isGap_take_gapLength_of (inComment : Bool) (cs : List Char) :
    (if inComment then InComment else IsGap) (cs.drop (gapLength inComment cs))
      (cs.take (gapLength inComment cs)) := by
  fun_induction gapLength inComment cs with
  | case1 inComment =>
    cases inComment with
    | true => exact ⟨[], [], rfl, by simp, by simp, .nil⟩
    | false => exact .nil
  | case2 c cs ih =>
    rw [List.drop_succ_cons, List.take_succ_cons]
    cases hc : isLineBreak c with
    | true =>
      rw [hc] at ih
      exact ⟨[], _, rfl, by simp, by simpa using hc, .blank (isBlank_of_isLineBreak hc) ih⟩
    | false =>
      rw [hc] at ih
      exact InComment.cons hc ih
  | case3 c cs hc ih =>
    rw [List.drop_succ_cons, List.take_succ_cons]
    exact .blank hc ih
  | case4 cs hc ih =>
    rw [List.drop_succ_cons, List.take_succ_cons]
    obtain ⟨body, gap, htake, hbody, hhead, hgap⟩ := ih
    rw [htake]
    exact .comment hbody hhead hgap
  | case5 c cs hc hs => exact .nil

theorem isGap_take_gapLength (cs : List Char) :
    IsGap (cs.drop (gapLength false cs)) (cs.take (gapLength false cs)) :=
  isGap_take_gapLength_of false cs

/-- A comment is skipped up to the line break that ends it. -/
theorem gapLength_comment {body rest : List Char} (hbody : ∀ c ∈ body, isLineBreak c = false)
    (hrest : ∀ c ∈ rest.head?, isLineBreak c = true) :
    gapLength true (body ++ rest) = body.length + gapLength false rest := by
  induction body with
  | nil =>
    cases rest with
    | nil => rfl
    | cons c rest =>
      have hc : isLineBreak c = true := hrest c rfl
      simp [gapLength, hc, isBlank_of_isLineBreak hc]
  | cons c body ih =>
    have hc : isLineBreak c = false := hbody c List.mem_cons_self
    have ih := ih fun x hx => hbody x (List.mem_cons_of_mem c hx)
    simp only [List.cons_append, gapLength, hc, Bool.not_false, ih, List.length_cons]
    omega

/-- A gap is skipped as a whole. -/
theorem IsGap.gapLength_append {after gap : List Char} (h : IsGap after gap) :
    gapLength false (gap ++ after) = gap.length + gapLength false after := by
  induction h with
  | nil => simp
  | blank hc _ ih =>
    simp only [List.cons_append, gapLength, hc, if_true, ih, List.length_cons]
    omega
  | comment hbody hhead _ ih =>
    rw [List.cons_append, List.append_assoc, gapLength, if_neg (by simp), if_pos rfl,
      gapLength_comment hbody hhead, ih, List.length_cons, List.length_append]
    omega

/-- A gap in front of a lexeme ends in a blank. -/
theorem IsGap.isBlank_getLast {c : Char} {after gap : List Char} (h : IsGap (c :: after) gap)
    (hc : isLineBreak c = false) : ∀ x ∈ gap.getLast?, isBlank x = true := by
  induction h with
  | nil => simp
  | @blank x cs hx _ ih =>
    cases cs with
    | nil => simpa using hx
    | cons y cs => simpa using ih
  | @comment body cs _ hhead _ ih =>
    cases cs with
    | nil =>
      -- a comment cannot end at the lexeme, which does not start with a line break
      have hbreak := hhead c rfl
      rw [hc] at hbreak
      cases hbreak
    | cons y cs =>
      rw [← List.cons_append, List.getLast?_append_of_ne_nil _ (List.cons_ne_nil y cs)]
      exact ih

/-! ### Quoted strings -/

theorem escapes_iff {c d : Char} : Escapes c d ↔ unescape c = d := by
  constructor
  · intro h
    cases h with
    | lineFeed => rfl
    | tab => rfl
    | carriageReturn => rfl
    | other hn ht hr =>
      unfold unescape
      split
      · exact absurd rfl hn
      · exact absurd rfl ht
      · exact absurd rfl hr
      · rfl
  · rintro rfl
    unfold unescape
    split
    · exact .lineFeed
    · exact .tab
    · exact .carriageReturn
    · rename_i hn ht hr
      exact .other hn ht hr

/-- The body that is read is the inside of a string and what ends it. -/
theorem exists_unescapes_readBody (mark : Char) (cs : List Char) :
    ∃ body tail, (readBody mark cs).written = body ++ tail ∧
      Unescapes mark body (readBody mark cs).value ∧
      QuoteEnds mark (readBody mark cs).rest tail := by
  fun_induction readBody mark cs with
  | case1 => exact ⟨[], [], rfl, .nil, .endOfText⟩
  | case2 cs => exact ⟨[], [mark], rfl, .nil, .closed cs⟩
  | case3 c cs _ hb => exact ⟨[], [], rfl, .nil, .lineBreak cs hb⟩
  | case4 => exact ⟨[], _, rfl, .nil, .backslash⟩
  | case5 e es _ _ ih =>
    obtain ⟨body, tail, hwritten, hbody, htail⟩ := ih
    exact ⟨'\\' :: e :: body, tail, by simp [Body.push, hwritten],
      .escaped (escapes_iff.2 rfl) hbody, htail⟩
  | case6 c cs hm hb he ih =>
    obtain ⟨body, tail, hwritten, hbody, htail⟩ := ih
    exact ⟨c :: body, tail, by simp [Body.push, hwritten], .plain hm (by simpa using hb) he hbody,
      htail⟩

theorem QuoteEnds.readBody_eq {mark : Char} (hmark : isQuoteMark mark = true)
    {after tail : List Char} (h : QuoteEnds mark after tail) :
    readBody mark (tail ++ after) = ⟨[], tail, after⟩ := by
  have hslash : '\\' ≠ mark := by
    rintro rfl
    cases hmark
  cases h with
  | closed => simp
  | @lineBreak c rest hc =>
    have hne : c ≠ mark := by
      rintro rfl
      rcases isQuoteMark_iff.1 hmark with rfl | rfl <;> cases hc
    exact readBody_lineBreak hne hc rest
  | endOfText => simp
  | backslash =>
    rw [List.append_nil, readBody.eq_def]
    simp [hslash, isLineBreak]

/-- A string is read up to what ends it. -/
theorem Unescapes.readBody_eq {mark : Char} (hmark : isQuoteMark mark = true)
    {body value after tail : List Char} (h : Unescapes mark body value)
    (htail : QuoteEnds mark after tail) :
    readBody mark (body ++ (tail ++ after)) = ⟨value, body ++ tail, after⟩ := by
  induction h with
  | nil => exact htail.readBody_eq hmark
  | plain hm hb he _ ih =>
    rw [List.cons_append, readBody_plain hm hb he, ih]
    rfl
  | escaped he _ ih =>
    have hslash : '\\' ≠ mark := by
      rintro rfl
      cases hmark
    rw [List.cons_append, List.cons_append, readBody_escaped hslash, ih, escapes_iff.1 he]
    rfl

/-! ### Lexemes -/

/-- The text does not continue a word here. -/
def Divided (before after : List Char) : Prop :=
  ∀ x ∈ before.getLast?, ∀ y ∈ after.head?, isWordChar x = true → isWordChar y = false

theorem IsRun.takeWhile_append {before after : List Char} {c : Char} {cs : List Char}
    (h : IsRun before after (c :: cs)) :
    (cs ++ after).takeWhile Text.isWordChar = cs ∧
      (cs ++ after).dropWhile Text.isWordChar = after := by
  have hcs : ∀ x ∈ cs, Text.isWordChar x = true :=
    fun x hx => h.isWordChar x (List.mem_cons_of_mem c hx)
  rw [List.takeWhile_append_of_pos hcs, List.dropWhile_append_of_pos hcs]
  cases after with
  | nil => simp
  | cons y after => simp [h.right y rfl]

/-- The notation of a negative number has a sign, which is not a word character. -/
theorem IsRun.negative_eq_false {before after : List Char} {d : Decimal}
    (h : IsRun before after d.toText.toList) : d.negative = false := by
  cases hneg : d.negative with
  | false => rfl
  | true => exact absurd (h.isWordChar '-' (by simp [Decimal.toText, hneg])) (by decide)

theorem ofWord_of_forall_ne {w : String} (h : ∀ d : Decimal, d.toText ≠ w) :
    Token.ofWord w.toList = .word w := by
  have hnone : Decimal.ofDigits? w.toList = none := by
    refine Option.eq_none_iff_forall_ne_some.2 fun d hd => h d ?_
    exact String.toList_inj.1 (Decimal.toList_toText_of_ofDigits? hd)
  rw [Token.ofWord, hnone, String.ofList_toList]

/-- A run is a number if it is the notation of one, and else a word. -/
theorem isLexeme_ofWord {before after run : List Char} (h : IsRun before after run) :
    IsLexeme before after run (Token.ofWord run) := by
  obtain ⟨w, rfl⟩ : ∃ w : String, run = w.toList := ⟨.ofList run, String.toList_ofList.symm⟩
  by_cases hnum : ∃ d : Decimal, d.toText = w
  · obtain ⟨d, rfl⟩ := hnum
    rw [ofWord_toText h.negative_eq_false]
    exact .number h
  · have hne : ∀ d : Decimal, d.toText ≠ w := fun d hd => hnum ⟨d, hd⟩
    rw [ofWord_of_forall_ne hne]
    exact .word h hne

theorem IsLexeme.ne_nil {before after lexeme : List Char} {t : Token}
    (h : IsLexeme before after lexeme t) : lexeme ≠ [] := by
  cases h with
  | number h => exact h.ne_nil
  | word h _ => exact h.ne_nil
  | quoted => exact List.cons_ne_nil _ _
  | mark => exact List.cons_ne_nil _ _

/-- The characters of a token without quotes are those it is written with. -/
theorem IsLexeme.eq_of_run? {before after lexeme run : List Char} {t : Token}
    (h : IsLexeme before after lexeme t) (hrun : run ∈ t.run?) : lexeme = run := by
  cases h with
  | number | word => exact Option.some.inj hrun
  | quoted | mark => cases hrun

/-- What is read at a character outside gaps is a lexeme. -/
theorem isLexeme_readLexeme {before cs : List Char} {c : Char} (hb : isBlank c = false)
    (hs : c ≠ commentSign) (hdiv : Divided before (c :: cs)) :
    IsLexeme before (readLexeme c cs).rest (readLexeme c cs).written (readLexeme c cs).token := by
  unfold readLexeme
  split
  · rename_i hq
    obtain ⟨body, tail, hwritten, hbody, htail⟩ := exists_unescapes_readBody c cs
    simp only [hwritten]
    exact .quoted hq hbody htail
  · rename_i hq
    split
    · rename_i hw
      refine isLexeme_ofWord ⟨List.cons_ne_nil _ _, fun x hx => ?_, fun x hx => ?_, fun y hy => ?_⟩
      · rcases List.mem_cons.1 hx with rfl | hx
        · exact hw
        · exact List.all_eq_true.1 List.all_takeWhile x hx
      · cases hx' : isWordChar x with
        | false => rfl
        | true => rw [← hdiv x hx c rfl hx', hw]
      · have := List.head?_dropWhile_not isWordChar cs
        rw [Option.mem_def.1 hy] at this
        simpa using this
    · rename_i hw
      exact .mark hb hs (by simpa using hq) (by simpa using hw)

/-- Behind a lexeme, no word is continued. -/
theorem IsLexeme.divided {before after lexeme : List Char} {t : Token}
    (h : IsLexeme before after lexeme t) : Divided (before ++ lexeme) after := by
  intro x hx y hy hword
  cases h with
  | number h => exact h.right y hy
  | word h _ => exact h.right y hy
  | @quoted mark body tail value hmark _ htail =>
    cases htail with
    | closed =>
      rw [← List.cons_append, ← List.append_assoc, List.getLast?_concat] at hx
      cases hx
      rw [isWordChar_eq_false_of_isQuoteMark hmark] at hword
      cases hword
    | lineBreak rest hc =>
      cases hy
      cases hw : isWordChar y with
      | false => rfl
      | true =>
        have := isBlank_eq_false_of_isWordChar hw
        rw [isBlank_of_isLineBreak hc] at this
        cases this
    | endOfText => cases hy
    | backslash => cases hy
  | mark _ _ _ hw =>
    rw [List.getLast?_concat] at hx
    cases hx
    rw [hw] at hword
    cases hword

/-- A run is read as a whole, and nothing else with it. -/
theorem IsRun.exists_readLexeme {before after run : List Char} (h : IsRun before after run) :
    ∃ c cs, run ++ after = c :: cs ∧ isBlank c = false ∧ c ≠ commentSign ∧
      readLexeme c cs = ⟨run, Token.ofWord run, after⟩ := by
  obtain ⟨c, cs, rfl⟩ := List.exists_cons_of_ne_nil h.ne_nil
  have hc : Text.isWordChar c = true := h.isWordChar c List.mem_cons_self
  have hq : isQuoteMark c = false := by
    cases hq : isQuoteMark c with
    | false => rfl
    | true => rw [← isWordChar_eq_false_of_isQuoteMark hq, hc]
  refine ⟨c, cs ++ after, rfl, isBlank_eq_false_of_isWordChar hc, ?_, ?_⟩
  · rintro rfl
    cases hc
  · obtain ⟨htake, hdrop⟩ := h.takeWhile_append
    rw [readLexeme, if_neg (by simp [hq]), if_pos hc, htake, hdrop]

/-- A lexeme is read as a whole, and nothing else with it. -/
theorem IsLexeme.exists_readLexeme {before after lexeme : List Char} {t : Token}
    (h : IsLexeme before after lexeme t) :
    ∃ c cs, lexeme ++ after = c :: cs ∧ isBlank c = false ∧ c ≠ commentSign ∧
      readLexeme c cs = ⟨lexeme, t, after⟩ := by
  cases h with
  | number h =>
    have hread := h.exists_readLexeme
    rwa [ofWord_toText h.negative_eq_false] at hread
  | word h hne =>
    have hread := h.exists_readLexeme
    rwa [ofWord_of_forall_ne hne] at hread
  | @quoted mark body tail value hmark hbody htail =>
    refine ⟨mark, body ++ (tail ++ after), by simp, isBlank_eq_false_of_isQuoteMark hmark, ?_, ?_⟩
    · rintro rfl
      cases hmark
    · rw [readLexeme, if_pos hmark, hbody.readBody_eq hmark htail]
  | mark hb hs hq hw =>
    exact ⟨_, after, rfl, hb, hs, by rw [readLexeme, if_neg (by simp [hq]), if_neg (by simp [hw])]⟩

/-! ### Texts -/

theorem isLineBreak_eq_false_of_isBlank {c : Char} (h : isBlank c = false) :
    isLineBreak c = false := by
  cases hc : isLineBreak c with
  | false => rfl
  | true => rw [← isBlank_of_isLineBreak hc, h]

theorem gapLength_cons_eq_zero_iff {c : Char} {cs : List Char} :
    gapLength false (c :: cs) = 0 ↔ isBlank c = false ∧ c ≠ commentSign := by
  rw [gapLength]
  split
  · simp_all
  · split <;> simp_all

/-- A gap between two words divides them. -/
theorem Divided.append_gap {before gap after : List Char} {c : Char}
    (h : Divided before (gap ++ c :: after)) (hgap : IsGap (c :: after) gap)
    (hc : isBlank c = false) : Divided (before ++ gap) (c :: after) := by
  cases gap with
  | nil => rwa [List.append_nil]
  | cons g gap =>
    intro x hx y _ hword
    rw [List.getLast?_append_of_ne_nil _ (List.cons_ne_nil g gap)] at hx
    have hblank := hgap.isBlank_getLast (isLineBreak_eq_false_of_isBlank hc) x hx
    rw [isBlank_eq_false_of_isWordChar hword] at hblank
    cases hblank

/-- The first segment of a text is a gap and a lexeme behind it. -/
theorem isLexeme_of_next? {before cs rest : List Char} {s : Segment}
    (h : Segment.next? cs = some (s, rest)) (hdiv : Divided before cs) :
    IsGap (s.lexeme ++ rest) s.gap ∧ IsLexeme (before ++ s.gap) rest s.lexeme s.token := by
  have hgap := isGap_take_gapLength cs
  have hcut := List.take_append_drop (gapLength false cs) cs
  unfold Segment.next? at h
  split at h
  · cases h
  · rename_i c tail hdrop
    cases h
    rw [hdrop] at hgap hcut
    -- the gap was taken as far as it goes
    have hzero : gapLength false (c :: tail) = 0 := by
      have hlength := hgap.gapLength_append
      rw [hcut, List.length_take_of_le (gapLength_le false cs)] at hlength
      omega
    obtain ⟨hb, hs⟩ := gapLength_cons_eq_zero_iff.1 hzero
    rw [← hcut] at hdiv
    exact ⟨by rwa [written_append_rest_readLexeme],
      isLexeme_readLexeme hb hs (hdiv.append_gap hgap hb)⟩

/-- A gap and a lexeme behind it are the first segment of a text. -/
theorem IsLexeme.next?_append {before gap lexeme after : List Char} {t : Token}
    (h : IsLexeme before after lexeme t) (hgap : IsGap (lexeme ++ after) gap) :
    Segment.next? (gap ++ (lexeme ++ after)) = some (⟨gap, lexeme, t⟩, after) := by
  obtain ⟨c, cs, hcs, hb, hs, hread⟩ := h.exists_readLexeme
  have hlength : gapLength false (gap ++ (lexeme ++ after)) = gap.length := by
    rw [hgap.gapLength_append, hcs]
    simp [gapLength, hb, hs]
  rw [Segment.next?, hlength, List.drop_left, List.take_left, hcs]
  simp only [hread]

/-- A gap up to the end of a text holds no token. -/
theorem IsGap.segments_eq_nil {gap : List Char} (h : IsGap [] gap) : segments gap = [] := by
  have hlength := h.gapLength_append
  rw [List.append_nil] at hlength
  exact segments_of_next?_none (Segment.next?_eq_none_iff.2 hlength)

/-- A gap in front of a text makes its first gap longer. -/
theorem IsGap.next?_append {after gap : List Char} (h : IsGap after gap) :
    Segment.next? (gap ++ after) =
      (Segment.next? after).map fun p => ({ p.1 with gap := gap ++ p.1.gap }, p.2) := by
  rw [Segment.next?, Segment.next?, h.gapLength_append, List.drop_length_add_append,
    List.take_length_add_append]
  split <;> rfl

/-- A gap in front of a text moves its tokens. -/
theorem IsGap.locate_append {after gap : List Char} (h : IsGap after gap) (offset : Nat) :
    Token.locate offset (segments (gap ++ after)) =
      Token.locate (offset + gap.length) (segments after) := by
  cases hnext : Segment.next? after with
  | none =>
    rw [segments_of_next?_none hnext, segments_of_next?_none (by rw [h.next?_append, hnext]; rfl)]
    rfl
  | some p =>
    rw [segments_of_next?_some hnext,
      segments_of_next?_some (by rw [h.next?_append, hnext]; rfl), Token.locate, Token.locate]
    simp only [List.length_append, Nat.add_assoc]

/-- The token of a lexeme stands behind the gap in front of it, and the next one behind the
lexeme. -/
theorem IsLexeme.locate_append {before gap lexeme after : List Char} {t : Token}
    (h : IsLexeme before after lexeme t) (hgap : IsGap (lexeme ++ after) gap) (offset : Nat) :
    Token.locate offset (segments (gap ++ (lexeme ++ after))) =
      ⟨t, offset + gap.length⟩ ::
        Token.locate (offset + gap.length + lexeme.length) (segments after) := by
  rw [segments_of_next?_some (h.next?_append hgap), Token.locate]

/-- A text is cut into its segments. -/
theorem segmented_locate {before cs : List Char} (hdiv : Divided before cs) :
    Segmented before cs (Token.locate before.length (segments cs)) := by
  fun_induction segments cs generalizing before with
  | case1 cs h =>
    have hgap := isGap_take_gapLength cs
    rw [Segment.next?_eq_none_iff.1 h, List.drop_length, List.take_length] at hgap
    exact .last hgap
  | case2 cs s rest h ih =>
    obtain ⟨hgap, hlex⟩ := isLexeme_of_next? h hdiv
    have hrest := ih hlex.divided
    rw [← Segment.append_of_next? h, Token.locate]
    simp only [List.length_append] at hrest
    rw [← List.length_append]
    exact .next hgap hlex (by simpa using hrest)

theorem Segmented.eq_locate {before cs : List Char} {ls : List Located}
    (h : Segmented before cs ls) : ls = Token.locate before.length (segments cs) := by
  induction h with
  | last hgap => rw [hgap.segments_eq_nil, Token.locate_nil]
  | next hgap hlex _ ih =>
    rw [hlex.locate_append hgap, ih]
    simp only [List.length_append]

/-- Each token stands where its lexeme starts. -/
theorem Segmented.exists_isLexeme {before cs : List Char} {ls : List Located}
    (h : Segmented before cs ls) {l : Located} (hl : l ∈ ls) :
    ∃ front lexeme after, cs = front ++ (lexeme ++ after) ∧
      (before ++ front).length = l.start ∧ IsLexeme (before ++ front) after lexeme l.token := by
  induction h with
  | last => cases hl
  | @next before gap lexeme after t ls _ hlex _ ih =>
    rcases List.mem_cons.1 hl with rfl | hl
    · exact ⟨gap, lexeme, after, rfl, rfl, hlex⟩
    · obtain ⟨front, lexeme', after', rfl, hstart, hlex'⟩ := ih hl
      refine ⟨gap ++ (lexeme ++ front), lexeme', after', by simp, ?_, ?_⟩
      · simpa only [List.append_assoc] using hstart
      · simpa only [List.append_assoc] using hlex'

/-- The tokens stand one behind the other, and the end of the text behind them. -/
theorem Segmented.pairwise_start {before cs : List Char} {ls : List Located}
    (h : Segmented before cs ls) :
    (∀ l ∈ ls, before.length ≤ l.start) ∧
      (ls.map Located.start ++ [(before ++ cs).length]).Pairwise (· < ·) := by
  induction h with
  | last => simp
  | @next before gap lexeme after t ls _ hlex _ ih =>
    obtain ⟨hle, hlt⟩ := ih
    have hpos : 0 < lexeme.length := List.length_pos_iff.2 hlex.ne_nil
    simp only [List.length_append] at hle hlt ⊢
    refine ⟨fun l hl => ?_, ?_⟩
    · rcases List.mem_cons.1 hl with rfl | hl
      · exact Nat.le_add_right _ _
      · exact Nat.le_trans (by omega) (hle l hl)
    · rw [List.map_cons, List.cons_append, List.pairwise_cons]
      refine ⟨fun n hn => ?_, by simpa [Nat.add_assoc] using hlt⟩
      rcases List.mem_append.1 hn with hn | hn
      · obtain ⟨l, hl, rfl⟩ := List.mem_map.1 hn
        exact Nat.lt_of_lt_of_le (by dsimp only; omega) (hle l hl)
      · rw [List.mem_singleton.1 hn]
        dsimp only
        omega

/-- A text has exactly one segmentation. -/
theorem segmented_iff (text : String) (ls : List Located) :
    Segmented [] text.toList ls ↔ ls = Token.scan text := by
  constructor
  · exact Segmented.eq_locate
  · rintro rfl
    exact segmented_locate fun x hx => by cases hx

/-- **Reading a text token by token follows its segmentation.**  The text is in one way only a
sequence of gaps and lexemes; it has at most as many tokens as characters; the tokens stand one
behind the other, and the end of the text behind them; and each call hands out the next of them
and reports the place of its lexeme, up to the end of the text, at which reading stays. -/
theorem Cursor.next_follows_segmented (text : String) :
    (∀ ls, Segmented [] text.toList ls ↔ ls = Token.scan text) ∧
      (Token.scan text).length ≤ text.length ∧
      ((Token.scan text).map Located.start ++ [text.length]).Pairwise (· < ·) ∧
      ∀ k, (run call (List.replicate k .next) (ofText text)).2.next.1 = .nth text k ∧
        (run call (List.replicate k .next) (ofText text)).2.next.2.position =
          (Sighting.nth text k).start := by
  refine ⟨segmented_iff text, ?_, ?_, next_run_replicate text⟩
  · rw [Token.scan, Token.length_locate, ← String.length_toList]
    exact length_segments_le text.toList
  · have h := ((segmented_iff text _).2 rfl).pairwise_start.2
    rwa [List.nil_append, String.length_toList] at h

end SearchSql
