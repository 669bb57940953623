import SearchSql.Proofs.Layout

/-!
# A line break divides a text

Whatever a text ends in, a word, a comment or a quoted string without its closing mark, a line
break behind it ends this too: what stands in front of the line break and what stands behind it are
cut into tokens apart from each other.  The one thing that reaches over a line break is a backslash
in an open string, which takes the line break for the character that it escapes.

## Main definitions

* `Escaping lexeme t` : a quoted string that ends in a backslash with nothing to escape.
* `EndsEscaping text` : a text that ends with one.

## Main statements

* `IsGap.append_lineBreak`, `IsLexeme.of_lineBreak` : a line break at the end of a text ends the
  last gap and the last lexeme.
* `Segmented.locate_lineBreak` : the tokens in front of a line break and behind it.
* `Unescapes.readBody_append`, `EndsEscaping.exists_notMem_scan` : what a backslash does to a line
  break.
* `Sighting.ofText_lineBreak_iff` : **a line break isolates the tokens on its two sides**, exactly
  if no backslash reaches over it.
-/

namespace SearchSql

open Text
open Token (Located)

/-- A quoted string without a closing mark, whose last character is a backslash that has nothing to
escape. -/
inductive Escaping : List Char → Token → Prop
  | intro {mark : Char} {body value : List Char} : isQuoteMark mark = true →
      Unescapes mark body value →
      Escaping (mark :: (body ++ ['\\'])) (.quoted (String.ofList value))

/-- One of the tokens of `cs` is a string that ends in a backslash, at the end of `cs`. -/
def Segmented.EndsEscaping (before cs : List Char) (ls : List Located) : Prop :=
  ∃ front lexeme t, cs = front ++ lexeme ∧ Escaping lexeme t ∧
    ⟨t, (before ++ front).length⟩ ∈ ls

/-- The text ends inside a quoted string, in a backslash that has nothing to escape. -/
def EndsEscaping (text : String) : Prop :=
  Segmented.EndsEscaping [] text.toList (Token.scan text)

theorem EndsEscaping.getLast?_eq {text : String} (h : EndsEscaping text) :
    text.toList.getLast? = some '\\' := by
  obtain ⟨front, lexeme, t, hcs, ⟨_, _⟩, -⟩ := h
  rw [hcs, ← List.cons_append, ← List.append_assoc, List.getLast?_concat]

/-! ### What a line break ends -/

section lineBreak

variable {c : Char} (hc : isLineBreak c = true)

include hc

/-- The last gap of a text and a line break are a gap, whatever stands behind. -/
theorem IsGap.append_lineBreak {gap : List Char} (h : IsGap [] gap) (after : List Char) :
    IsGap after (gap ++ [c]) := by
  induction h with
  | nil => exact .blank (isBlank_of_isLineBreak hc) .nil
  | blank hblank _ ih => exact .blank hblank ih
  | @comment body cs hbody hhead _ ih =>
    rw [List.cons_append, List.append_assoc]
    refine .comment hbody ?_ ih
    cases cs with
    | nil => simpa using hc
    | cons x cs => simpa using hhead

/-- The last lexeme of a text stays one in front of a line break. -/
theorem IsLexeme.of_lineBreak {before lexeme : List Char} {t : Token}
    (h : IsLexeme before [] lexeme t) (hopen : ¬ Escaping lexeme t) (after : List Char) :
    IsLexeme before (c :: after) lexeme t := by
  have hrun : ∀ {run}, IsRun before [] run → IsRun before (c :: after) run := by
    refine fun hr => ⟨hr.ne_nil, hr.isWordChar, hr.left, ?_⟩
    rintro _ ⟨⟩
    by_contra hw
    have hblank := isBlank_eq_false_of_isWordChar (by simpa using hw)
    rw [isBlank_of_isLineBreak hc] at hblank
    cases hblank
  cases h with
  | number hr => exact .number (hrun hr)
  | word hr hne => exact .word (hrun hr) hne
  | quoted hmark hbody htail =>
    refine .quoted hmark hbody ?_
    cases htail with
    | closed => exact .closed _
    | endOfText => exact .lineBreak after hc
    | backslash => exact absurd (.intro hmark hbody) hopen
  | mark hb hs hq hw => exact .mark hb hs hq hw

/-- The tokens in front of a line break, and those behind it, which is one place further. -/
theorem Segmented.locate_lineBreak {before cs : List Char} {ls : List Located}
    (h : Segmented before cs ls) (hopen : ¬ EndsEscaping before cs ls) (after : List Char) :
    Token.locate before.length (segments (cs ++ c :: after)) =
      ls ++ Token.locate ((before ++ cs).length + 1) (segments after) := by
  induction h with
  | @last before gap hgap =>
    rw [List.append_cons, (hgap.append_lineBreak hc after).locate_append]
    simp [Nat.add_assoc]
  | @next before gap lexeme rest t ls hgap hlex _ ih =>
    have hlex' : IsLexeme (before ++ gap) (rest ++ c :: after) lexeme t := by
      cases rest with
      | nil =>
        refine hlex.of_lineBreak hc (fun hescaping => hopen ?_) after
        exact ⟨gap, lexeme, t, by simp, hescaping, List.mem_cons_self⟩
      | cons x rest => exact hlex.of_head?_eq rfl
    have hgap' : IsGap (lexeme ++ (rest ++ c :: after)) gap := by
      refine hgap.of_head?_eq ?_
      rw [List.head?_append_of_ne_nil _ hlex.ne_nil, List.head?_append_of_ne_nil _ hlex.ne_nil]
    have hrest : ¬ EndsEscaping (before ++ gap ++ lexeme) rest ls := by
      rintro ⟨front, last, t', rfl, hescaping, hmem⟩
      refine hopen ⟨gap ++ (lexeme ++ front), last, t', by simp, hescaping, ?_⟩
      exact List.mem_cons_of_mem _ (by simpa only [List.append_assoc] using hmem)
    rw [List.append_assoc, List.append_assoc, hlex'.locate_append hgap', ← List.length_append,
      ← List.length_append, ih hrest]
    simp only [List.cons_append, List.append_assoc]

end lineBreak

/-! ### What a backslash takes in -/

/-- The inside of a string is read character by character, whatever stands behind it. -/
theorem Unescapes.readBody_append {mark : Char} (hmark : isQuoteMark mark = true)
    {body value : List Char} (h : Unescapes mark body value) (rest : List Char) :
    (readBody mark (body ++ rest)).value = value ++ (readBody mark rest).value := by
  induction h with
  | nil => rfl
  | plain hm hb he _ ih =>
    rw [List.cons_append, readBody_plain hm hb he]
    exact congrArg _ ih
  | escaped he _ ih =>
    have hslash : '\\' ≠ mark := by
      rintro rfl
      cases hmark
    rw [List.cons_append, List.cons_append, readBody_escaped hslash, escapes_iff.1 he]
    exact congrArg _ ih

/-- A backslash at the end of a text takes in the character behind it, so that the string that it
ends is another one. -/
theorem EndsEscaping.exists_notMem_scan {text : String} (h : EndsEscaping text) (c : Char)
    (text' : String) :
    ∃ l ∈ Token.scan text, l ∉ Token.scan (text ++ String.singleton c ++ text') := by
  obtain ⟨front, _, _, hcs, @⟨mark, body, value, hmark, hbody⟩, hmem⟩ := h
  refine ⟨_, hmem, fun hmem' => ?_⟩
  obtain ⟨front', lexeme, after, hcs', hstart, hlex⟩ :=
    ((segmented_iff _ _).2 rfl).exists_isLexeme hmem'
  obtain ⟨x, xs, hxs, -, -, hread⟩ := hlex.exists_readLexeme
  have hjoined : (text ++ String.singleton c ++ text').toList =
      front ++ mark :: (body ++ '\\' :: c :: text'.toList) := by
    simp [hcs]
  rw [hjoined, hxs] at hcs'
  obtain ⟨-, hback⟩ := List.append_inj hcs' (by simpa using hstart.symm)
  obtain ⟨rfl, rfl⟩ := List.cons.inj hback
  have hslash : '\\' ≠ mark := by
    rintro rfl
    cases hmark
  have htoken := congrArg Lexeme.token hread
  rw [readLexeme, if_pos hmark] at htoken
  have hvalue := String.ofList_injective (Token.quoted.inj htoken)
  rw [hbody.readBody_append hmark, readBody_escaped hslash] at hvalue
  have hlength := congrArg List.length hvalue
  simp [Body.push] at hlength

/-! ### Texts -/

theorem Sighting.mem_ofText_iff {text : String} {l : Located} :
    ⟨some l.token, l.start⟩ ∈ Sighting.ofText text ↔ l ∈ Token.scan text := by
  constructor
  · intro h
    simp only [Sighting.ofText, List.mem_append, List.mem_map, List.mem_singleton,
      Sighting.mk.injEq, Option.some.injEq, reduceCtorEq, false_and, or_false] at h
    obtain ⟨⟨token, start⟩, h, rfl, rfl⟩ := h
    exact h
  · exact fun h => List.mem_append_left _ (List.mem_map_of_mem h)

theorem Sighting.dropLast_ofText (text : String) :
    (Sighting.ofText text).dropLast = (Token.scan text).map fun l => ⟨some l.token, l.start⟩ :=
  List.dropLast_concat

theorem Token.scan_lineBreak {text : String} (hopen : ¬ EndsEscaping text) (text' : String)
    {c : Char} (hc : isLineBreak c = true) :
    Token.scan (text ++ String.singleton c ++ text') = Token.scan text ++
      (Token.scan text').map fun l => { l with start := l.start + (text.length + 1) } := by
  have h := ((segmented_iff text _).2 rfl).locate_lineBreak hc hopen text'.toList
  rw [List.nil_append, String.length_toList, List.length_nil] at h
  have hjoined : (text ++ String.singleton c ++ text').toList =
      text.toList ++ c :: text'.toList := by
    simp
  have hmoved := Token.locate_add 0 (text.length + 1) (segments text'.toList)
  rw [Nat.zero_add] at hmoved
  rw [Token.scan, hjoined, h, hmoved]
  rfl

/-- **A line break isolates the tokens on its two sides**, exactly if the text in front of it does
not end inside a quoted string in a backslash with nothing to escape.  Then the tokens of both
texts are the tokens of the first one, at their places, and those of the second one and its end,
moved by the length of the first text and the line break. -/
theorem Sighting.ofText_lineBreak_iff (text text' : String) (c : Char)
    (hc : isLineBreak c = true) :
    Sighting.ofText (text ++ String.singleton c ++ text') =
        (Sighting.ofText text).dropLast ++ (Sighting.ofText text').map
          (fun s => { s with start := s.start + (text.length + 1) }) ↔
      ¬ EndsEscaping text := by
  rw [Sighting.dropLast_ofText]
  constructor
  · intro heq hescaping
    obtain ⟨l, hl, hl'⟩ := hescaping.exists_notMem_scan c text'
    refine hl' (Sighting.mem_ofText_iff.1 ?_)
    rw [heq]
    exact List.mem_append_left _ (List.mem_map_of_mem hl)
  · intro hopen
    have hlength : (text ++ String.singleton c ++ text').length =
        text'.length + (text.length + 1) := by
      simp only [String.length_append, String.length_singleton]
      omega
    rw [Sighting.ofText, Token.scan_lineBreak hopen text' hc, hlength, Sighting.ofText,
      List.map_append, List.map_append, List.map_map, List.map_map, List.append_assoc]
    rfl

/-- Neither a string without its closing mark nor a quote mark in a comment reaches over a line
break. -/
theorem Sighting.ofText_lineBreak_open_string :
    isLineBreak '\n' = true ∧
      Sighting.ofText ("a 'b" ++ String.singleton '\n' ++ "c # 'd") =
        [⟨some (.word "a"), 0⟩, ⟨some (.quoted "b"), 2⟩, ⟨some (.word "c"), 5⟩, ⟨none, 11⟩] := by
  have hopen : ¬ EndsEscaping "a 'b" := by
    intro h
    have hlast := h.getLast?_eq
    revert hlast
    decide
  refine ⟨rfl, ((Sighting.ofText_lineBreak_iff "a 'b" "c # 'd" '\n' rfl).2 hopen).trans ?_⟩
  decide +kernel

-- a backslash in an open string takes in the line break, and the string goes on
example : Token.scan "'a\\\nb" = [⟨.quoted "a\nb", 0⟩] := by
  decide +kernel

end SearchSql
