import SearchSql.Proofs.Relabeling
import SearchSql.Proofs.Segmentation

/-!
# Layout does not matter

Blanks, and comments that a line break ends, can be put in front of any token of a text, and
behind the last one: the text keeps its tokens, and is read as before.  The one place where they
change the text is behind a quoted string that the end of the text has left open.

## Main definitions

* `Layout cs` : blanks, and comments that a line break ends.
* `LeftOpen lexeme t`, `EndsOpen text` : a quoted string without its closing mark, and a text that
  ends with one.
* `Text.insertAt`, `Text.shiftFrom` : put characters into a text, and what this does to places.

## Main statements

* `IsGap.append_layout` : layout makes a gap longer, also one that ends inside a comment.
* `IsLexeme.append_layout` : layout behind a lexeme does not change it.
* `Segmented.locate_insert` : layout at a boundary of a segmented text leaves the tokens.
* `Statement.ofText_insertAt` : **layout does not change what is read**, and moves the places
  behind it.
-/

namespace SearchSql

open Text
open Token (Located)

/-- Blanks, and comments each of which is ended by a line break. -/
inductive Layout : List Char → Prop
  | nil : Layout []
  | blank {c : Char} {cs : List Char} : isBlank c = true → Layout cs → Layout (c :: cs)
  | comment {c : Char} {body cs : List Char} : (∀ x ∈ body, isLineBreak x = false) →
      isLineBreak c = true → Layout cs → Layout (commentSign :: (body ++ c :: cs))

/-- A quoted string without a closing mark, perhaps with a backslash that has nothing to
escape. -/
inductive LeftOpen : List Char → Token → Prop
  | intro {mark : Char} {body tail value : List Char} : isQuoteMark mark = true →
      Unescapes mark body value → tail = [] ∨ tail = ['\\'] →
      LeftOpen (mark :: (body ++ tail)) (.quoted (String.ofList value))

/-- One of the tokens of `cs` is a quoted string that is open at the end of `cs`. -/
def Segmented.EndsOpen (before cs : List Char) (ls : List Located) : Prop :=
  ∃ front lexeme t, cs = front ++ lexeme ∧ LeftOpen lexeme t ∧
    ⟨t, (before ++ front).length⟩ ∈ ls

/-- The last token of the text is a quoted string that is open when the text ends. -/
def EndsOpen (text : String) : Prop := Segmented.EndsOpen [] text.toList (Token.scan text)

/-- The text with the characters of `gap` at the offset `p`. -/
def Text.insertAt (text : String) (p : Nat) (gap : String) : String :=
  String.ofList (text.toList.take p ++ (gap.toList ++ text.toList.drop p))

/-- Where a place of a text is found after `n` characters were put in at `p`. -/
def Text.shiftFrom (p n place : Nat) : Nat := if p ≤ place then place + n else place

theorem Text.shiftFrom_of_le {p place : Nat} (h : p ≤ place) (n : Nat) :
    shiftFrom p n place = place + n := if_pos h

theorem Text.shiftFrom_of_lt {p place : Nat} (h : place < p) (n : Nat) :
    shiftFrom p n place = place := if_neg (by omega)

/-! ### Gaps -/

theorem Layout.isGap {g : List Char} (h : Layout g) (after : List Char) : IsGap after g := by
  induction h with
  | nil => exact .nil
  | blank hc _ ih => exact .blank hc ih
  | comment hbody hc _ ih =>
    exact .comment hbody (by simpa using hc) (.blank (isBlank_of_isLineBreak hc) ih)

/-- Layout behind an open comment: the comment goes on up to the first line break. -/
theorem Layout.inComment {g : List Char} (h : Layout g) {after : List Char}
    (hafter : ∀ c ∈ after.head?, isLineBreak c = true) : InComment after g := by
  have hbreak : ∀ {c : Char} {cs : List Char}, isLineBreak c = true → Layout cs →
      InComment after (c :: cs) := fun hc hcs =>
    ⟨[], _, rfl, by simp, by simpa using hc, .blank (isBlank_of_isLineBreak hc) (hcs.isGap _)⟩
  induction h with
  | nil => exact ⟨[], [], rfl, by simp, hafter, .nil⟩
  | @blank c cs hblank hcs ih =>
    by_cases hc : isLineBreak c = true
    · exact hbreak hc hcs
    · exact ih.cons (by simpa using hc)
  | @comment c body cs hbody hc hcs _ =>
    refine InComment.cons rfl ?_
    induction body with
    | nil => exact hbreak hc hcs
    | cons b body ih =>
      rw [List.forall_mem_cons] at hbody
      exact (ih hbody.2).cons hbody.1

theorem IsGap.append_layout {after gap g : List Char} (h : IsGap after gap) (hg : Layout g) :
    IsGap after (gap ++ g) := by
  induction h with
  | nil => exact hg.isGap after
  | blank hc _ ih => exact .blank hc ih
  | @comment body cs hbody hhead _ ih =>
    rw [List.cons_append, List.append_assoc]
    cases cs with
    | nil =>
      -- the gap ends inside this comment, which takes in the layout up to its first line break
      obtain ⟨body', gap', rfl, hbody', hhead', hgap'⟩ := hg.inComment hhead
      rw [List.nil_append, ← List.append_assoc]
      exact .comment (List.forall_mem_append.2 ⟨hbody, hbody'⟩) hhead' hgap'
    | cons c cs => exact .comment hbody hhead ih

/-- What a gap or a lexeme sees of the character behind it. -/
def Text.border (c : Char) : Bool × Bool := (isLineBreak c, isWordChar c)

/-- Of what stands behind a gap, only the kind of the first character matters. -/
theorem IsGap.of_border_eq {after after' gap : List Char} (h : IsGap after gap)
    (hhead : after'.head?.map border = after.head?.map border) : IsGap after' gap := by
  induction h with
  | nil => exact .nil
  | blank hc _ ih => exact .blank hc ih
  | @comment body cs hbody hbreak _ ih =>
    refine .comment hbody ?_ ih
    cases cs with
    | nil =>
      intro c hc
      rw [List.nil_append] at hc hbreak
      rw [Option.mem_def.1 hc] at hhead
      obtain ⟨x, hx, hxc⟩ := Option.map_eq_some_iff.1 hhead.symm
      rw [← (Prod.mk.inj hxc).1]
      exact hbreak x hx
    | cons x cs => exact hbreak

theorem IsGap.of_head?_eq {after after' gap : List Char} (h : IsGap after gap)
    (hhead : after'.head? = after.head?) : IsGap after' gap :=
  h.of_border_eq (congrArg _ hhead)

/-! ### Lexemes -/

/-- Of what stands behind a lexeme, only the kind of the first character matters. -/
theorem IsLexeme.of_border_eq {before after after' lexeme : List Char} {t : Token}
    (h : IsLexeme before after lexeme t)
    (hhead : after'.head?.map border = after.head?.map border) :
    IsLexeme before after' lexeme t := by
  have hrun : ∀ {run}, IsRun before after run → IsRun before after' run := fun hr => by
    refine ⟨hr.ne_nil, hr.isWordChar, hr.left, fun c hc => ?_⟩
    rw [Option.mem_def.1 hc] at hhead
    obtain ⟨x, hx, hxc⟩ := Option.map_eq_some_iff.1 hhead.symm
    rw [← (Prod.mk.inj hxc).2]
    exact hr.right x hx
  cases h with
  | number hr => exact .number (hrun hr)
  | word hr hne => exact .word (hrun hr) hne
  | quoted hmark hbody htail =>
    refine .quoted hmark hbody ?_
    cases htail with
    | closed => exact .closed _
    | lineBreak rest hc =>
      obtain ⟨x, hx, hxc⟩ := Option.map_eq_some_iff.1 hhead
      obtain ⟨rest', rfl⟩ := List.head?_eq_some_iff.1 hx
      exact .lineBreak rest' ((Prod.mk.inj hxc).1.trans hc)
    | endOfText =>
      rw [List.head?_eq_none_iff.1 (Option.map_eq_none_iff.1 hhead)]
      exact .endOfText
    | backslash =>
      rw [List.head?_eq_none_iff.1 (Option.map_eq_none_iff.1 hhead)]
      exact .backslash
  | mark hb hs hq hw => exact .mark hb hs hq hw

theorem IsLexeme.of_head?_eq {before after after' lexeme : List Char} {t : Token}
    (h : IsLexeme before after lexeme t) (hhead : after'.head? = after.head?) :
    IsLexeme before after' lexeme t :=
  h.of_border_eq (congrArg _ hhead)

theorem Layout.isWordChar_head {g : List Char} (h : Layout g) :
    ∀ c ∈ g.head?, isWordChar c = false := by
  cases h with
  | nil => simp
  | @blank c cs hc _ =>
    rintro _ ⟨⟩
    by_contra hw
    rw [isBlank_eq_false_of_isWordChar (by simpa using hw)] at hc
    cases hc
  | comment =>
    rintro _ ⟨⟩
    rfl

/-- Layout right behind a lexeme does not change it, unless it is an open string or the line break
that ends one is moved away. -/
theorem IsLexeme.append_layout {before after lexeme g : List Char} {t : Token}
    (h : IsLexeme before after lexeme t) (hg : Layout g)
    (hafter : ∀ c ∈ after.head?, isBlank c = false)
    (hopen : after = [] → ¬ LeftOpen lexeme t) : IsLexeme before (g ++ after) lexeme t := by
  have hrun : ∀ {run}, IsRun before after run → IsRun before (g ++ after) run := fun hr => by
    refine ⟨hr.ne_nil, hr.isWordChar, hr.left, ?_⟩
    cases g with
    | nil => exact hr.right
    | cons c g => exact hg.isWordChar_head
  cases h with
  | number hr => exact .number (hrun hr)
  | word hr hne => exact .word (hrun hr) hne
  | quoted hmark hbody htail =>
    refine .quoted hmark hbody ?_
    cases htail with
    | closed => exact .closed _
    | lineBreak rest hc =>
      have hblank := hafter _ rfl
      rw [isBlank_of_isLineBreak hc] at hblank
      cases hblank
    | endOfText => exact absurd (.intro hmark hbody (.inl rfl)) (hopen rfl)
    | backslash => exact absurd (.intro hmark hbody (.inr rfl)) (hopen rfl)
  | mark hb hs hq hw => exact .mark hb hs hq hw

/-! ### Texts -/

namespace Segmented

variable {before cs : List Char} {ls : List Located}

/-- The boundaries of a text: where its tokens start, and where it ends. -/
def boundaries (before cs : List Char) (ls : List Located) : List Nat :=
  ls.map Located.start ++ [(before ++ cs).length]

theorem mem_boundaries_next {gap lexeme after : List Char} {t : Token} {p : Nat} :
    p ∈ boundaries before (gap ++ (lexeme ++ after)) (⟨t, (before ++ gap).length⟩ :: ls) ↔
      p = (before ++ gap).length ∨ p ∈ boundaries (before ++ gap ++ lexeme) after ls := by
  simp only [boundaries, List.map_cons, List.cons_append, List.mem_cons, List.append_assoc]

theorem le_of_mem_boundaries (h : Segmented before cs ls) {p : Nat}
    (hp : p ∈ boundaries before cs ls) : before.length ≤ p ∧ p ≤ (before ++ cs).length := by
  obtain ⟨hle, hlt⟩ := h.pairwise_start
  rw [List.pairwise_append] at hlt
  rcases List.mem_append.1 hp with hp | hp
  · obtain ⟨l, hl, rfl⟩ := List.mem_map.1 hp
    exact ⟨hle l hl, Nat.le_of_lt (hlt.2.2 _ hp _ (List.mem_singleton.2 rfl))⟩
  · rw [List.mem_singleton.1 hp, List.length_append]
    omega

/-- A text whose start is a boundary does not start with a gap. -/
theorem isBlank_head_of_mem_boundaries (h : Segmented before cs ls)
    (hp : before.length ∈ boundaries before cs ls) : ∀ c ∈ cs.head?, isBlank c = false := by
  cases h with
  | last hgap =>
    have hlength := List.mem_singleton.1 hp
    rw [List.length_append] at hlength
    rw [List.eq_nil_of_length_eq_zero (by omega : cs.length = 0)]
    simp
  | @next _ gap lexeme after t ls hgap hlex hrest =>
    rcases mem_boundaries_next.1 hp with hp | hp
    · rw [List.length_append] at hp
      rw [List.eq_nil_of_length_eq_zero (by omega : gap.length = 0)]
      obtain ⟨c, cs, hcs, hb, -, -⟩ := hlex.exists_readLexeme
      rw [List.nil_append, hcs]
      rintro _ ⟨⟩
      exact hb
    · -- the later boundaries are behind the first lexeme
      have hpos : 0 < lexeme.length := List.length_pos_iff.2 hlex.ne_nil
      have hle := (hrest.le_of_mem_boundaries hp).1
      simp only [List.length_append] at hle
      omega

theorem EndsOpen.cons {gap lexeme after : List Char} {l : Located}
    (h : EndsOpen (before ++ gap ++ lexeme) after ls) :
    EndsOpen before (gap ++ (lexeme ++ after)) (l :: ls) := by
  obtain ⟨front, last, t, rfl, hopen, hmem⟩ := h
  refine ⟨gap ++ (lexeme ++ front), last, t, by simp, hopen, List.mem_cons_of_mem l ?_⟩
  simpa only [List.append_assoc] using hmem

/-- Behind the place at which characters are put in, everything moves. -/
theorem locate_add (h : Segmented before cs ls) {p : Nat} (hp : p ≤ before.length) (n : Nat) :
    Token.locate (before.length + n) (segments cs) =
      ls.map (Relabeling.move (shiftFrom p n)).located := by
  rw [Token.locate_add, ← h.eq_locate]
  refine List.map_congr_left fun l hl => ?_
  have hle := h.pairwise_start.1 l hl
  rw [Relabeling.located_move, shiftFrom_of_le (by omega)]

/-- A lexeme stays one if layout is put in at a boundary behind it. -/
theorem isLexeme_insert {lexeme front back g : List Char} {t : Token}
    (h : Segmented (before ++ lexeme) (front ++ back) ls)
    (hlex : IsLexeme before (front ++ back) lexeme t) (hg : Layout g)
    (hp : (before ++ lexeme ++ front).length ∈ boundaries (before ++ lexeme) (front ++ back) ls)
    (hopen : front ++ back = [] → ¬ LeftOpen lexeme t) :
    IsLexeme before (front ++ (g ++ back)) lexeme t := by
  by_cases hfront : front = []
  · subst hfront
    rw [List.append_nil] at hp
    exact hlex.append_layout hg (h.isBlank_head_of_mem_boundaries hp) hopen
  · refine hlex.of_head?_eq ?_
    rw [List.head?_append_of_ne_nil _ hfront, List.head?_append_of_ne_nil _ hfront]

/-- In front of a lexeme, layout makes the gap longer. -/
theorem locate_insert_gap {gap lexeme after g : List Char} {t : Token}
    (hgap : IsGap (lexeme ++ after) gap) (hlex : IsLexeme (before ++ gap) after lexeme t)
    (hrest : Segmented (before ++ gap ++ lexeme) after ls) (hg : Layout g) :
    Token.locate before.length (segments (gap ++ (g ++ (lexeme ++ after)))) =
      (⟨t, (before ++ gap).length⟩ :: ls).map
        (Relabeling.move (shiftFrom (before ++ gap).length g.length)).located := by
  have hfirst : before.length + (gap ++ g).length = (before ++ gap).length + g.length := by
    simp only [List.length_append]
    omega
  have hbehind : (before ++ gap).length + g.length + lexeme.length =
      (before ++ gap ++ lexeme).length + g.length := by
    simp only [List.length_append]
    omega
  have hle : (before ++ gap).length ≤ (before ++ gap ++ lexeme).length := by simp
  rw [← List.append_assoc, hlex.locate_append (hgap.append_layout hg), hfirst, hbehind,
    hrest.locate_add hle, List.map_cons, Relabeling.located_move, shiftFrom_of_le (Nat.le_refl _)]

/-- Layout at a boundary leaves the tokens, and moves those from the boundary on. -/
theorem locate_insert (h : Segmented before cs ls) {g : List Char} (hg : Layout g)
    {front back : List Char} (hcs : cs = front ++ back)
    (hp : (before ++ front).length ∈ boundaries before cs ls)
    (hopen : back = [] → ¬ EndsOpen before cs ls) :
    Token.locate before.length (segments (front ++ (g ++ back))) =
      ls.map (Relabeling.move (shiftFrom (before ++ front).length g.length)).located := by
  induction h generalizing front with
  | @last before gap hgap =>
    have hlength := congrArg List.length hcs
    have hend := List.mem_singleton.1 hp
    simp only [List.length_append] at hend hlength
    obtain rfl : back = [] := List.eq_nil_of_length_eq_zero (by omega)
    rw [List.append_nil] at hcs ⊢
    rw [← hcs, (hgap.append_layout hg).segments_eq_nil]
    rfl
  | @next before gap lexeme after t ls hgap hlex hrest ih =>
    rcases mem_boundaries_next.1 hp with hp | hp
    · obtain ⟨rfl, rfl⟩ := List.append_inj hcs (by simpa using hp.symm)
      exact locate_insert_gap hgap hlex hrest hg
    · -- the first segment stays, and the layout is put in behind it
      have hle := (hrest.le_of_mem_boundaries hp).1
      have hlength : (gap ++ lexeme).length ≤ front.length := by
        simp only [List.length_append] at hle ⊢
        omega
      obtain ⟨front, rfl⟩ : gap ++ lexeme <+: front :=
        List.prefix_of_prefix_length_le ⟨after, (List.append_assoc _ _ _).trans hcs⟩
          (List.prefix_append front back) hlength
      obtain rfl : after = front ++ back := by
        simpa only [List.append_assoc, List.append_cancel_left_eq] using hcs
      have hplace : before ++ (gap ++ lexeme ++ front) = before ++ gap ++ lexeme ++ front := by
        simp only [List.append_assoc]
      rw [hplace] at hp ⊢
      have hlex' := hrest.isLexeme_insert hlex hg hp fun hnil hopen' => by
        obtain ⟨rfl, rfl⟩ := List.append_eq_nil_iff.1 hnil
        exact hopen rfl ⟨gap, lexeme, t, by simp, hopen', List.mem_cons_self⟩
      have hgap' : IsGap (lexeme ++ (front ++ (g ++ back))) gap := by
        refine hgap.of_head?_eq ?_
        rw [List.head?_append_of_ne_nil _ hlex.ne_nil, List.head?_append_of_ne_nil _ hlex.ne_nil]
      have hrest' := ih rfl hp fun hback hends => hopen hback hends.cons
      have hlt : (before ++ gap).length < (before ++ gap ++ lexeme ++ front).length := by
        have hpos : 0 < lexeme.length := List.length_pos_iff.2 hlex.ne_nil
        simp only [List.length_append]
        omega
      rw [List.append_assoc (gap ++ lexeme), List.append_assoc gap, hlex'.locate_append hgap',
        ← List.length_append, ← List.length_append, hrest', List.map_cons,
        Relabeling.located_move, shiftFrom_of_lt hlt]

end Segmented

/-- Layout at a boundary leaves the tokens of a text, and moves those from the boundary on. -/
theorem Token.scan_insertAt {text gap : String} {p : Nat}
    (hp : p ∈ (Sighting.ofText text).map Sighting.start) (hgap : Layout gap.toList)
    (hopen : p = text.length → ¬ EndsOpen text) :
    Token.scan (insertAt text p gap) =
        (Token.scan text).map (Relabeling.move (shiftFrom p gap.length)).located ∧
      (insertAt text p gap).length = shiftFrom p gap.length text.length := by
  have hseg := (segmented_iff text _).2 rfl
  have hbound : p ∈ Segmented.boundaries [] text.toList (Token.scan text) := by
    rw [Segmented.boundaries, List.nil_append, String.length_toList]
    simpa [Sighting.ofText] using hp
  have hle := (hseg.le_of_mem_boundaries hbound).2
  have htake : (text.toList.take p).length = p := List.length_take_of_le hle
  rw [List.nil_append, String.length_toList] at hle
  constructor
  · have h := hseg.locate_insert hgap (List.take_append_drop p text.toList).symm
      (by rwa [List.nil_append, htake]) fun hback => hopen <| Nat.le_antisymm hle <| by
        rwa [List.drop_eq_nil_iff, String.length_toList] at hback
    rw [List.nil_append, htake, String.length_toList] at h
    rwa [Token.scan, insertAt, String.toList_ofList]
  · rw [shiftFrom_of_le hle, insertAt, String.length_ofList, List.length_append, htake,
      List.length_append, List.length_drop, String.length_toList, String.length_toList]
    omega

/-- **Layout does not change what is read.**  Put blanks, and comments that a line break ends, into
a text where one of its tokens or its end stands, though not behind a quoted string that is open
when the text ends.  The new text has the same tokens, and those from this place on are moved by
the length of what was put in.  The same statement is read, or the same error is found, with its
place moved if it is one of these. -/
theorem Statement.ofText_insertAt (text gap : String) (p : Nat)
    (hp : p ∈ (Sighting.ofText text).map Sighting.start) (hgap : Layout gap.toList)
    (hopen : p = text.length → ¬ EndsOpen text) :
    Sighting.ofText (insertAt text p gap) = (Sighting.ofText text).map
        (fun s => { s with start := shiftFrom p gap.length s.start }) ∧
      Statement.ofText (insertAt text p gap) = (Statement.ofText text).mapError
        (fun e => { e with position := shiftFrom p gap.length e.position }) := by
  obtain ⟨hscan, hlength⟩ := Token.scan_insertAt hp hgap hopen
  constructor
  · rw [Sighting.ofText, hscan, hlength, Sighting.ofText, List.map_append, List.map_map,
      List.map_map]
    rfl
  · have h := (Reader.relabels_statement (Relabeling.keepsParts_move _)).readText hscan hlength
    rwa [Relabeling.error_move] at h

/-- A comment between the two characters of an operator, in front of an error. -/
theorem Statement.ofText_insertAt_comment_in_operator :
    let text := "SELECT a FROM t WHERE b<=c"
    Statement.ofText text = .error ⟨.value, .token (.word "c"), 25⟩ ∧
      insertAt text 24 "# x\n" = "SELECT a FROM t WHERE b<# x\n=c" ∧
      Statement.ofText (insertAt text 24 "# x\n") = .error ⟨.value, .token (.word "c"), 29⟩ := by
  intro text
  have hread : Statement.ofText text = .error ⟨.value, .token (.word "c"), 25⟩ := by
    decide +kernel
  have hcomment : Layout "# x\n".toList :=
    @Layout.comment '\n' [' ', 'x'] [] (by simp [isLineBreak]) rfl .nil
  have hend : 24 ≠ text.length := by decide
  have h := (Statement.ofText_insertAt text "# x\n" 24 (by decide +kernel) hcomment
    fun h => absurd h hend).2
  rw [hread] at h
  exact ⟨hread, by decide, h⟩

-- behind a string that is left open, a blank would belong to the string
example : Token.scan "'a" = [⟨.quoted "a", 0⟩] ∧ Token.scan "'a " = [⟨.quoted "a ", 0⟩] := by
  decide +kernel

end SearchSql
