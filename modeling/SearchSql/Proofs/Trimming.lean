import Mathlib.Data.List.TakeWhile
import SearchSql.Command.Basic
import SearchSql.Proofs.Diagnosis
import SearchSql.Proofs.Layout

/-!
# What the commands make of a text

The commands trim a text before they read it.  White space is not the same as the blanks of the
statement language, and trimming may cut into a word, a comment or an open string.  Where only
blanks are trimmed and the last token is not an open string, the tokens stay what they are, and the
commands agree with reading the text as it was given.

## Main definitions

* `Text.lead`, `Text.trail` : the white space that trimming takes from the two ends of a text.
* `EndsUnclosed text` : the last token of the text is a quoted string without its closing mark.
* `SyntaxError.trimmed` : an error of a text, with its place in the trimmed text.
* `Command.Alike` : two commands succeed both, or fail for the same reason.

## Main statements

* `Segmented.dropBlanks` : blanks at the end of a text belong to its last gap, or to an open string.
* `Token.scan_trim` : the tokens of a text and of the trimmed text.
* `Statement.ofText_trim` : what is read from the trimmed text.
* `Command.commands_agree` : **the commands agree with each other and with reading.**
-/

namespace SearchSql

open Text
open Token (Located)

namespace Text

/-- The white space at the front of a text. -/
def lead (s : String) : List Char := s.toList.takeWhile isWhiteSpace

/-- What stands behind the trimmed text. -/
def trail (s : String) : List Char := s.toList.drop ((lead s).length + (trim s).length)

/-- A text is what trimming leaves of it, between white space. -/
theorem lead_append_trim_append_trail (s : String) :
    lead s ++ ((trim s).toList ++ trail s) = s.toList ∧ ∀ c ∈ trail s, isWhiteSpace c = true := by
  obtain ⟨dropped, hdropped, hall⟩ :=
    exists_dropEndWhile_append (p := isWhiteSpace) (s.toList.dropWhile isWhiteSpace)
  have htrim : (trim s).toList ++ dropped = s.toList.dropWhile isWhiteSpace := by
    rwa [trim, String.toList_ofList]
  have htext : lead s ++ ((trim s).toList ++ dropped) = s.toList := by
    rw [htrim, lead, List.takeWhile_append_dropWhile]
  have htrail : trail s = dropped := by
    rw [trail, ← htext, List.drop_length_add_append, ← String.length_toList, List.drop_left]
  rw [htrail]
  exact ⟨htext, hall⟩

/-- Nothing is left exactly of white space. -/
theorem trim_eq_empty_iff (s : String) : trim s = "" ↔ ∀ c ∈ s.toList, isWhiteSpace c = true := by
  constructor
  · intro h
    obtain ⟨htext, htrail⟩ := lead_append_trim_append_trail s
    rw [← htext, h]
    exact List.forall_mem_append.2
      ⟨List.all_eq_true.1 List.all_takeWhile, by simpa using htrail⟩
  · intro h
    rw [trim, List.dropWhile_eq_nil_iff.2 h]
    rfl

end Text

/-- The last token of the text is a quoted string without its closing mark. -/
def EndsUnclosed (text : String) : Prop :=
  ∃ s ∈ (segments text.toList).getLast?, LeftOpen s.lexeme s.token

/-- The error with its place in the trimmed text: the white space at the front does not count, and
the end of the text is the end of what is left. -/
def SyntaxError.trimmed (text : String) (e : SyntaxError) : SyntaxError :=
  { e with
    position := if e.found = .endOfText then (trim text).length
      else e.position - (lead text).length }

/-! ### Blanks at the ends of a text -/

theorem isGap_of_forall_isBlank {gap : List Char} (h : ∀ c ∈ gap, isBlank c = true)
    (after : List Char) : IsGap after gap := by
  induction gap with
  | nil => exact .nil
  | cons c gap ih =>
    rw [List.forall_mem_cons] at h
    exact .blank h.1 (ih h.2)

/-- The last gap of a text can be cut off anywhere. -/
theorem IsGap.of_append {gap rest : List Char} (h : IsGap [] (gap ++ rest)) : IsGap [] gap := by
  generalize hcs : gap ++ rest = cs at h
  induction h generalizing gap with
  | nil =>
    rw [(List.append_eq_nil_iff.1 hcs).1]
    exact .nil
  | blank hc _ ih =>
    cases gap with
    | nil => exact .nil
    | cons x gap =>
      obtain ⟨rfl, htail⟩ := List.cons.inj hcs
      exact .blank hc (ih htail)
  | @comment body cs hbody hhead _ ih =>
    cases gap with
    | nil => exact .nil
    | cons x gap =>
      obtain ⟨rfl, htail⟩ := List.cons.inj hcs
      rcases List.append_eq_append_iff.1 htail with ⟨more, rfl, -⟩ | ⟨gap, rfl, rfl⟩
      · -- the cut is inside the comment, which then runs to the end of the text
        have hgap : ∀ c ∈ gap, isLineBreak c = false := (List.forall_mem_append.1 hbody).1
        have hcomment : IsGap [] (commentSign :: (gap ++ [])) := .comment hgap (by simp) .nil
        rwa [List.append_nil] at hcomment
      · refine .comment hbody ?_ (ih rfl)
        cases gap with
        | nil => simp
        | cons y gap => simpa using hhead

/-- A lexeme does not become another one if what stands behind it is cut off. -/
theorem IsLexeme.of_append {before after rest lexeme : List Char} {t : Token}
    (h : IsLexeme before (after ++ rest) lexeme t) : IsLexeme before after lexeme t := by
  by_cases hafter : after = []
  · subst hafter
    have hrun : ∀ {run}, IsRun before rest run → IsRun before [] run :=
      fun hr => ⟨hr.ne_nil, hr.isWordChar, hr.left, by simp⟩
    rw [List.nil_append] at h
    cases h with
    | number hr => exact .number (hrun hr)
    | word hr hne => exact .word (hrun hr) hne
    | quoted hmark hbody htail =>
      refine .quoted hmark hbody ?_
      cases htail with
      | closed => exact .closed _
      | lineBreak => exact .endOfText
      | endOfText => exact .endOfText
      | backslash => exact .backslash
    | mark hb hs hq hw => exact .mark hb hs hq hw
  · exact h.of_head?_eq (List.head?_append_of_ne_nil _ hafter).symm

/-- Only an open string can end in a blank. -/
theorem IsLexeme.leftOpen {before after lexeme : List Char} {t : Token}
    (h : IsLexeme before after lexeme t) {c : Char} (hlast : lexeme.getLast? = some c)
    (hc : isBlank c = true) : LeftOpen lexeme t := by
  have hrun : ∀ {run}, IsRun before after run → run.getLast? = some c → False := by
    intro run hr hlast
    rw [isBlank_eq_false_of_isWordChar (hr.isWordChar c (List.mem_of_getLast? hlast))] at hc
    cases hc
  cases h with
  | number hr => exact (hrun hr hlast).elim
  | word hr _ => exact (hrun hr hlast).elim
  | @quoted mark body tail value hmark hbody htail =>
    cases htail with
    | closed =>
      rw [← List.cons_append, List.getLast?_concat] at hlast
      cases hlast
      rw [isBlank_eq_false_of_isQuoteMark hmark] at hc
      cases hc
    | lineBreak => exact .intro hmark hbody (.inl rfl)
    | endOfText => exact .intro hmark hbody (.inl rfl)
    | backslash => exact .intro hmark hbody (.inr rfl)
  | mark hb =>
    obtain rfl := Option.some.inj hlast
    rw [List.getLast_singleton, hb] at hc
    cases hc

/-- A lexeme that is not the last open string of a text does not reach into blanks at its end. -/
theorem IsLexeme.exists_append_blanks {before gap lexeme after front blanks : List Char} {t : Token}
    (h : IsLexeme before after lexeme t) (hcs : gap ++ lexeme ++ after = front ++ blanks)
    (hblanks : ∀ c ∈ blanks, isBlank c = true)
    (hopen : segments after = [] → ¬ LeftOpen lexeme t) :
    ∃ after', front = gap ++ lexeme ++ after' ∧ after = after' ++ blanks := by
  rcases List.append_eq_append_iff.1 hcs with h' | ⟨cut, hcut, rfl⟩
  · exact h'
  · by_cases hnil : cut = []
    · subst hnil
      exact ⟨[], by simpa using hcut.symm, rfl⟩
    · -- the lexeme would end in one of the blanks, with nothing but blanks behind it
      rw [List.forall_mem_append] at hblanks
      have hafter : segments after = [] :=
        (isGap_of_forall_isBlank hblanks.2 []).segments_eq_nil
      have hlast : lexeme.getLast? = some (cut.getLast hnil) := by
        have hends := congrArg List.getLast? hcut
        rwa [List.getLast?_append_of_ne_nil _ h.ne_nil, List.getLast?_append_of_ne_nil _ hnil,
          List.getLast?_eq_some_getLast hnil] at hends
      have hleft := h.leftOpen hlast (hblanks.1 _ (List.getLast_mem hnil))
      exact absurd hleft (hopen hafter)

/-- Blanks at the end of a text belong to its last gap, unless its last token is an open string. -/
theorem Segmented.dropBlanks {before cs : List Char} {ls : List Located}
    (h : Segmented before cs ls) {front blanks : List Char} (hcs : cs = front ++ blanks)
    (hblanks : ∀ c ∈ blanks, isBlank c = true)
    (hopen : ∀ s ∈ (segments cs).getLast?, ¬ LeftOpen s.lexeme s.token) :
    Segmented before front ls := by
  induction h generalizing front with
  | last hgap =>
    subst hcs
    exact .last hgap.of_append
  | @next before gap lexeme after t ls hgap hlex hrest ih =>
    rw [segments_of_next?_some (hlex.next?_append hgap)] at hopen
    rw [← List.append_assoc] at hcs
    obtain ⟨after', rfl, rfl⟩ := hlex.exists_append_blanks hcs hblanks fun hnil => by
      rw [hnil] at hopen
      exact hopen _ rfl
    have hrest' := ih rfl fun s hs => hopen s (by
      rw [List.getLast?_cons, Option.mem_def.1 hs]
      rfl)
    rw [List.append_assoc]
    refine .next (hgap.of_head?_eq ?_) hlex.of_append hrest'
    rw [List.head?_append_of_ne_nil _ hlex.ne_nil, List.head?_append_of_ne_nil _ hlex.ne_nil]

/-! ### Texts -/

/-- Where a place of the trimmed text is found in the text. -/
def Text.untrim (text : String) (place : Nat) : Nat :=
  if place < (trim text).length then place + (lead text).length else text.length

theorem Token.start_lt_length {text : String} {l : Located} (hl : l ∈ Token.scan text) :
    l.start < text.length := by
  have hpairwise := ((segmented_iff text _).2 rfl).pairwise_start.2
  rw [List.nil_append, String.length_toList, List.pairwise_append] at hpairwise
  exact hpairwise.2.2 _ (List.mem_map_of_mem hl) _ (List.mem_singleton.2 rfl)

/-- A text from which only blanks are trimmed has the tokens of the trimmed text. -/
theorem Token.scan_trim {text : String} (hblanks : ∀ c ∈ lead text ++ trail text, isBlank c = true)
    (hopen : ¬ EndsUnclosed text) :
    Token.scan text = (Token.scan (trim text)).map (Relabeling.move (untrim text)).located := by
  rw [List.forall_mem_append] at hblanks
  obtain ⟨htext, -⟩ := lead_append_trim_append_trail text
  have hsegmented := ((segmented_iff text _).2 rfl).dropBlanks
    ((List.append_assoc _ _ _).trans htext).symm hblanks.2 fun s hs hleft => hopen ⟨s, hs, hleft⟩
  have hlead := isGap_of_forall_isBlank hblanks.1 (trim text).toList
  rw [hsegmented.eq_locate, hlead.locate_append, List.length_nil, Token.locate_add]
  refine List.map_congr_left fun l hl => ?_
  rw [Relabeling.located_move, untrim, if_pos (Token.start_lt_length hl)]

/-- The place of an error goes with what it shows: only the end of the text stands behind all
tokens. -/
def SyntaxError.InText (e : SyntaxError) (text : String) : Prop :=
  if e.found = .endOfText then e.position = text.length else e.position < text.length

theorem SyntaxError.At.inText {text : String} {e : SyntaxError} {mid : List Located}
    (h : e.At text.length mid) (hmid : mid <:+ Token.scan text) : e.InText text := by
  rw [SyntaxError.InText, h.1, h.2]
  cases mid with
  | nil => exact if_pos rfl ▸ rfl
  | cons l mid =>
    rw [if_neg (by simp [Found.first])]
    exact Token.start_lt_length (hmid.subset List.mem_cons_self)

/-- An error points at the end of the text, or at a place in front of it. -/
theorem Statement.inText_of_ofText_eq_error {text : String} {e : SyntaxError}
    (h : Statement.ofText text = .error e) : e.InText text := by
  obtain ⟨rest, hread⟩ := Outcome.result_eq_error_iff.1 h
  rcases Reader.of_read_statement_failed hread with
    ⟨used, mid, hcut, -, he, -⟩ | ⟨used, mid, hcut, -, hfault⟩
  · exact he.inText ⟨used, hcut.symm⟩
  · have hmid : mid <:+ Token.scan text := ⟨used, hcut.symm⟩
    cases hfault with
    | @operator l ts rest n op _ hop _ =>
      cases ts with
      | nil => cases hop
      | cons l' ts =>
        rw [SyntaxError.InText, if_neg (by simp)]
        exact Token.start_lt_length (hmid.subset (by simp))
    | bang _ _ _ he =>
      exact he.inText (((List.suffix_cons _ _).trans (List.suffix_cons _ _)).trans hmid)

section blanks

variable {text : String} (hblanks : ∀ c ∈ lead text ++ trail text, isBlank c = true)
  (hopen : ¬ EndsUnclosed text)

include hblanks hopen

theorem Statement.ofText_eq_of_trim : Statement.ofText text =
    (Statement.ofText (trim text)).mapError (Relabeling.move (untrim text)).error := by
  have hlength : text.length = (Relabeling.move (untrim text)).place (trim text).length := by
    simp only [Relabeling.move, untrim, Nat.lt_irrefl, if_false]
  exact (Reader.relabels_statement (Relabeling.keepsParts_move (untrim text))).readText
    (Token.scan_trim hblanks hopen) hlength

/-- The error of a text and that of the trimmed text, which is found again from where it was moved
to. -/
theorem Statement.error_of_ofText_trim {e : SyntaxError}
    (h : Statement.ofText (trim text) = .error e) :
    ∃ err, Statement.ofText text = .error err ∧ err.trimmed text = e ∧
      (err.found ≠ .endOfText → (lead text).length ≤ err.position) := by
  have hread := Statement.ofText_eq_of_trim hblanks hopen
  rw [h, Relabeling.error_move] at hread
  refine ⟨_, hread, ?_⟩
  have hplace := Statement.inText_of_ofText_eq_error h
  obtain ⟨expected, found, position⟩ := e
  simp only [SyntaxError.InText] at hplace
  simp only [SyntaxError.trimmed, SyntaxError.mk.injEq, true_and]
  split at hplace
  · rename_i hfound
    rw [if_pos hfound, hplace]
    exact ⟨rfl, absurd hfound⟩
  · rename_i hfound
    rw [if_neg hfound, untrim, if_pos hplace, Nat.add_sub_cancel]
    exact ⟨rfl, fun _ => Nat.le_add_left _ _⟩

/-- What is read from the trimmed text is what is read from the text. -/
theorem Statement.ofText_trim :
    Statement.ofText (trim text) = (Statement.ofText text).mapError (SyntaxError.trimmed text) := by
  cases htrim : Statement.ofText (trim text) with
  | ok q =>
    rw [Statement.ofText_eq_of_trim hblanks hopen, htrim]
    rfl
  | error e =>
    obtain ⟨err, herr, rfl, -⟩ := Statement.error_of_ofText_trim hblanks hopen htrim
    rw [herr]
    rfl

/-- An error that does not show the end of the text stands behind the white space at its front. -/
theorem Statement.lead_le_position {err : SyntaxError} (herr : Statement.ofText text = .error err)
    (hfound : err.found ≠ .endOfText) : (lead text).length ≤ err.position := by
  have htrim := Statement.ofText_trim hblanks hopen
  rw [herr] at htrim
  obtain ⟨err', herr', -, hle⟩ := Statement.error_of_ofText_trim hblanks hopen htrim
  cases herr.symm.trans herr'
  exact hle hfound

end blanks

namespace Command

/-- Two commands succeed both, or fail for the same reason. -/
inductive Alike {α β : Type} : Except Failure α → Except Failure β → Prop
  | ok (a : α) (b : β) : Alike (.ok a) (.ok b)
  | error (f : Failure) : Alike (.error f) (.error f)

theorem alike_map {α β γ : Type} (r : Except Failure α) (f : α → β) (g : α → γ) :
    Alike (r.map f) (r.map g) := by
  cases r with
  | ok a => exact .ok _ _
  | error e => exact .error e

/-! The commands differ in what they make of the statement only. -/

theorem validate_eq_map (text : String) : validate text = (statement text).map fun _ => () := by
  rw [validate]
  cases statement text <;> rfl

theorem check_eq_map (e : Endpoint) (text : String) :
    check e text = (statement text).map (Statement.request · e) := by
  rw [check]
  cases statement text <;> rfl

theorem tree_eq_map (text : String) : tree text = (statement text).map Statement.toJson := by
  rw [tree]
  cases statement text <;> rfl

theorem statement_eq_error_noStatement_iff (text : String) :
    statement text = .error .noStatement ↔ ∀ c ∈ text.toList, isWhiteSpace c = true := by
  rw [← trim_eq_empty_iff, statement]
  split
  · simp_all
  · cases Statement.ofText (trim text) <;> simp_all [Except.mapError]

/-- Where only blanks are trimmed, the statement in a text is the one that is read from it. -/
theorem statement_eq_ofText {text : String} (hsome : ¬ ∀ c ∈ text.toList, isWhiteSpace c = true)
    (hblanks : ∀ c ∈ lead text ++ trail text, isBlank c = true) (hopen : ¬ EndsUnclosed text) :
    statement text = (Statement.ofText text).mapError fun e => .rejected (e.trimmed text) := by
  rw [← trim_eq_empty_iff] at hsome
  rw [statement, if_neg hsome, Statement.ofText_trim hblanks hopen]
  cases Statement.ofText text <;> rfl

/-- **The commands agree with each other and with reading.**  They all succeed or all fail, and
then for the same reason, which is the lack of a statement exactly if the text is white space
throughout.  If it is not, and if only blanks are trimmed and the last token is not a quoted string
without its closing mark, then the commands succeed exactly if the text itself is read as a
statement, and they show the tree and the request of this statement; else they fail with the message
of the error that the text itself has, at the place of this error in the trimmed text.  An error
that does not show the end of the text stands behind the white space at its front, so that this
place is never cut off at zero. -/
theorem commands_agree (e : Endpoint) (text : String) :
    Alike (validate text) (check e text) ∧ Alike (validate text) (tree text) ∧
      (validate text = .error .noStatement ↔ ∀ c ∈ text.toList, isWhiteSpace c = true) ∧
      ((¬ ∀ c ∈ text.toList, isWhiteSpace c = true) →
        (∀ c ∈ lead text ++ trail text, isBlank c = true) → ¬ EndsUnclosed text →
        (∀ q, Statement.ofText text = .ok q →
          tree text = .ok q.toJson ∧ check e text = .ok (q.request e)) ∧
        ∀ err, Statement.ofText text = .error err →
          tree text = .error (.rejected (err.trimmed text)) ∧
          check e text = .error (.rejected (err.trimmed text)) ∧
          (Failure.rejected (err.trimmed text)).message = "syntax error: " ++ err.message ∧
          (err.found ≠ .endOfText → (lead text).length ≤ err.position)) := by
  rw [validate_eq_map, check_eq_map, tree_eq_map, ← statement_eq_error_noStatement_iff]
  refine ⟨alike_map _ _ _, alike_map _ _ _, ?_, fun hsome hblanks hopen => ?_⟩
  · cases statement text <;> simp [Except.map]
  · rw [statement_eq_error_noStatement_iff] at hsome
    rw [statement_eq_ofText hsome hblanks hopen]
    constructor
    · intro q hq
      rw [hq]
      exact ⟨rfl, rfl⟩
    · intro err herr
      have hle := Statement.lead_le_position hblanks hopen herr
      rw [herr]
      exact ⟨rfl, rfl, rfl, hle⟩

/-- How the conditions on a text are computed. -/
theorem only_blanks_trimmed {text : String} (hsome : text.toList.all isWhiteSpace = false)
    (hblanks : (lead text ++ trail text).all isBlank = true)
    (hlast : (segments text.toList).getLast?.all (·.token.text?.isNone) = true) :
    (¬ ∀ c ∈ text.toList, isWhiteSpace c = true) ∧
      (∀ c ∈ lead text ++ trail text, isBlank c = true) ∧ ¬ EndsUnclosed text := by
  refine ⟨fun h => ?_, List.all_eq_true.1 hblanks, ?_⟩
  · rw [List.all_eq_true.2 h] at hsome
    cases hsome
  · rintro ⟨⟨gap, lexeme, token⟩, hs, hleft⟩
    rw [Option.mem_def.1 hs] at hlast
    cases hleft
    cases hlast

/-- A statement with blanks on both sides is read, and its tree and its request are shown; where its
last value is left out, the value is missed at the end of the trimmed text. -/
theorem commands_agree_between_blanks :
    let text := " SELECT a FROM t WHERE b < 2 \n"
    let broken := " SELECT a FROM t WHERE b < \n"
    (∀ s ∈ [text, broken], (¬ ∀ c ∈ s.toList, isWhiteSpace c = true) ∧
      (∀ c ∈ lead s ++ trail s, isBlank c = true) ∧ ¬ EndsUnclosed s) ∧
    tree text = .ok (.ofMembers
      [("select_fields", .list [.text "a"]), ("facet_fields", .null), ("script", .null),
        ("index", .text "t"),
        ("where_expr", .ofMembers [("kind", .text "comparison"), ("op", .text "lt"),
          ("operand", .ofMembers [("name", .text "b"), ("value", .text "2")])]),
        ("filter_expr", .null), ("order_by", .null), ("offset", .number 0),
        ("limit", .number 10)]) ∧
    check .default text = .ok
      { url := "http://localhost:9200/t/_search"
        body := .ofMembers
          [("query", .ofMembers [("query_string", .ofMembers
            [("query", .text "b:\x7b* TO 2\x7d"), ("default_operator", .text "AND")])]),
            ("fields", .list [.text "a"]), ("from", .number 0), ("size", .number 10)] } ∧
    Statement.ofText broken = .error ⟨.value, .endOfText, 28⟩ ∧
    tree broken = .error (.rejected ⟨.value, .endOfText, 25⟩) := by
  intro text broken
  have hread : Statement.ofText text = .ok
      { fields := some ["a"]
        index := "t"
        condition := some (.compare .lt "b" (.number ⟨false, 2, 0, by decide, by decide⟩)) } := by
    decide +kernel
  have hbroken : Statement.ofText broken = .error ⟨.value, .endOfText, 28⟩ := by decide +kernel
  obtain ⟨hsome, hblanks, hopen⟩ := @only_blanks_trimmed text (by decide +kernel)
    (by decide +kernel) (by decide +kernel)
  obtain ⟨hsome', hblanks', hopen'⟩ := @only_blanks_trimmed broken (by decide +kernel)
    (by decide +kernel) (by decide +kernel)
  obtain ⟨htree, hcheck⟩ := ((commands_agree .default text).2.2.2 hsome hblanks hopen).1 _ hread
  have hfail := (((commands_agree .default broken).2.2.2 hsome' hblanks' hopen').2 _ hbroken).1
  have hlength : (trim broken).length = 25 := by decide +kernel
  rw [SyntaxError.trimmed, if_pos rfl, hlength] at hfail
  have hnumber : (Decimal.mk false 2 0 (by decide) (by decide)).toText = "2" := by decide +kernel
  refine ⟨?_, htree.trans ?_, hcheck.trans ?_, hbroken, hfail⟩
  · simp only [List.forall_mem_cons]
    exact ⟨⟨hsome, hblanks, hopen⟩, ⟨hsome', hblanks', hopen'⟩, by simp⟩
  · rw [Statement.toJson]
    simp only [Json.ofOption, Expr.toJson, Json.binding, Literal.toJson, hnumber]
    rfl
  · rfl

end Command

end SearchSql
