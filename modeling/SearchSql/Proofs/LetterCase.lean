import Mathlib.Data.List.Forall2
import SearchSql.Proofs.Layout
import SearchSql.Proofs.Origin
import SearchSql.Proofs.RoundTrip

/-!
# The case of keywords does not matter

Keywords may be written in letters of either case, and nothing of how they are written comes into
a statement.

## Main definitions

* `SameUpToCase` : two texts differ in the case of ASCII letters only.
* `Recased text text'` : `text'` is `text` with letters of its keywords in the other case.
* `Token.respelled` : a keyword in upper case, and any other token as it is.

## Main statements

* `Token.scan_recased` : in a recased text, the same tokens stand at the same places, except that
  keywords may be spelled differently.
* `Relabeling.keepsParts_respell` : the spelling of a keyword makes no difference to its parts.
* `Statement.ofText_recased` : **the case of keywords does not matter, and nothing is made of
  them.**
-/

namespace SearchSql

open Text Grammar
open Token (Located)

/-- The two texts differ at most in the case of ASCII letters. -/
def SameUpToCase (s s' : String) : Prop := s.toList.map Char.toUpper = s'.toList.map Char.toUpper

/-- One of the tokens is a word that spells a keyword, and `i` is the place of one of its
characters. -/
def InKeyword (ls : List Located) (i : Nat) : Prop :=
  ∃ l ∈ ls, l.token.keyword?.isSome = true ∧ l.start ≤ i ∧
    ∃ run ∈ l.token.run?, i < l.start + run.length

/-- The characters `cs'` are the characters `cs`, which stand from the place `n` on, except that
letters at places in `P` may have changed their case. -/
def Recasing (P : Nat → Prop) (n : Nat) (cs' cs : List Char) : Prop :=
  List.Forall₂ (fun c' p => c' = p.1 ∨ P p.2 ∧ c'.toUpper = p.1.toUpper) cs' (cs.zipIdx n)

/-- The second text is the first one, except that letters inside of words that spell keywords may
have changed their case. -/
def Recased (text text' : String) : Prop :=
  Recasing (InKeyword (Token.scan text)) 0 text'.toList text.toList

instance (ls : List Located) : DecidablePred (InKeyword ls) := fun i =>
  inferInstanceAs (Decidable (∃ l ∈ ls, _ ∧ l.start ≤ i ∧ ∃ run ∈ l.token.run?, _))

instance (text text' : String) : Decidable (Recased text text') :=
  inferInstanceAs (Decidable (List.Forall₂ _ _ _))

/-! ### Characters -/

/-- Whether a character is a line break or a word character does not depend on its case. -/
theorem border_toUpper (c : Char) : border c.toUpper = border c := by
  by_cases h : 'a'.val ≤ c.val ∧ c.val ≤ 'z'.val
  · have hascii : ∀ n < 123, border (Char.ofNat n).toUpper = border (Char.ofNat n) := by
      decide +kernel
    have hc : border (Char.ofNat c.toNat).toUpper = border (Char.ofNat c.toNat) :=
      hascii _ (Nat.lt_succ_of_le h.2)
    rwa [Char.ofNat_toNat] at hc
  · have hc : c.toUpper = c := dif_neg h
    rw [hc]

theorem border_eq_of_toUpper_eq {c c' : Char} (h : c'.toUpper = c.toUpper) :
    border c' = border c := by
  rw [← border_toUpper, h, border_toUpper]

namespace Recasing

variable {P Q : Nat → Prop} {n : Nat} {as bs cs cs' : List Char}

theorem exists_append (h : Recasing P n cs' (as ++ bs)) :
    ∃ as' bs', cs' = as' ++ bs' ∧ Recasing P n as' as ∧ Recasing P (n + as.length) bs' bs := by
  unfold Recasing at h
  rw [List.zipIdx_append] at h
  have hleft := List.forall₂_take_append _ _ _ h
  have hright := List.forall₂_drop_append _ _ _ h
  exact ⟨_, _, (List.take_append_drop _ _).symm, hleft, hright⟩

theorem map_toUpper (h : Recasing P n cs' cs) : cs'.map Char.toUpper = cs.map Char.toUpper := by
  induction cs generalizing n cs' with
  | nil =>
    cases h
    rfl
  | cons c cs ih =>
    obtain _ | ⟨hc, hcs⟩ := h
    rw [List.map_cons, List.map_cons, ih hcs]
    rcases hc with rfl | ⟨-, hc⟩
    · rfl
    · rw [hc]

theorem eq_of_forall_not (h : Recasing P n cs' cs)
    (hP : ∀ i, n ≤ i → i < n + cs.length → ¬ P i) : cs' = cs := by
  induction cs generalizing n cs' with
  | nil => cases h; rfl
  | cons c cs ih =>
    obtain _ | ⟨hc, hcs⟩ := h
    rw [List.length_cons] at hP
    rw [ih hcs fun i hi hlt => hP i (by omega) (by omega)]
    rcases hc with rfl | ⟨hn, -⟩
    · rfl
    · exact absurd hn (hP n (Nat.le_refl n) (by omega))

theorem mono (h : Recasing P n cs' cs)
    (hPQ : ∀ i, n ≤ i → i < n + cs.length → P i → Q i) : Recasing Q n cs' cs := by
  induction cs generalizing n cs' with
  | nil => cases h; exact .nil
  | cons c cs ih =>
    obtain _ | ⟨hc, hcs⟩ := h
    rw [List.length_cons] at hPQ
    refine .cons ?_ (ih hcs fun i hi hlt => hPQ i (by omega) (by omega))
    exact hc.imp_right fun ⟨hn, hup⟩ => ⟨hPQ n (Nat.le_refl n) (by omega) hn, hup⟩

end Recasing

theorem head?_map_border_eq {cs cs' : List Char}
    (h : cs'.map Char.toUpper = cs.map Char.toUpper) :
    cs'.head?.map border = cs.head?.map border := by
  have hborder : ∀ o : Option Char, o.map border = (o.map Char.toUpper).map border := by
    intro o
    rw [Option.map_map]
    exact congrArg (Option.map · o) (funext fun c => (border_toUpper c).symm)
  have hhead : cs'.head?.map Char.toUpper = cs.head?.map Char.toUpper := by
    rw [← List.head?_map, h, List.head?_map]
  rw [hborder cs'.head?, hborder cs.head?, hhead]

/-! ### Keywords -/

namespace Token

/-- A keyword in its upper-case spelling, and any other token as it is. -/
def respelled (t : Token) : Token :=
  match t.keyword? with
  | some k => .word k.spelling
  | none => t

theorem respelled_of_keyword? {t : Token} {k : Keyword} (h : t.keyword? = some k) :
    t.respelled = .word k.spelling := by
  rw [respelled, h]

/-- What all spellings of a keyword have in common is kept. -/
theorem map_respelled {β : Type} {part : Token → β}
    (h : ∀ w w' k, Keyword.ofWord? w = some k → Keyword.ofWord? w' = some k →
      part (.word w) = part (.word w')) (t : Token) : part t.respelled = part t := by
  unfold respelled
  split
  · rename_i k hk
    cases t with
    | word w => exact h _ _ k (Keyword.ofWord?_spelling k) hk
    | quoted | number | mark => cases hk
  · rfl

theorem integer?_of_keyword {w : String} {k : Keyword} (h : Keyword.ofWord? w = some k) :
    (word w).integer? = none := by
  obtain ⟨c, cs, hcs, hc⟩ := Keyword.exists_cons_of_ofWord? h
  simp [integer?, hcs, hc]

theorem literal?_of_keyword {w : String} {k : Keyword} (h : Keyword.ofWord? w = some k) :
    (word w).literal? = none := by
  obtain ⟨c, cs, hcs, hc⟩ := Keyword.exists_cons_of_ofWord? h
  simp [literal?, hcs, hc]

end Token

/-- Keywords are spelled in upper case. -/
def Relabeling.respell : Relabeling := ⟨Token.respelled, id⟩

theorem Relabeling.keepsParts_respell : respell.KeepsParts where
  keyword? := Token.map_respelled fun _ _ _ hw hw' => hw.trans hw'.symm
  name? := Token.map_respelled fun _ _ _ hw hw' => by simp [Token.name?, hw, hw']
  integer? := Token.map_respelled fun _ _ _ hw hw' =>
    (Token.integer?_of_keyword hw).trans (Token.integer?_of_keyword hw').symm
  literal? := Token.map_respelled fun _ _ _ hw hw' =>
    (Token.literal?_of_keyword hw).trans (Token.literal?_of_keyword hw').symm
  text? := Token.map_respelled fun _ _ _ _ _ => rfl
  isMark _ := Token.map_respelled fun _ _ _ _ _ => rfl

theorem sameUpToCase_respell (f : Found) :
    SameUpToCase (Relabeling.respell.found f).describe f.describe := by
  cases f with
  | token t =>
    have hword : ∀ w w' k, Keyword.ofWord? w = some k → Keyword.ofWord? w' = some k →
        w.toList.map Char.toUpper = w'.toList.map Char.toUpper := fun w w' k hw hw' =>
      (Keyword.ofWord?_eq_some_iff.1 hw).trans (Keyword.ofWord?_eq_some_iff.1 hw').symm
    exact @Token.map_respelled _ (fun t => t.describe.toList.map Char.toUpper) hword t
  | operator | endOfText => rfl

/-! ### The tokens of a recased text -/

theorem IsRun.of_toUpper_eq {before after run run' : List Char} (h : IsRun before after run)
    (hupper : run'.map Char.toUpper = run.map Char.toUpper) : IsRun before after run' := by
  refine ⟨fun hnil => ?_, fun c hc => ?_, h.left, h.right⟩
  · rw [hnil] at hupper
    exact h.ne_nil (List.map_eq_nil_iff.1 hupper.symm)
  · have hmem : c.toUpper ∈ run.map Char.toUpper := by
      rw [← hupper]
      exact List.mem_map_of_mem hc
    obtain ⟨x, hx, hxc⟩ := List.mem_map.1 hmem
    rw [← h.isWordChar x hx]
    exact (Prod.mk.inj (border_eq_of_toUpper_eq hxc.symm)).2

/-- A run that spells a keyword is a word, and no number. -/
theorem IsRun.isLexeme_keyword {before after : List Char} {w : String} {k : Keyword}
    (h : IsRun before after w.toList) (hw : Keyword.ofWord? w = some k) :
    IsLexeme before after w.toList (.word w) := by
  refine .word h ?_
  rintro d rfl
  rw [ofWord?_toText h.negative_eq_false] at hw
  cases hw

/-- A lexeme that is recased is a lexeme, with the same token up to the spelling of keywords. -/
theorem IsLexeme.exists_respelled {before after after' lexeme lexeme' : List Char} {t : Token}
    {n : Nat} (h : IsLexeme before after lexeme t)
    (hlex : Recasing (InKeyword [⟨t, n⟩]) n lexeme' lexeme)
    (hafter : after'.map Char.toUpper = after.map Char.toUpper) :
    ∃ t', IsLexeme before after' lexeme' t' ∧ t'.respelled = t.respelled := by
  have h' := h.of_border_eq (head?_map_border_eq hafter)
  cases hk : t.keyword? with
  | none =>
    -- only keywords are recased
    have heq : lexeme' = lexeme := hlex.eq_of_forall_not <| by
      simp [InKeyword, hk]
    rw [heq]
    exact ⟨t, h', rfl⟩
  | some k =>
    cases h' with
    | number | quoted | mark => cases hk
    | @word w hrun _ =>
      have hupper := hlex.map_toUpper
      obtain ⟨w', rfl⟩ : ∃ w' : String, lexeme' = w'.toList := ⟨.ofList lexeme', by simp⟩
      have hk' : Keyword.ofWord? w' = some k :=
        Keyword.ofWord?_eq_some_iff.2 (hupper.trans (Keyword.ofWord?_eq_some_iff.1 hk))
      refine ⟨.word w', (hrun.of_toUpper_eq hupper).isLexeme_keyword hk', ?_⟩
      rw [Token.respelled_of_keyword? hk, Token.respelled_of_keyword? (t := .word w') hk']

theorem InKeyword.le {ls : List Located} {i n : Nat} (h : InKeyword ls i)
    (hn : ∀ l ∈ ls, n ≤ l.start) : n ≤ i := by
  obtain ⟨l, hl, -, hstart, -⟩ := h
  exact Nat.le_trans (hn l hl) hstart

theorem inKeyword_cons_iff {l : Located} {ls : List Located} {i : Nat} :
    InKeyword (l :: ls) i ↔ InKeyword [l] i ∨ InKeyword ls i := by
  simp [InKeyword]

/-- A gap is not recased, the lexeme behind it only if it is a keyword, and the rest only where the
other tokens stand. -/
theorem Recasing.exists_parts {before gap lexeme after cs' : List Char} {t : Token}
    {ls : List Located} (hlex : IsLexeme (before ++ gap) after lexeme t)
    (hle : ∀ l ∈ ls, (before ++ gap ++ lexeme).length ≤ l.start)
    (h : Recasing (InKeyword (⟨t, (before ++ gap).length⟩ :: ls)) before.length cs'
      (gap ++ (lexeme ++ after))) :
    ∃ lexeme' after', cs' = gap ++ (lexeme' ++ after') ∧
      Recasing (InKeyword [⟨t, (before ++ gap).length⟩]) (before ++ gap).length lexeme' lexeme ∧
      Recasing (InKeyword ls) (before ++ gap ++ lexeme).length after' after := by
  obtain ⟨gap', _, rfl, hgap, htail⟩ := h.exists_append
  obtain ⟨lexeme', after', rfl, hlexeme, hafter⟩ := htail.exists_append
  simp only [List.length_append] at hle hgap hlexeme hafter ⊢
  obtain rfl : gap' = gap := hgap.eq_of_forall_not fun i _ hi hin => by
    have : before.length + gap.length ≤ i := hin.le <| List.forall_mem_cons.2
      ⟨Nat.le_refl _, fun l hl => Nat.le_trans (Nat.le_add_right _ _) (hle l hl)⟩
    omega
  refine ⟨lexeme', after', rfl, hlexeme.mono fun i _ hi hin => ?_, hafter.mono fun i hi _ hin => ?_⟩
  · refine (inKeyword_cons_iff.1 hin).resolve_right fun hin => ?_
    have := hin.le hle
    omega
  · refine (inKeyword_cons_iff.1 hin).resolve_left ?_
    rintro ⟨l, hl, -, -, run, hrun, hlt⟩
    cases List.mem_singleton.1 hl
    rw [← hlex.eq_of_run? hrun] at hlt
    simp only at hlt
    omega

/-- The tokens of a recased text are the same up to the spelling of keywords, by induction along
the segments of the text. -/
theorem Segmented.map_respell {before cs cs' : List Char} {ls : List Located}
    (h : Segmented before cs ls) (hr : Recasing (InKeyword ls) before.length cs' cs) :
    (Token.locate before.length (segments cs')).map Relabeling.respell.located =
      ls.map Relabeling.respell.located := by
  induction h generalizing cs' with
  | last hgap =>
    have heq := hr.eq_of_forall_not (by simp [InKeyword])
    rw [heq, hgap.segments_eq_nil, Token.locate_nil]
  | @next before gap lexeme after t ls hgap hlex hrest ih =>
    obtain ⟨lexeme', after', rfl, hlexeme, hafter⟩ :=
      Recasing.exists_parts hlex hrest.pairwise_start.1 hr
    obtain ⟨t', hlex', ht'⟩ := hlex.exists_respelled hlexeme hafter.map_toUpper
    have hupper : (lexeme' ++ after').map Char.toUpper = (lexeme ++ after).map Char.toUpper := by
      rw [List.map_append, List.map_append, hlexeme.map_toUpper, hafter.map_toUpper]
    have hgap' := hgap.of_border_eq (head?_map_border_eq hupper)
    have hlength : lexeme'.length = lexeme.length := by
      simpa using congrArg List.length hlexeme.map_toUpper
    rw [hlex'.locate_append hgap', hlength, ← List.length_append, ← List.length_append,
      List.map_cons, List.map_cons, ih hafter]
    simp only [Relabeling.located, Relabeling.respell, ht']

theorem Token.scan_recased {text text' : String} (h : Recased text text') :
    (Token.scan text').map Relabeling.respell.located =
      (Token.scan text).map Relabeling.respell.located :=
  ((segmented_iff text _).2 rfl).map_respell h

theorem Recased.length_eq {text text' : String} (h : Recased text text') :
    text'.length = text.length := by
  rw [← String.length_toList, ← String.length_toList]
  simpa only [List.length_map] using congrArg List.length h.map_toUpper

/-! ### Statements -/

/-- Errors that are the same up to the spelling of keywords stand at the same place and expect the
same. -/
theorem SyntaxError.sameUpToCase_of_respell_eq {e e' : SyntaxError}
    (h : Relabeling.respell.error e' = Relabeling.respell.error e) :
    e'.position = e.position ∧ e'.expected = e.expected ∧
      SameUpToCase e'.found.describe e.found.describe := by
  obtain ⟨hexpected, hfound, hposition⟩ := SyntaxError.mk.inj h
  refine ⟨hposition, hexpected, ?_⟩
  have hcase := sameUpToCase_respell e'.found
  rw [hfound] at hcase
  exact hcase.symm.trans (sameUpToCase_respell e.found)

namespace Statement

/-- **The case of keywords does not matter, and nothing is made of them.**  If letters of keywords
change their case, then the same statement is read, or an error is found at the same place, where
the same is expected and the same is shown up to its case.  Every name of a statement is a word that
is not a keyword, or a number, as it stands in the text; the body of a script and each text is a
quoted string of the text, and each value a token of the text. -/
theorem ofText_recased (text : String) :
    (∀ text', Recased text text' →
      (∃ q, ofText text = .ok q ∧ ofText text' = .ok q) ∨
      ∃ e e', ofText text = .error e ∧ ofText text' = .error e' ∧ e'.position = e.position ∧
        e'.expected = e.expected ∧ SameUpToCase e'.found.describe e.found.describe) ∧
    ∀ q, ofText text = .ok q →
      (∀ n ∈ q.names, ∃ l ∈ Token.scan text, Name l.token n ∧
        n.toList <+: text.toList.drop l.start) ∧
      (∀ s ∈ q.texts, ∃ l ∈ Token.scan text, l.token = .quoted s) ∧
      ∀ v ∈ q.values, ∃ l ∈ Token.scan text, Value l.token v := by
  constructor
  · intro text' h
    have hread : (ofText text').mapError Relabeling.respell.error =
        (ofText text).mapError Relabeling.respell.error :=
      (Reader.relabels_statement Relabeling.keepsParts_respell).readText_congr
        (Token.scan_recased h) h.length_eq
    rcases hq : ofText text with e | q <;> rcases hq' : ofText text' with e' | q' <;>
      rw [hq, hq'] at hread
    · exact .inr ⟨e, e', rfl, rfl,
        SyntaxError.sameUpToCase_of_respell_eq (Except.error.inj hread)⟩
    · cases hread
    · cases hread
    · cases hread
      exact .inl ⟨q, rfl, rfl⟩
  · intro q hq
    have hderives := ofText_eq_ok_iff_derives.1 hq
    refine ⟨fun n hn => ?_, fun s hs => ?_, fun v hv => ?_⟩
    · obtain ⟨t, ht, hn⟩ := exists_name_of_derives hderives n hn
      obtain ⟨l, hl, rfl⟩ := List.mem_map.1 ht
      exact ⟨l, hl, hn, Token.isPrefix_drop_of_mem_scan hl hn.mem_run?⟩
    · exact List.mem_map.1 (quoted_mem_of_derives hderives s hs)
    · obtain ⟨t, ht, hv⟩ := exists_value_of_derives hderives v hv
      obtain ⟨l, hl, rfl⟩ := List.mem_map.1 ht
      exact ⟨l, hl, hv⟩

/-- Four keywords in other letters, beside a name and a text that look like keywords. -/
theorem ofText_recased_beside_lookalikes :
    let text := "select By1 from t where not By1 = 'And'"
    let text' := "SELECT By1 From t WHERE noT By1 = 'And'"
    let q : Statement := {
      fields := some ["By1"], index := "t",
      condition := some (.not (.compare .eq "By1" (.text "And"))) }
    Recased text text' ∧ ofText text = .ok q ∧ ofText text' = .ok q ∧
      ∀ n ∈ q.names, ∃ l ∈ Token.scan text, Name l.token n ∧
        n.toList <+: text.toList.drop l.start := by
  intro text text' q
  have hcase : Recased text text' := by decide +kernel
  have hread : ofText text = .ok q := by decide +kernel
  refine ⟨hcase, hread, ?_, ((ofText_recased text).2 q hread).1⟩
  rcases (ofText_recased text).1 text' hcase with ⟨q', hq, hq'⟩ | ⟨e, _, he, _⟩
  · rwa [← Except.ok.inj (hread.symm.trans hq)] at hq'
  · rw [hread] at he
    cases he

-- an error shows a keyword as it is written, and a name is no keyword
example : ofText "SELECT a FROM or" = .error ⟨.identifier, .token (.word "or"), 14⟩ ∧
    ofText "select a from OR" = .error ⟨.identifier, .token (.word "OR"), 14⟩ ∧
    ¬ Recased "SELECT a FROM t" "SELECT A FROM t" := by
  decide +kernel

end Statement

end SearchSql
