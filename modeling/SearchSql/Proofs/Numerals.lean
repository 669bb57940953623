import Mathlib.Data.Nat.Digits.Defs
import SearchSql.Proofs.Segmentation
import SearchSql.Proofs.Simulation

/-!
# Digits and the numbers they stand for

A run of digits reaches a reader as a number or as a word: a number has no superfluous leading
zeros and at most 96 bits, and every other run is a word.  The value of the run is the same on
both ways, so that an integer is read from the digits as they stand in the text.

## Main definitions

* `Text.decimalValue` : the value of digits in the decimal system.
* `IntegerAt text start v` : the integer that stands at a place of a text, said about the
  characters of the text.
* `Numeral cs m k` : the decimal notation of the number with coefficient `m` and scale `k`.

## Main statements

* `integerAt_iff` : the integer at a token is the one that the token stands for.
* `Reader.integer_step_ofCursor` : **an integer is read exactly**, wherever a cursor stands, and
  nothing else is read as an integer.
* `Decimal.exists_ofDigits?_iff` : a run is a number exactly if it is a numeral.
-/

namespace SearchSql

open Token (Located)

namespace Text

/-- The value of a digit. -/
def digitValue (c : Char) : Nat := c.toNat - '0'.toNat

/-- The value of digits in the decimal system, where the last digit counts ones. -/
def decimalValue (ds : List Char) : Nat := Nat.ofDigits 10 (ds.map digitValue).reverse

/-- Reading digits from left to right gives each its place value. -/
theorem ofDigitChars_eq_decimalValue (ds : List Char) :
    Nat.ofDigitChars 10 ds 0 = decimalValue ds := by
  induction ds with
  | nil => rfl
  | cons c ds ih =>
    rw [Nat.ofDigitChars_cons, Nat.ofDigitChars_eq_ofDigitChars_zero, ih, decimalValue,
      decimalValue, List.map_cons, Nat.ofDigits_reverse_cons, List.length_map]
    simp only [digitValue, Nat.mul_zero, Nat.zero_add]
    exact Nat.add_comm _ _

end Text

open Text

/-! ### Integers in a text -/

/-- At a place of the text stands an integer: a run of word characters, as long as it can be, that
are all digits and whose value has at most 32 bits. -/
inductive IntegerAt (text : String) : (start v : Nat) → Prop
  | intro {before ds after : List Char} : text.toList = before ++ (ds ++ after) →
      IsRun before after ds → (∀ c ∈ ds, c.isDigit = true) → decimalValue ds ≤ 4294967295 →
      IntegerAt text before.length (decimalValue ds)

/-- The lexeme of a token that is a run of word characters. -/
theorem IsLexeme.isRun_of_run? {before after lexeme run : List Char} {t : Token}
    (h : IsLexeme before after lexeme t) (hrun : run ∈ t.run?) : IsRun before after run := by
  cases h with
  | number hr | word hr _ =>
    cases hrun
    exact hr
  | quoted | mark => cases hrun

/-- A run is the characters of its token, whichever kind of token it is. -/
theorem Token.run?_ofWord (run : List Char) : (Token.ofWord run).run? = some run := by
  unfold Token.ofWord
  split
  · rename_i d hd
    exact congrArg some (Decimal.toList_toText_of_ofDigits? hd)
  · rw [Token.run?, String.toList_ofList]

/-- Where a run and a lexeme start at one place, the token of the lexeme is that of the run. -/
theorem IsRun.run?_of_isLexeme {before after after' run lexeme : List Char} {t : Token}
    (hrun : IsRun before after run) (h : IsLexeme before after' lexeme t)
    (heq : run ++ after = lexeme ++ after') : t.run? = some run := by
  obtain ⟨c, cs, hcs, -, -, hread⟩ := hrun.exists_readLexeme
  obtain ⟨c', cs', hcs', -, -, hread'⟩ := h.exists_readLexeme
  obtain ⟨rfl, rfl⟩ : c = c' ∧ cs = cs' := by
    rw [hcs, hcs'] at heq
    exact List.cons.inj heq
  obtain ⟨-, rfl, -⟩ := Lexeme.mk.inj (hread.symm.trans hread')
  exact Token.run?_ofWord run

/-- The integer at a token is the one that the token stands for. -/
theorem integerAt_iff {text : String} {l : Located} (hl : l ∈ Token.scan text) (v : Nat) :
    IntegerAt text l.start v ↔ l.token.integer? = some v := by
  obtain ⟨before, lexeme, after, hcs, hstart, hlex⟩ :=
    ((segmented_iff text _).2 rfl).exists_isLexeme hl
  rw [List.nil_append] at hstart hlex
  rw [Grammar.integer?_eq_some_iff]
  constructor
  · intro h
    generalize hplace : l.start = start at h
    obtain @⟨before', ds, after', hcs', hrun, hdigits, hle⟩ := h
    -- the run starts where the lexeme of the token does
    obtain ⟨rfl, hback⟩ := List.append_inj (hcs'.symm.trans hcs) (hplace.symm.trans hstart.symm)
    rw [← ofDigitChars_eq_decimalValue] at hle ⊢
    exact .run (hrun.run?_of_isLexeme hlex hback) hrun.ne_nil hdigits (Nat.lt_succ_of_le hle)
  · rintro ⟨hrun, hne, hdigits, hlt⟩
    obtain rfl := hlex.eq_of_run? hrun
    rw [ofDigitChars_eq_decimalValue] at hlt ⊢
    rw [← hstart]
    exact .intro hcs (hlex.isRun_of_run? hrun) hdigits (Nat.le_of_lt_succ hlt)

/-- At the end of a text there is no integer. -/
theorem not_integerAt_length (text : String) (v : Nat) : ¬ IntegerAt text text.length v := by
  intro h
  generalize hplace : text.length = start at h
  obtain @⟨before, ds, after, hcs, hrun, -, -⟩ := h
  have hpos : 0 < ds.length := List.length_pos_iff.2 hrun.ne_nil
  have hlength := congrArg List.length hcs
  rw [String.length_toList, hplace, List.length_append, List.length_append] at hlength
  omega

/-! ### Reading an integer where a cursor stands -/

/-- The integer at the next token is the one that it stands for. -/
theorem integerAt_nth_iff (text : String) (i v : Nat) :
    IntegerAt text (Sighting.nth text i).start v ↔
      (Sighting.nth text i).token?.bind Token.integer? = some v := by
  rw [Sighting.nth]
  cases hl : (Token.scan text)[i]? with
  | none => simpa using not_integerAt_length text v
  | some l => exact integerAt_iff (List.mem_of_getElem? hl) v

/-- **An integer is read exactly.**  Wherever a cursor stands, reading an integer takes the token
that the cursor would hand out next.  It gives the value `v` exactly if a run of digits with this
value stands there, however many zeros it starts with, and if the value has at most 32 bits; in
every other case it is the error that an integer was expected, at that token. -/
theorem Reader.integer_step_ofCursor (text : String) (calls : List Cursor.Call) :
    let c := (Cursor.run Cursor.call calls (Cursor.ofText text)).2
    let next := c.next.1
    let answer := integer.step (.ofCursor c)
    (∀ v, answer.1 = .ok v ↔ IntegerAt text next.start v) ∧
      ((∃ e, answer.1 = .error e ∧ e.found = next.found ∧ e.position = next.start ∧
          e.message = "Expected integer, got " ++ next.found.describe) ↔
        ∀ v, ¬ IntegerAt text next.start v) ∧
      answer.2 = .ofCursor c.next.2 := by
  intro c next answer
  obtain ⟨p, htracks⟩ : ∃ p, Cursor.Tracks text c p :=
    ⟨_, (Cursor.run_of_step (fun k _ _ h => h.call k) calls .fresh).2⟩
  have hnext : next = .nth text p.index := Cursor.Answer.token.inj (htracks.call .next).1
  have hanswer : answer = ((next.token?.bind Token.integer?).elim
      (.error ⟨.integer, next.found, next.start⟩) .ok, .ofCursor c.next.2) := by
    have hstep := (Walk.follows_integer ⟨p, htracks⟩).step_eq
    rwa [Walk.integer, Walk.run_take] at hstep
  have hinteger : ∀ v, IntegerAt text next.start v ↔ next.token?.bind Token.integer? = some v := by
    intro v
    rw [hnext]
    exact integerAt_nth_iff text p.index v
  simp only [hinteger]
  rw [hanswer]
  refine ⟨fun v => ?_, ?_, rfl⟩
  · cases next.token?.bind Token.integer? <;> simp
  · cases next.token?.bind Token.integer? with
    | none => exact iff_of_true ⟨_, rfl, rfl, rfl, rfl⟩ (by simp)
    | some v => simp

-- leading zeros make the run a word, and it is read like the number
example : Reader.integer.readText "00042 " = .ok 42 ∧ Reader.integer.readText "42 " = .ok 42 := by
  decide +kernel

-- out of the range of numbers, and so a word, but out of the range of integers as well
example : Reader.integer.readText "79228162514264337593543950336" =
    .error ⟨.integer, .token (.word "79228162514264337593543950336"), 0⟩ := by
  decide +kernel

/-! ### Decimal notation -/

/-- The digits before the point: a zero stands first only if it stands alone. -/
structure IsWholePart (ds : List Char) : Prop where
  ne_nil : ds ≠ []
  isDigit : ∀ c ∈ ds, c.isDigit = true
  lead : ds.head? = some '0' → ds = ['0']

/-- The canonical notation of the number with coefficient `m` and scale `k`: digits without a
superfluous zero, and behind a point at least one and at most 28 more, where all digits together
have a value of at most 96 bits. -/
inductive Numeral : List Char → (m k : Nat) → Prop
  | whole {ds : List Char} : IsWholePart ds → decimalValue ds < 2 ^ 96 →
      Numeral ds (decimalValue ds) 0
  | fraction {ds fs : List Char} : IsWholePart ds → fs ≠ [] → (∀ c ∈ fs, c.isDigit = true) →
      fs.length ≤ 28 → decimalValue (ds ++ fs) < 2 ^ 96 →
      Numeral (ds ++ '.' :: fs) (decimalValue (ds ++ fs)) fs.length

namespace Decimal

theorem isWhole_iff (ds : List Char) : isWhole ds = true ↔ IsWholePart ds := by
  constructor
  · intro h
    refine ⟨ne_nil_of_isWhole h, List.all_eq_true.1 (isDigit_of_isWhole h), fun hzero => ?_⟩
    unfold isWhole at h
    split at h
    · cases h
    · rfl
    · cases hzero
      cases h
  · rintro ⟨hne, hdigits, hlead⟩
    obtain ⟨c, cs, rfl⟩ := List.exists_cons_of_ne_nil hne
    unfold isWhole
    split
    · rename_i h
      cases h
    · rfl
    · rename_i hzero heq
      cases heq
      have hc : c ≠ '0' := by
        rintro rfl
        exact hzero rfl (List.cons.inj (hlead rfl)).2
      rw [Bool.and_eq_true, bne_iff_ne]
      exact ⟨hc, List.all_eq_true.2 hdigits⟩

/-- Digits before and after the point that are in range are those of a number. -/
theorem exists_ofDigits?_joinPoint {whole : List Char} (hwhole : IsWholePart whole)
    (fraction : List Char) (hdigits : ∀ c ∈ fraction, c.isDigit = true)
    (hscale : fraction.length ≤ 28) (hvalue : decimalValue (whole ++ fraction) < 2 ^ 96) :
    ∃ d, ofDigits? (joinPoint whole fraction) = some d ∧
      d.coefficient = decimalValue (whole ++ fraction) ∧ d.scale = fraction.length := by
  have hlt : Nat.ofDigitChars 10 (whole ++ fraction) 0 < coefficientBound := by
    rw [ofDigitChars_eq_decimalValue]
    exact hvalue
  have hparts : ofParts? whole fraction = some ⟨false, _, fraction.length, hlt, hscale⟩ := by
    rw [ofParts?, (isWhole_iff whole).2 hwhole, List.all_eq_true.2 hdigits]
    exact dif_pos ⟨hscale, hlt⟩
  obtain ⟨hneg, hw, hf⟩ := ofParts?_eq_some hparts
  refine ⟨_, ofDigits?_eq_some_iff.2 ⟨hneg, ?_⟩, ofDigitChars_eq_decimalValue _, rfl⟩
  rw [unsignedChars, hw, hf]

/-- The notation of a number without a sign is a numeral. -/
theorem numeral_unsignedChars (d : Decimal) : Numeral d.unsignedChars d.coefficient d.scale := by
  have hwhole := (isWhole_iff _).1 d.isWhole_wholeDigits
  have hvalue : d.coefficient = decimalValue (d.wholeDigits ++ d.fractionDigits) := by
    rw [← ofDigitChars_eq_decimalValue, wholeDigits_append_fractionDigits, ofDigitChars_digits]
  have hlt : decimalValue (d.wholeDigits ++ d.fractionDigits) < 2 ^ 96 := by
    rw [← hvalue]
    exact d.coefficient_lt
  have hscale := d.length_fractionDigits
  have hdigits : ∀ c ∈ d.fractionDigits, c.isDigit = true :=
    fun c hc => isDigit_of_mem_digits (List.mem_of_mem_drop hc)
  rw [unsignedChars, hvalue, ← hscale]
  cases hf : d.fractionDigits with
  | nil =>
    rw [hf, List.append_nil] at hlt
    simpa [joinPoint] using Numeral.whole hwhole hlt
  | cons c fs =>
    rw [hf] at hlt hdigits hscale
    exact .fraction hwhole (List.cons_ne_nil c fs) hdigits (hscale.trans_le d.scale_le) hlt

/-- A run is the number with coefficient `m` and scale `k` exactly if it is the numeral of this
number. -/
theorem exists_ofDigits?_iff (cs : List Char) (m k : Nat) :
    (∃ d, ofDigits? cs = some d ∧ d.coefficient = m ∧ d.scale = k) ↔ Numeral cs m k := by
  constructor
  · rintro ⟨d, hd, rfl, rfl⟩
    obtain ⟨-, rfl⟩ := ofDigits?_eq_some_iff.1 hd
    exact d.numeral_unsignedChars
  · intro h
    cases h with
    | @whole ds hwhole hvalue =>
      have h := exists_ofDigits?_joinPoint hwhole [] (by simp) (by simp)
        (by rwa [List.append_nil])
      rwa [List.append_nil] at h
    | @fraction ds fs hwhole hne hdigits hscale hvalue =>
      have h := exists_ofDigits?_joinPoint hwhole fs hdigits hscale hvalue
      obtain ⟨c, fs, rfl⟩ := List.exists_cons_of_ne_nil hne
      exact h

end Decimal

end SearchSql
