import SearchSql.Decimal

/-!
# Reading and writing decimals

The notation of a number determines it, and only the notation that is written is read.

* `Decimal.unsignedChars_of_ofDigits?` : what is read is written back as it was.
* `Decimal.ofDigits?_unsignedChars` : what is written is read back.
* `Decimal.ofDigits?_eq_some_iff` : both together.
-/

namespace SearchSql

namespace Decimal

/-! ### Digits and their value -/

theorem digitChar_toNat_sub {c : Char} (h : c.isDigit = true) :
    c.toNat - '0'.toNat < 10 ∧ Nat.digitChar (c.toNat - '0'.toNat) = c := by
  delta Char.isDigit at h
  simp only [Bool.and_eq_true, decide_eq_true_eq, ge_iff_le, UInt32.le_iff_toNat_le] at h
  have h₁ : 48 ≤ c.toNat := h.1
  have h₂ : c.toNat ≤ 57 := h.2
  have h₀ : '0'.toNat = 48 := rfl
  have hlt : c.toNat - 48 < 10 := by omega
  refine ⟨by omega, Char.toNat_inj.1 ?_⟩
  rw [h₀, Nat.toNat_digitChar_of_lt_ten hlt]
  omega

/-- The digits of a number that starts with `n` and goes on with the digits `cs`. -/
theorem toDigits_ofDigitChars {n : Nat} (hn : 0 < n) {cs : List Char}
    (hcs : cs.all Char.isDigit = true) :
    Nat.toDigits 10 (Nat.ofDigitChars 10 cs n) = Nat.toDigits 10 n ++ cs := by
  induction cs generalizing n with
  | nil => simp
  | cons c cs ih =>
    rw [List.all_cons, Bool.and_eq_true] at hcs
    obtain ⟨hlt, hc⟩ := digitChar_toNat_sub hcs.1
    have hd := Nat.toDigits_append_toDigits (by decide : 1 < 10) hn hlt
    rw [Nat.toDigits_of_lt_base hlt, hc] at hd
    rw [Nat.ofDigitChars_cons, ih (by omega) hcs.2, ← hd, List.append_assoc,
      List.singleton_append]

/-- Digits without a leading zero are the digits of their value. -/
theorem toDigits_ofDigitChars_of_ne_zero {c : Char} {cs : List Char} (hz : c ≠ '0')
    (hcs : (c :: cs).all Char.isDigit = true) :
    Nat.toDigits 10 (Nat.ofDigitChars 10 (c :: cs) 0) = c :: cs := by
  rw [List.all_cons, Bool.and_eq_true] at hcs
  obtain ⟨hlt, hc⟩ := digitChar_toNat_sub hcs.1
  have hpos : 0 < c.toNat - '0'.toNat := by
    rcases Nat.eq_zero_or_pos (c.toNat - '0'.toNat) with h0 | h0
    · rw [h0] at hc
      exact absurd hc.symm hz
    · exact h0
  rw [Nat.ofDigitChars_cons, Nat.mul_zero, Nat.zero_add, toDigits_ofDigitChars hpos hcs.2,
    Nat.toDigits_of_lt_base hlt, hc, List.singleton_append]

/-- A leading zero does not change the value of digits. -/
theorem ofDigitChars_zero_cons (cs : List Char) :
    Nat.ofDigitChars 10 ('0' :: cs) 0 = Nat.ofDigitChars 10 cs 0 := by
  rw [Nat.ofDigitChars_cons]
  rfl

/-- Any digits are the digits of their value behind leading zeros. -/
theorem leftpad_toDigits {ds : List Char} (hne : ds ≠ []) (hds : ds.all Char.isDigit = true) :
    (Nat.toDigits 10 (Nat.ofDigitChars 10 ds 0)).leftpad ds.length '0' = ds := by
  induction ds with
  | nil => exact absurd rfl hne
  | cons c cs ih =>
    by_cases hz : c = '0'
    · subst hz
      by_cases hcs : cs = []
      · subst hcs
        rfl
      · rw [List.all_cons, Bool.and_eq_true] at hds
        have h := ih hcs hds.2
        have hlen := congrArg List.length h
        rw [List.length_leftpad] at hlen
        rw [ofDigitChars_zero_cons, List.leftpad, List.length_cons,
          Nat.sub_add_comm (by omega : _ ≤ cs.length), List.replicate_succ, List.cons_append]
        exact congrArg _ h
    · rw [toDigits_ofDigitChars_of_ne_zero hz hds, List.leftpad, Nat.sub_self,
        List.replicate_zero, List.nil_append]

/-- Leading zeros do not change the value of digits. -/
theorem ofDigitChars_leftpad (n k : Nat) :
    Nat.ofDigitChars 10 ((Nat.toDigits 10 n).leftpad k '0') 0 = n := by
  rw [List.leftpad, Nat.ofDigitChars_append, Nat.ofDigitChars_replicate_zero, Nat.mul_zero,
    Nat.ofDigitChars_toDigits (by decide) (by decide)]

theorem isDigit_of_mem_digits {d : Decimal} {c : Char} (h : c ∈ d.digits) : c.isDigit = true := by
  rw [digits, List.leftpad, List.mem_append] at h
  rcases h with h | h
  · rw [List.eq_of_mem_replicate h]
    rfl
  · exact Nat.isDigit_of_mem_toDigits (by decide) (by decide) h

theorem scale_lt_length_digits (d : Decimal) : d.scale < d.digits.length := by
  rw [digits, List.length_leftpad]
  omega

theorem wholeDigits_append_fractionDigits (d : Decimal) :
    d.wholeDigits ++ d.fractionDigits = d.digits :=
  List.take_append_drop _ _

theorem length_fractionDigits (d : Decimal) : d.fractionDigits.length = d.scale := by
  have := d.scale_lt_length_digits
  rw [fractionDigits, List.length_drop]
  omega

theorem ofDigitChars_digits (d : Decimal) : Nat.ofDigitChars 10 d.digits 0 = d.coefficient :=
  ofDigitChars_leftpad _ _

theorem toList_toText {d : Decimal} (h : d.negative = false) :
    d.toText.toList = d.unsignedChars := by
  simp [toText, h]

/-! ### What is read is written back -/

theorem isDigit_of_isWhole {whole : List Char} (h : isWhole whole = true) :
    whole.all Char.isDigit = true := by
  unfold isWhole at h
  split at h
  · cases h
  · rfl
  · rw [Bool.and_eq_true] at h
    exact h.2

theorem ne_nil_of_isWhole {whole : List Char} (h : isWhole whole = true) : whole ≠ [] := by
  rintro rfl
  cases h

/-- The digits of a number are those it was read from. -/
theorem leftpad_of_isWhole {whole fraction : List Char} (hw : isWhole whole = true)
    (hf : fraction.all Char.isDigit = true) :
    (Nat.toDigits 10 (Nat.ofDigitChars 10 (whole ++ fraction) 0)).leftpad
      (fraction.length + 1) '0' = whole ++ fraction := by
  have hd : (whole ++ fraction).all Char.isDigit = true := by
    rw [List.all_append, isDigit_of_isWhole hw, hf]
    rfl
  unfold isWhole at hw
  split at hw
  · cases hw
  · have h := leftpad_toDigits (by simp) hd
    rwa [List.length_append, List.length_singleton, Nat.add_comm] at h
  · rename_i c cs _
    simp only [Bool.and_eq_true, bne_iff_ne] at hw
    rw [List.cons_append] at hd ⊢
    rw [toDigits_ofDigitChars_of_ne_zero hw.1 hd, List.leftpad, List.length_cons,
      List.length_append, Nat.sub_eq_zero_of_le (by omega), List.replicate_zero, List.nil_append]

theorem ofParts?_eq_some {whole fraction : List Char} {d : Decimal}
    (h : ofParts? whole fraction = some d) :
    d.negative = false ∧ d.wholeDigits = whole ∧ d.fractionDigits = fraction := by
  unfold ofParts? at h
  split at h
  · rename_i hp
    rw [Bool.and_eq_true] at hp
    split at h
    · simp only [Option.some.injEq] at h
      subst h
      have hd := leftpad_of_isWhole hp.1 hp.2
      refine ⟨rfl, ?_, ?_⟩ <;>
        simp only [wholeDigits, fractionDigits, digits, hd, List.length_append,
          Nat.add_sub_cancel, List.take_left, List.drop_left]
    · cases h
  · cases h

/-- A number is written as it was read. -/
theorem unsignedChars_of_ofDigits? {cs : List Char} {d : Decimal} (h : ofDigits? cs = some d) :
    d.negative = false ∧ d.unsignedChars = cs := by
  have hcs := List.takeWhile_append_dropWhile (p := Char.isDigit) (l := cs)
  unfold ofDigits? at h
  split at h
  · obtain ⟨hn, hw, hf⟩ := ofParts?_eq_some h
    exact ⟨hn, by rw [unsignedChars, hw, hf]; rfl⟩
  · rename_i c fraction hdrop
    obtain ⟨hn, hw, hf⟩ := ofParts?_eq_some h
    refine ⟨hn, ?_⟩
    rw [unsignedChars, hw, hf]
    change cs.takeWhile Char.isDigit ++ '.' :: c :: fraction = cs
    rw [← hdrop, hcs]
  · cases h

/-- The notation of a number is the text that it was read from. -/
theorem toList_toText_of_ofDigits? {cs : List Char} {d : Decimal} (h : ofDigits? cs = some d) :
    d.toText.toList = cs := by
  obtain ⟨hn, hchars⟩ := unsignedChars_of_ofDigits? h
  rw [toList_toText hn, hchars]

/-! ### What is written is read back -/

theorem isWhole_wholeDigits (d : Decimal) : isWhole d.wholeDigits = true := by
  have hlt := d.scale_lt_length_digits
  have hdig : d.wholeDigits.all Char.isDigit = true :=
    List.all_eq_true.2 fun c hc => isDigit_of_mem_digits (List.mem_of_mem_take hc)
  cases hw : d.wholeDigits with
  | nil =>
    have := congrArg List.length hw
    rw [wholeDigits, List.length_take, List.length_nil] at this
    omega
  | cons c cs =>
    rw [hw] at hdig
    by_cases hz : c = '0'
    · -- A leading zero is either padding or the only digit of the coefficient.
      subst hz
      have hcs : cs = [] := by
        have hd : d.digits = '0' :: (cs ++ d.fractionDigits) := by
          rw [← d.wholeDigits_append_fractionDigits, hw, List.cons_append]
        have hc : d.coefficient = Nat.ofDigitChars 10 (cs ++ d.fractionDigits) 0 := by
          rw [← d.ofDigitChars_digits, hd, ofDigitChars_zero_cons]
        have hall : (cs ++ d.fractionDigits).all Char.isDigit = true :=
          List.all_eq_true.2 fun x hx =>
            isDigit_of_mem_digits (by rw [hd]; exact List.mem_cons_of_mem _ hx)
        have hmax := congrArg List.length hd
        rw [digits, List.length_leftpad, List.length_cons, List.length_append,
          length_fractionDigits] at hmax
        by_cases hne : cs ++ d.fractionDigits = []
        · exact (List.append_eq_nil_iff.1 hne).1
        · have hlen := congrArg List.length (leftpad_toDigits hne hall)
          rw [← hc, List.length_leftpad, List.length_append, length_fractionDigits] at hlen
          exact List.length_eq_zero_iff.1 (by omega)
      subst hcs
      rfl
    · unfold isWhole
      split
      · rename_i h
        cases h
      · rfl
      · rename_i c' cs' _ h
        cases h
        rw [Bool.and_eq_true, bne_iff_ne]
        exact ⟨hz, hdig⟩

theorem ofParts?_digits (d : Decimal) :
    ofParts? d.wholeDigits d.fractionDigits = some { d with negative := false } := by
  have hf : d.fractionDigits.all Char.isDigit = true :=
    List.all_eq_true.2 fun c hc => isDigit_of_mem_digits (List.mem_of_mem_drop hc)
  have hv : Nat.ofDigitChars 10 (d.wholeDigits ++ d.fractionDigits) 0 = d.coefficient := by
    rw [wholeDigits_append_fractionDigits, ofDigitChars_digits]
  unfold ofParts?
  rw [if_pos (by rw [isWhole_wholeDigits, hf]; rfl)]
  simp only [hv, length_fractionDigits, d.scale_le, d.coefficient_lt, and_self, ↓reduceDIte]

/-- A number is read as it was written. -/
theorem ofDigits?_unsignedChars (d : Decimal) :
    ofDigits? d.unsignedChars = some { d with negative := false } := by
  have hw : ∀ c ∈ d.wholeDigits, c.isDigit = true :=
    fun c hc => isDigit_of_mem_digits (List.mem_of_mem_take hc)
  have hparts := d.ofParts?_digits
  unfold unsignedChars joinPoint
  split
  · rename_i hf
    rw [hf] at hparts
    have hdrop : (d.wholeDigits ++ []).dropWhile Char.isDigit = [] :=
      List.dropWhile_append_of_pos hw
    rw [List.append_nil] at hdrop
    rw [ofDigits?, hdrop]
    exact hparts
  · rename_i hf
    cases hfr : d.fractionDigits with
    | nil => exact (hf hfr).elim
    | cons c fraction =>
      rw [hfr] at hparts
      have hdrop : (d.wholeDigits ++ '.' :: c :: fraction).dropWhile Char.isDigit =
          '.' :: c :: fraction := by
        rw [List.dropWhile_append_of_pos hw, List.dropWhile_cons_of_neg (by simp)]
      have htake : (d.wholeDigits ++ '.' :: c :: fraction).takeWhile Char.isDigit =
          d.wholeDigits := by
        rw [List.takeWhile_append_of_pos hw, List.takeWhile_cons_of_neg (by simp),
          List.append_nil]
      rw [ofDigits?, hdrop, htake]
      exact hparts

/-- A text without a sign is read as a number exactly if it is the notation of one. -/
theorem ofDigits?_eq_some_iff {cs : List Char} {d : Decimal} :
    ofDigits? cs = some d ↔ d.negative = false ∧ d.unsignedChars = cs := by
  constructor
  · exact unsignedChars_of_ofDigits?
  · rintro ⟨hn, rfl⟩
    rw [ofDigits?_unsignedChars, ← hn]

end Decimal

end SearchSql
