import SearchSql.Proofs.Grammar
import SearchSql.Reader

/-!
# Readers that parse a language

What it means that a reader parses a language, and why it is enough to know it of the parts of a
reader.

* `Reader.Recognizes r P Stop` : the reader `r` takes exactly the phrases of `P`.  Since a reader
  looks one token ahead, it takes a phrase for certain only if the next token lets it stop, which
  is what `Stop` tells.
* `Reader.Parses r P Stop` : moreover, where `r` fails, it names the next token, and what it has
  taken before can be completed to a phrase.

Both are kept by every way to build readers from readers: in sequence (`Parses.bind`), by the
next token (`Parses.branch`), and in runs (`Parses.links`).  In sequence, every phrase of the
second language has to start so that the first reader stops (`Phrase.Leads`).
-/

namespace SearchSql

open Token (Located)

namespace Phrase

variable {α β : Type}

/-- The language of the empty phrase alone. -/
def only (a : α) : Phrase α := fun ts b => ts = [] ∧ b = a

/-- A phrase of `P`, and behind it a phrase of the language that its value selects. -/
def andThen (P : Phrase α) (Q : α → Phrase β) : Phrase β :=
  fun ts b => ∃ a us vs, ts = us ++ vs ∧ P us a ∧ Q a vs b

/-- A token with a part to play and a phrase of the language that it selects, or a phrase of
`Q`. -/
def orElse {γ : Type} (part : Token → γ → Prop) (P : γ → Phrase α) (Q : Phrase α) : Phrase α :=
  fun ts a => (∃ t c us, ts = t :: us ∧ part t c ∧ P c us a) ∨ Q ts a

/-- Links with a phrase behind each. -/
inductive Links (item : Phrase α) (link : Token → β → Prop) : Phrase (List (β × α))
  | nil : Links item link [] []
  | cons {t : Token} {us vs : List Token} {b : β} {a : α} {more : List (β × α)} :
      link t b → item us a → Links item link vs more →
      Links item link (t :: (us ++ vs)) ((b, a) :: more)

/-- A phrase, and links with a phrase behind each. -/
def Chained (item : Phrase α) (link : Token → β → Prop) : Phrase (Run β α) :=
  fun ts r => ∃ us vs, ts = us ++ vs ∧ item us r.first ∧ Links item link vs r.more

/-- The language has a phrase. -/
def Nonempty (P : Phrase α) : Prop := ∃ ts a, P ts a

/-- The tokens are the beginning of a phrase. -/
def Viable (P : Phrase α) (ts : List Token) : Prop := ∃ more a, P (ts ++ more) a

/-- Every phrase of `P`, with behind it what satisfies `T`, starts with what satisfies `S`. -/
def Leads (P : Phrase α) (T S : Option Token → Prop) : Prop :=
  ∀ ⦃ts a o⦄, P ts a → T o → S (ts.head?.or o)

theorem nonempty_only (a : α) : (only a).Nonempty := ⟨[], a, rfl, rfl⟩

theorem Nonempty.andThen {P : Phrase α} {Q : α → Phrase β} (hP : P.Nonempty)
    (hQ : ∀ a, (Q a).Nonempty) : (P.andThen Q).Nonempty := by
  obtain ⟨us, a, hus⟩ := hP
  obtain ⟨vs, b, hvs⟩ := hQ a
  exact ⟨us ++ vs, b, a, us, vs, rfl, hus, hvs⟩

theorem leads_true (P : Phrase α) (T : Option Token → Prop) : P.Leads T fun _ => True :=
  fun _ _ _ _ _ => trivial

theorem Leads.imp {P : Phrase α} {T S S' : Option Token → Prop} (h : P.Leads T S)
    (hS : ∀ o, S o → S' o) : P.Leads T S' :=
  fun _ _ _ hP hT => hS _ (h hP hT)

theorem leads_only (a : α) {T S : Option Token → Prop} (h : ∀ o, T o → S o) :
    (only a).Leads T S := by
  rintro ts b o ⟨rfl, rfl⟩ ho
  exact h o ho

/-- Where the first language may be empty, the second decides as well. -/
theorem Leads.andThen {P : Phrase α} {Q : α → Phrase β} {T S : Option Token → Prop}
    (hP : P.Leads S S) (hQ : ∀ a, (Q a).Leads T S) : (P.andThen Q).Leads T S := by
  rintro ts b o ⟨a, us, vs, rfl, hus, hvs⟩ ho
  have h := hP hus (hQ a hvs ho)
  rwa [← Option.or_assoc, ← List.head?_append] at h

theorem leads_clause {k : Keyword} {P : Phrase α} {S : Option Token → Prop}
    (h : ∀ t, Grammar.Key k t → S (some t)) : (Grammar.Clause k P).Leads S S := by
  intro ts a o hts ho
  cases hts with
  | absent => exact ho
  | present hk _ => exact h _ hk

theorem leads_links {item : Phrase α} {link : Token → β → Prop} {S : Option Token → Prop}
    (h : ∀ t b, link t b → S (some t)) : (Links item link).Leads S S := by
  intro ts xs o hts ho
  cases hts with
  | nil => exact ho
  | cons ht _ _ => exact h _ _ ht

namespace Links

variable {item : Phrase α} {link : Token → β → Prop}

theorem append {ts us : List Token} {xs ys : List (β × α)} (h : Links item link ts xs)
    (h' : Links item link us ys) : Links item link (ts ++ us) (xs ++ ys) := by
  induction h with
  | nil => exact h'
  | cons ht hi _ ih =>
    rw [List.cons_append, List.append_assoc]
    exact .cons ht hi ih

theorem single {t : Token} {us : List Token} {b : β} {a : α} (ht : link t b) (hi : item us a) :
    Links item link (t :: us) [(b, a)] := by
  have h : Links item link (t :: (us ++ [])) [(b, a)] := .cons ht hi .nil
  rwa [List.append_nil] at h

end Links

end Phrase

/-- What is found first in a list of tokens. -/
def Found.first : List Located → Found
  | [] => .endOfText
  | l :: _ => .token l.token

/-- Where the first of the tokens stands, or else the text ends. -/
def Reader.start (stop : Nat) : List Located → Nat
  | [] => stop
  | l :: _ => l.start

/-- The error names what stands first in `ts`, whose text ends at `stop`. -/
def SyntaxError.At (e : SyntaxError) (stop : Nat) (ts : List Located) : Prop :=
  e.found = .first ts ∧ e.position = Reader.start stop ts

namespace Reader

variable {α β γ : Type}

/-- The token that stands first, if there is one. -/
def next (ts : List Located) : Option Token := ts.head?.map Located.token

/-- The reader takes exactly the phrases of `P` behind which `Stop` holds of the next token. -/
structure Recognizes (r : Reader α) (P : Phrase α) (Stop : Option Token → Prop) : Prop where
  /-- What is taken is a phrase. -/
  sound : ∀ {stop ts a rest}, r.read stop ts = .done a rest →
    ∃ used, ts = used ++ rest ∧ P (used.map Located.token) a
  /-- A phrase is taken. -/
  complete : ∀ {a} (stop : Nat) (used rest : List Located), P (used.map Located.token) a →
    Stop (next rest) → r.read stop (used ++ rest) = .done a rest

/-- The reader fails with `e` at the first token of `mid`, which it takes, and what stands before
is the beginning of a phrase. -/
def Blames (P : Phrase α) (e : SyntaxError) (stop : Nat) (ts rest : List Located) : Prop :=
  ∃ used mid, ts = used ++ mid ∧ rest = mid.tail ∧ e.At stop mid ∧
    P.Viable (used.map Located.token)

/-- The reader takes exactly the phrases of `P`, and fails at the first token that does not
continue a phrase. -/
structure Parses (r : Reader α) (P : Phrase α) (Stop : Option Token → Prop) : Prop extends
    Recognizes r P Stop where
  failed : ∀ {stop ts e rest}, r.read stop ts = .failed e rest → Blames P e stop ts rest

theorem next_append (us vs : List Located) :
    next (us ++ vs) = ((us.map Located.token).head?).or (next vs) := by
  cases us <;> rfl

/-! ### Taking computations apart -/

theorem read_bind_of_done {r : Reader α} {a : α} {stop : Nat} {ts rest : List Located}
    (h : r.read stop ts = .done a rest) (f : α → Reader β) :
    (r >>= f).read stop ts = (f a).read stop rest := by
  rw [read_bind, h]

theorem of_read_bind_done {r : Reader α} {f : α → Reader β} {b : β} {stop : Nat}
    {ts rest : List Located} (h : (r >>= f).read stop ts = .done b rest) :
    ∃ a mid, r.read stop ts = .done a mid ∧ (f a).read stop mid = .done b rest := by
  rw [read_bind] at h
  split at h
  · exact ⟨_, _, ‹_›, h⟩
  · cases h

theorem of_read_bind_failed {r : Reader α} {f : α → Reader β} {e : SyntaxError} {stop : Nat}
    {ts rest : List Located} (h : (r >>= f).read stop ts = .failed e rest) :
    r.read stop ts = .failed e rest ∨
      ∃ a mid, r.read stop ts = .done a mid ∧ (f a).read stop mid = .failed e rest := by
  rw [read_bind] at h
  split at h
  · exact .inr ⟨_, _, ‹_›, h⟩
  · cases h
    exact .inl ‹_›

/-- A phrase of one token is one located token. -/
theorem exists_located_of_single {part : Token → α → Prop} {us : List Located} {a : α}
    (h : Grammar.Single part (us.map Located.token) a) : ∃ l, us = [l] ∧ part l.token a := by
  generalize hts : us.map Located.token = ts at h
  obtain ⟨ht⟩ := h
  obtain ⟨l, rfl, rfl⟩ := List.map_eq_singleton_iff.1 hts
  exact ⟨l, rfl, ht⟩

/-! ### The same reader, another language -/

namespace Recognizes

variable {r : Reader α} {P Q : Phrase α} {S T : Option Token → Prop}

theorem congr (h : Recognizes r P S) (hPQ : ∀ ts a, P ts a ↔ Q ts a) : Recognizes r Q S where
  sound hr := by
    obtain ⟨used, hts, hP⟩ := h.sound hr
    exact ⟨used, hts, (hPQ _ _).1 hP⟩
  complete stop used rest hQ hS := h.complete stop used rest ((hPQ _ _).2 hQ) hS

theorem weaken (h : Recognizes r P S) (hTS : ∀ o, T o → S o) : Recognizes r P T where
  sound := h.sound
  complete stop used rest hP hT := h.complete stop used rest hP (hTS _ hT)

end Recognizes

namespace Blames

variable {P : Phrase α} {Q : Phrase β} {e : SyntaxError} {stop : Nat} {ts rest : List Located}

/-- An error in a part of a phrase is an error in the phrase. -/
theorem imp (h : Blames P e stop ts rest) (us : List Located)
    (hPQ : ∀ vs, P.Viable vs → Q.Viable (us.map Located.token ++ vs)) :
    Blames Q e stop (us ++ ts) rest := by
  obtain ⟨used, mid, rfl, hrest, he, hv⟩ := h
  refine ⟨us ++ used, mid, by rw [List.append_assoc], hrest, he, ?_⟩
  rw [List.map_append]
  exact hPQ _ hv

end Blames

namespace Parses

variable {r : Reader α} {P Q : Phrase α} {S T : Option Token → Prop}

theorem congr (h : Parses r P S) (hPQ : ∀ ts a, P ts a ↔ Q ts a) : Parses r Q S where
  toRecognizes := h.toRecognizes.congr hPQ
  failed hr := (h.failed hr).imp [] fun _ ⟨more, a, hP⟩ => ⟨more, a, (hPQ _ _).1 hP⟩

theorem weaken (h : Parses r P S) (hTS : ∀ o, T o → S o) : Parses r P T where
  toRecognizes := h.toRecognizes.weaken hTS
  failed := h.failed

end Parses

/-! ### One token, and none -/

theorem parses_pure (a : α) (S : Option Token → Prop) : Parses (pure a) (Phrase.only a) S where
  sound := by
    intro stop ts b rest h
    cases h
    exact ⟨[], rfl, rfl, rfl⟩
  complete := by
    rintro b stop used rest ⟨hu, rfl⟩ -
    rw [List.map_eq_nil_iff.1 hu]
    rfl
  failed h := by cases h

section lookahead

variable {expected : Expectation} {part? : Token → Option α} {stop : Nat} {ts rest : List Located}
  {e : SyntaxError}

theorem of_read_take_done {a : α} (h : (take expected part?).read stop ts = .done a rest) :
    ∃ l, ts = l :: rest ∧ part? l.token = some a := by
  cases ts with
  | nil => cases h
  | cons l ts =>
    cases hl : part? l.token with
    | none => rw [read_take_none hl] at h; cases h
    | some b => rw [read_take_some hl] at h; cases h; exact ⟨l, rfl, hl⟩

theorem of_read_take_failed (h : (take expected part?).read stop ts = .failed e rest) :
    rest = ts.tail ∧ e.At stop ts ∧ ∀ t ∈ next ts, part? t = none := by
  cases ts with
  | nil => cases h; exact ⟨rfl, ⟨rfl, rfl⟩, nofun⟩
  | cons l ts =>
    cases hl : part? l.token with
    | some b => rw [read_take_some hl] at h; cases h
    | none =>
      rw [read_take_none hl] at h
      cases h
      refine ⟨rfl, ⟨rfl, rfl⟩, ?_⟩
      rintro t ⟨⟩
      exact hl

theorem read_probe_of_none (h : ∀ t ∈ next ts, part? t = none) (stop : Nat) :
    (probe part?).read stop ts = .done none ts := by
  cases ts with
  | nil => rfl
  | cons l ts => exact read_probe_none (h l.token rfl) stop ts

/-- Looking at a token leaves it, or takes it if it has a part to play. -/
theorem of_read_probe_done {o : Option α} (h : (probe part?).read stop ts = .done o rest) :
    (o = none ∧ ts = rest ∧ ∀ t ∈ next ts, part? t = none) ∨
      ∃ l a, o = some a ∧ ts = l :: rest ∧ part? l.token = some a := by
  cases ts with
  | nil => cases h; exact .inl ⟨rfl, rfl, nofun⟩
  | cons l ts =>
    cases hl : part? l.token with
    | none =>
      rw [read_probe_none hl] at h
      cases h
      refine .inl ⟨rfl, rfl, ?_⟩
      rintro t ⟨⟩
      exact hl
    | some a =>
      rw [read_probe_some hl] at h
      cases h
      exact .inr ⟨l, a, rfl, rfl, hl⟩

/-- Looking at a token does not fail. -/
theorem read_probe_ne_failed (part? : Token → Option α) (stop : Nat) (ts : List Located)
    (e : SyntaxError) (rest : List Located) : (probe part?).read stop ts ≠ .failed e rest := by
  cases ts with
  | nil => exact nofun
  | cons l ts =>
    cases hl : part? l.token with
    | none => rw [read_probe_none hl]; exact nofun
    | some c => rw [read_probe_some hl]; exact nofun

end lookahead

theorem parses_take {part? : Token → Option α} {part : Token → α → Prop}
    (expected : Expectation) (hpart : ∀ t a, part? t = some a ↔ part t a)
    (hne : ∃ t a, part t a) :
    Parses (take expected part?) (Grammar.Single part) fun _ => True where
  sound := by
    intro stop ts a rest h
    obtain ⟨l, rfl, hl⟩ := of_read_take_done h
    exact ⟨[l], rfl, .intro ((hpart _ _).1 hl)⟩
  complete := by
    intro a stop used rest h _
    obtain ⟨l, rfl, ht⟩ := exists_located_of_single h
    exact read_take_some ((hpart _ _).2 ht) stop rest
  failed := by
    intro stop ts e rest h
    obtain ⟨hrest, he, -⟩ := of_read_take_failed h
    obtain ⟨t, a, ht⟩ := hne
    exact ⟨[], ts, rfl, hrest, he, [t], a, .intro ht⟩

theorem read_position (stop : Nat) (ts : List Located) :
    position.read stop ts = .done (start stop ts) ts := by
  cases ts <;> rfl

/-- At the end of the text nothing is taken, and any token is an error. -/
theorem parses_finish : Parses finish (Phrase.only ()) fun o => o = none where
  sound := by
    intro stop ts u rest h
    cases ts with
    | nil => cases h; exact ⟨[], rfl, rfl, rfl⟩
    | cons l ts => cases h
  complete := by
    rintro u stop used rest ⟨hu, -⟩ hT
    rw [List.map_eq_nil_iff.1 hu]
    cases rest with
    | nil => rfl
    | cons l ts => cases hT
  failed := by
    intro stop ts e rest h
    cases ts with
    | nil => cases h
    | cons l ts => cases h; exact ⟨[], l :: _, rfl, rfl, ⟨rfl, rfl⟩, [], (), rfl, rfl⟩

/-! ### Sequences -/

theorem Recognizes.bind {r : Reader α} {f : α → Reader β} {P : Phrase α} {Q : α → Phrase β}
    {S T : Option Token → Prop} (hr : Recognizes r P S) (hf : ∀ a, Recognizes (f a) (Q a) T)
    (hlead : ∀ a, (Q a).Leads T S) : Recognizes (r >>= f) (P.andThen Q) T where
  sound := by
    intro stop ts b rest h
    obtain ⟨a, mid, h₁, h₂⟩ := of_read_bind_done h
    obtain ⟨us, rfl, hP⟩ := hr.sound h₁
    obtain ⟨vs, rfl, hQ⟩ := (hf a).sound h₂
    refine ⟨us ++ vs, by rw [List.append_assoc], a, _, _, ?_, hP, hQ⟩
    rw [List.map_append]
  complete := by
    rintro b stop used rest ⟨a, us', vs', hsplit, hP, hQ⟩ hT
    obtain ⟨us, vs, rfl, rfl, rfl⟩ := List.map_eq_append_iff.1 hsplit
    -- the second phrase starts so that the first reader stops
    have hS : S (next (vs ++ rest)) := by
      rw [next_append]
      exact hlead a hQ hT
    rw [List.append_assoc, read_bind_of_done (hr.complete stop _ _ hP hS)]
    exact (hf a).complete stop vs rest hQ hT

theorem Blames.andThen {P : Phrase α} {Q : α → Phrase β} {a : α} {e : SyntaxError} {stop : Nat}
    {us ts rest : List Located} (h : Blames (Q a) e stop ts rest)
    (hP : P (us.map Located.token) a) : Blames (P.andThen Q) e stop (us ++ ts) rest := by
  refine h.imp us ?_
  rintro vs ⟨more, b, hQ⟩
  exact ⟨more, b, a, _, vs ++ more, by rw [List.append_assoc], hP, hQ⟩

/-- In a sequence the first reader fails, or it takes a phrase and the second one fails. -/
theorem Parses.failed_bind {r : Reader α} {f : α → Reader β} {P : Phrase α}
    {Q : α → Phrase β} {S : Option Token → Prop} {e : SyntaxError} {stop : Nat}
    {ts rest : List Located} (hr : Parses r P S) (hne : ∀ a, (Q a).Nonempty)
    (h : (r >>= f).read stop ts = .failed e rest) :
    Blames (P.andThen Q) e stop ts rest ∨ ∃ a us mid, ts = us ++ mid ∧
      P (us.map Located.token) a ∧ (f a).read stop mid = .failed e rest := by
  rcases of_read_bind_failed h with h | ⟨a, mid, h₁, h₂⟩
  · refine .inl ((hr.failed h).imp [] ?_)
    rintro us ⟨more, a, hP⟩
    obtain ⟨vs, b, hQ⟩ := hne a
    exact ⟨more ++ vs, b, a, us ++ more, vs, by simp, hP, hQ⟩
  · obtain ⟨us, rfl, hP⟩ := hr.sound h₁
    exact .inr ⟨a, us, mid, rfl, hP, h₂⟩

theorem Parses.bind {r : Reader α} {f : α → Reader β} {P : Phrase α} {Q : α → Phrase β}
    {S T : Option Token → Prop} (hr : Parses r P S) (hf : ∀ a, Parses (f a) (Q a) T)
    (hlead : ∀ a, (Q a).Leads T S) (hne : ∀ a, (Q a).Nonempty) :
    Parses (r >>= f) (P.andThen Q) T where
  toRecognizes := hr.toRecognizes.bind (fun a => (hf a).toRecognizes) hlead
  failed := by
    intro stop ts e rest h
    rcases hr.failed_bind hne h with h | ⟨a, us, mid, rfl, hP, h⟩
    · exact h
    · exact ((hf a).failed h).andThen hP

/-- What is read is made into another value. -/
theorem Parses.map {r : Reader α} {P : Phrase α} {S : Option Token → Prop} (hr : Parses r P S)
    (g : α → β) {Q : Phrase β} (hQ : ∀ ts b, Q ts b ↔ ∃ a, P ts a ∧ g a = b) :
    Parses (do return g (← r)) Q S := by
  have h := hr.bind (fun a => parses_pure (g a) S) (fun a => Phrase.leads_only _ fun _ h => h)
    fun a => Phrase.nonempty_only _
  refine h.congr fun ts b => ?_
  rw [hQ]
  -- nothing is taken behind the phrase
  constructor
  · rintro ⟨a, us, vs, rfl, hP, rfl, rfl⟩
    exact ⟨a, by rwa [List.append_nil], rfl⟩
  · rintro ⟨a, hP, rfl⟩
    exact ⟨a, ts, [], by rw [List.append_nil], hP, rfl, rfl⟩

/-! ### Choices -/

/-- A choice by the next token.  The phrases of the other branch must not start with a token that
has the part in question. -/
theorem Recognizes.branch {part? : Token → Option γ} {part : Token → γ → Prop}
    {f : Option γ → Reader α} {P : γ → Phrase α} {Q : Phrase α} {S : Option Token → Prop}
    (hpart : ∀ t c, part? t = some c ↔ part t c)
    (hsome : ∀ c, Recognizes (f (some c)) (P c) S) (hnone : Recognizes (f none) Q S)
    (hlead : Q.Leads S fun o => ∀ t ∈ o, ∀ c, ¬ part t c) :
    Recognizes (probe part? >>= f) (Phrase.orElse part P Q) S where
  sound := by
    intro stop ts a rest h
    obtain ⟨o, mid, h₁, h₂⟩ := of_read_bind_done h
    rcases of_read_probe_done h₁ with ⟨rfl, rfl, -⟩ | ⟨l, c, rfl, rfl, hl⟩
    · obtain ⟨used, hts, hQ⟩ := hnone.sound h₂
      exact ⟨used, hts, .inr hQ⟩
    · obtain ⟨used, rfl, hP⟩ := (hsome c).sound h₂
      exact ⟨l :: used, rfl, .inl ⟨_, c, _, rfl, (hpart _ _).1 hl, hP⟩⟩
  complete := by
    rintro a stop used rest (⟨t, c, us', hsplit, ht, hP⟩ | hQ) hS
    · obtain ⟨l, us, rfl, rfl, rfl⟩ := List.map_eq_cons_iff.1 hsplit
      rw [List.cons_append, read_bind_of_done (read_probe_some ((hpart _ _).2 ht) stop _)]
      exact (hsome c).complete stop us rest hP hS
    · -- the next token has no part to play, so that the other branch is read
      have hno : ∀ t ∈ next (used ++ rest), part? t = none := by
        intro t ht
        rw [next_append] at ht
        refine Option.eq_none_iff_forall_ne_some.2 fun c hc => ?_
        exact hlead hQ hS t ht c ((hpart _ _).1 hc)
      rw [read_bind_of_done (read_probe_of_none hno stop)]
      exact hnone.complete stop used rest hQ hS

theorem Parses.branch {part? : Token → Option γ} {part : Token → γ → Prop}
    {f : Option γ → Reader α} {P : γ → Phrase α} {Q : Phrase α} {S : Option Token → Prop}
    (hpart : ∀ t c, part? t = some c ↔ part t c)
    (hsome : ∀ c, Parses (f (some c)) (P c) S) (hnone : Parses (f none) Q S)
    (hlead : Q.Leads S fun o => ∀ t ∈ o, ∀ c, ¬ part t c) :
    Parses (probe part? >>= f) (Phrase.orElse part P Q) S where
  toRecognizes := .branch hpart (fun c => (hsome c).toRecognizes) hnone.toRecognizes hlead
  failed := by
    intro stop ts e rest h
    have hQ : ∀ us, Q.Viable us → (Phrase.orElse part P Q).Viable us :=
      fun us ⟨more, a, hus⟩ => ⟨more, a, .inr hus⟩
    rcases of_read_bind_failed h with h₁ | ⟨o, mid, h₁, h₂⟩
    · exact absurd h₁ (read_probe_ne_failed _ _ _ _ _)
    · rcases of_read_probe_done h₁ with ⟨rfl, rfl, -⟩ | ⟨l, c, rfl, rfl, hl⟩
      · exact (hnone.failed h₂).imp [] hQ
      · refine ((hsome c).failed h₂).imp [l] ?_
        rintro us ⟨more, a, hP⟩
        exact ⟨more, a, .inl ⟨_, c, us ++ more, rfl, (hpart _ _).1 hl, hP⟩⟩

theorem bind_pure_bind (r : Reader α) (g : α → β) (f : β → Reader γ) :
    (do return g (← r)) >>= f = r >>= fun a => f (g a) := by
  ext stop ts
  rw [read_bind, read_bind, read_bind]
  cases r.read stop ts <;> rfl

/-- What is accepted as a keyword spells it. -/
theorem keyword_part_iff {k : Keyword} (t : Token) (u : Unit) :
    (if t.keyword? = some k then some () else none) = some u ↔ Grammar.Key k t := by
  simp [Grammar.key_iff]

theorem mark_part_iff {c : Char} (t : Token) (u : Unit) :
    (if t.isMark c then some () else none) = some u ↔ t = .mark c := by
  simp [Token.isMark]

theorem parses_keyword (k : Keyword) :
    Parses (keyword k) (Grammar.Single fun t _ => Grammar.Key k t) fun _ => True :=
  parses_take _ keyword_part_iff ⟨.word k.spelling, (), .word (Keyword.ofWord?_spelling k)⟩

/-- A choice by a keyword. -/
theorem parses_acceptKeyword {k : Keyword} {f : Bool → Reader α} {P Q : Phrase α}
    {S : Option Token → Prop} (hyes : Parses (f true) P S) (hno : Parses (f false) Q S)
    (hlead : Q.Leads S fun o => ∀ t ∈ o, ¬ Grammar.Key k t) :
    Parses (acceptKeyword k >>= f) (Phrase.orElse (fun t (_ : Unit) => Grammar.Key k t)
      (fun _ => P) Q) S := by
  rw [acceptKeyword, bind_pure_bind]
  exact .branch keyword_part_iff (fun _ => hyes) hno fun ts a o hQ hS t ht _ => hlead hQ hS t ht

/-- A choice by a single character. -/
theorem parses_acceptMark {c : Char} {f : Bool → Reader α} {P Q : Phrase α}
    {S : Option Token → Prop} (hyes : Parses (f true) P S) (hno : Parses (f false) Q S)
    (hlead : Q.Leads S fun o => o ≠ some (.mark c)) :
    Parses (acceptMark c >>= f) (Phrase.orElse (fun t (_ : Unit) => t = .mark c)
      (fun _ => P) Q) S := by
  rw [acceptMark, bind_pure_bind]
  refine .branch mark_part_iff (fun _ => hyes) hno fun ts a o hQ hS t ht _ htc => ?_
  exact hlead hQ hS (htc ▸ ht)

/-! ### Clauses -/

theorem clause_eq (k : Keyword) (body : Reader α) :
    clause k body = probe (fun t => if t.keyword? = some k then some () else none) >>= fun o =>
      if o.isSome then do return some (← body) else return none := by
  rw [clause, acceptKeyword, bind_pure_bind]

theorem read_clause_bind_of_key {k : Keyword} {l : Located} (hk : Grammar.Key k l.token)
    (body : Reader α) (f : Option α → Reader β) (stop : Nat) (ts : List Located) :
    (clause k body >>= f).read stop (l :: ts) =
      (body >>= fun a => f (some a)).read stop ts := by
  rw [← bind_pure_bind body some f, clause_eq, read_bind, read_bind,
    read_probe_some ((keyword_part_iff _ ()).2 hk)]
  rfl

theorem of_read_clause_failed {k : Keyword} {body : Reader α} {stop : Nat} {e : SyntaxError}
    {ts rest : List Located} (h : (clause k body).read stop ts = .failed e rest) :
    ∃ l us, ts = l :: us ∧ Grammar.Key k l.token ∧ body.read stop us = .failed e rest := by
  rw [clause_eq] at h
  rcases of_read_bind_failed h with h | ⟨o, mid, h₁, h₂⟩
  · exact absurd h (read_probe_ne_failed _ _ _ _ _)
  · rcases of_read_probe_done h₁ with ⟨rfl, rfl, -⟩ | ⟨l, u, rfl, rfl, hl⟩
    · cases h₂
    · refine ⟨l, mid, rfl, (keyword_part_iff _ u).1 hl, ?_⟩
      rcases of_read_bind_failed h₂ with h | ⟨a, mid, -, h⟩
      · exact h
      · cases h

section clause

variable {k : Keyword} {body : Reader α} {P : Phrase α} {S T : Option Token → Prop}

/-- Behind a clause there must stand what ends its body, and, where the clause is left out, not
its keyword. -/
theorem Recognizes.clause (hb : Recognizes body P S) (hTS : ∀ o, T o → S o)
    (hk : ∀ t, T (some t) → ¬ Grammar.Key k t) :
    Recognizes (clause k body) (Grammar.Clause k P) T := by
  rw [clause_eq]
  have hsome : Recognizes (do return some (← body)) (P.andThen fun a => .only (some a)) T :=
    (hb.weaken hTS).bind (fun a => (parses_pure _ T).toRecognizes)
      fun a => Phrase.leads_only _ fun _ h => h
  have hlead : (Phrase.only (none : Option α)).Leads T
      fun o => ∀ t ∈ o, ∀ _ : Unit, ¬ Grammar.Key k t :=
    Phrase.leads_only _ fun o ho t ht _ => hk t (ht ▸ ho)
  refine .congr (.branch keyword_part_iff (fun _ => hsome) (parses_pure none T).toRecognizes
    hlead) fun ts o => ?_
  constructor
  · rintro (⟨t, -, us, rfl, ht, a, us, vs, rfl, hP, rfl, rfl⟩ | ⟨rfl, rfl⟩)
    · rw [List.append_nil]
      exact .present ht hP
    · exact .absent
  · intro h
    cases h with
    | absent => exact .inr ⟨rfl, rfl⟩
    | @present t ts a ht hP =>
      exact .inl ⟨t, (), ts, rfl, ht, a, ts, [], by rw [List.append_nil], hP, rfl, rfl⟩

theorem Parses.clause (hb : Parses body P S) (hTS : ∀ o, T o → S o)
    (hk : ∀ t, T (some t) → ¬ Grammar.Key k t) :
    Parses (clause k body) (Grammar.Clause k P) T where
  toRecognizes := hb.toRecognizes.clause hTS hk
  failed h := by
    obtain ⟨l, us, rfl, hl, hbody⟩ := of_read_clause_failed h
    refine (hb.failed hbody).imp [l] ?_
    rintro vs ⟨more, a, hP⟩
    exact ⟨more, some a, .present hl hP⟩

end clause

/-! ### Runs -/

section links

variable {item : Reader α} {link? : Token → Option β} {stop : Nat} {l : Located} {b : β}

theorem links_stop (hl : link? l.token = none) (ts : List Located) :
    links item link? stop (l :: ts) = .done [] (l :: ts) := by
  rw [links.eq_def]
  simp [hl]

theorem links_cons (hl : link? l.token = some b) (ts : List Located) :
    links item link? stop (l :: ts) =
      match item.read stop ts with
      | .failed e rest => .failed e rest
      | .done a rest =>
        match links item link? stop rest with
        | .done more rest => .done ((b, a) :: more) rest
        | .failed e rest => .failed e rest := by
  rw [links.eq_def]
  simp only [hl]
  split
  · rename_i h
    rw [h]
  · rename_i a mid h
    cases hm : links item link? stop mid <;> simp only [h, hm]

end links

theorem parses_links {item : Reader α} {link? : Token → Option β} {link : Token → β → Prop}
    {P : Phrase α} {S : Option Token → Prop} (hitem : Parses item P S)
    (hlink : ∀ t b, link? t = some b ↔ link t b) (hS : ∀ t b, link t b → S (some t)) :
    Parses ⟨links item link?, links_suffix item link?⟩ (Phrase.Links P link)
      fun o => S o ∧ ∀ t ∈ o, ∀ b, ¬ link t b where
  sound := by
    intro stop ts xs rest h
    change links item link? stop ts = _ at h
    fun_induction links item link? stop ts generalizing xs rest with
    | case1 => cases h; exact ⟨[], rfl, .nil⟩
    | case2 l ts hl => cases h; exact ⟨[], rfl, .nil⟩
    | case3 l ts b hl e rest' hi => cases h
    | case4 l ts b hl a mid hi more rest' hm ih =>
      cases h
      obtain ⟨us, rfl, hP⟩ := hitem.sound hi
      obtain ⟨vs, rfl, hL⟩ := ih hm
      refine ⟨l :: (us ++ vs), by simp, ?_⟩
      rw [List.map_cons, List.map_append]
      exact .cons ((hlink _ _).1 hl) hP hL
    | case5 l ts b hl a mid hi e rest' hm ih => cases h
  complete := by
    intro xs stop used rest h hT
    change links item link? stop (used ++ rest) = _
    generalize htoks : used.map Located.token = ts at h
    induction h generalizing used with
    | nil =>
      rw [List.map_eq_nil_iff.1 htoks, List.nil_append]
      cases rest with
      | nil => rw [links]
      | cons l ts =>
        refine links_stop (Option.eq_none_iff_forall_ne_some.2 fun b hb => ?_) ts
        exact hT.2 l.token rfl b ((hlink _ _).1 hb)
    | @cons t us' vs' b a more ht hP hL ih =>
      obtain ⟨l, ws, rfl, rfl, hws⟩ := List.map_eq_cons_iff.1 htoks
      obtain ⟨us, vs, rfl, rfl, rfl⟩ := List.map_eq_append_iff.1 hws
      -- behind the item there stands the next link, or what ends the run
      have hstop : S (next (vs ++ rest)) := by
        rw [next_append]
        exact Phrase.leads_links hS hL hT.1
      have hi := hitem.complete stop us (vs ++ rest) hP hstop
      rw [List.cons_append, List.append_assoc, links_cons ((hlink _ _).2 ht), hi]
      dsimp only
      rw [ih vs rfl]
  failed := by
    intro stop ts e rest h
    change links item link? stop ts = _ at h
    fun_induction links item link? stop ts generalizing rest with
    | case1 => cases h
    | case2 l ts hl => cases h
    | case3 l ts b hl e' rest' hi =>
      -- the item behind the link fails
      cases h
      refine (hitem.failed hi).imp [l] ?_
      rintro us ⟨more, a, hP⟩
      exact ⟨more, [(b, a)], .single ((hlink _ _).1 hl) hP⟩
    | case4 l ts b hl a mid hi more rest' hm ih => cases h
    | case5 l ts b hl a mid hi e' rest' hm ih =>
      -- the link and its item are taken, and the error is in the rest of the run
      cases h
      obtain ⟨us, rfl, hP⟩ := hitem.sound hi
      refine (ih hm).imp (l :: us) ?_
      rintro vs ⟨more, xs, hL⟩
      refine ⟨more, (b, a) :: xs, ?_⟩
      rw [List.map_cons, List.cons_append, List.cons_append, List.append_assoc]
      exact .cons ((hlink _ _).1 hl) hP hL

/-- A run is an item, and links with an item behind each. -/
theorem parses_chain {item : Reader α} {link? : Token → Option β} {link : Token → β → Prop}
    {P : Phrase α} {S : Option Token → Prop} (hitem : Parses item P S)
    (hlink : ∀ t b, link? t = some b ↔ link t b) (hS : ∀ t b, link t b → S (some t)) :
    Parses (chain item link?) (Phrase.Chained P link) fun o => S o ∧ ∀ t ∈ o, ∀ b, ¬ link t b := by
  refine .congr (hitem.bind (fun a => (parses_links hitem hlink hS).map (Run.mk a)
    fun ts r => Iff.rfl) ?_ ?_) fun ts r => ?_
  · rintro a ts r o ⟨more, hL, -⟩ ho
    exact Phrase.leads_links hS hL ho.1
  · exact fun a => ⟨[], ⟨a, []⟩, [], .nil, rfl⟩
  · constructor
    · rintro ⟨a, us, vs, rfl, hP, more, hL, rfl⟩
      exact ⟨us, vs, rfl, hP, hL⟩
    · rintro ⟨us, vs, rfl, hP, hL⟩
      exact ⟨r.first, us, vs, rfl, hP, r.more, hL, rfl⟩

end Reader

end SearchSql
