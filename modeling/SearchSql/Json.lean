/-!
# JSON values

* `Json` : the JSON values of search requests and syntax trees.  Numbers are natural numbers.
* `Json.ofMembers` : an object from its members.  The members of an object are kept in the order
  of their keys, each key once, so that equal objects are equal as values of the type; of two
  members with one key the later one counts.
* `Json.get?` : the member of an object; `Json.get?_ofMembers` says which it is, and
  `Json.ofMembers_eq_of_get?` that an object is determined by its members; objects with the same
  keys are compared member by member (`Json.ofMembers_inj`).
-/

namespace SearchSql

/-- A JSON value. -/
inductive Json where
  | null
  | number (value : Nat)
  | text (value : String)
  | list (items : List Json)
  | object (members : List (String × Json))
deriving Repr

namespace Json

/-- Set the member `key` in members that are ordered by key. -/
def setMember (key : String) (value : Json) : List (String × Json) → List (String × Json)
  | [] => [(key, value)]
  | (k, v) :: members =>
    if key < k then (key, value) :: (k, v) :: members
    else if key = k then (key, value) :: members
    else (k, v) :: setMember key value members

/-- The given members ordered by key.  Of two members with one key the later one is kept. -/
def orderMembers (members : List (String × Json)) : List (String × Json) :=
  members.foldl (fun ms m => setMember m.1 m.2 ms) []

/-- The object with the given members. -/
def ofMembers (members : List (String × Json)) : Json := .object (orderMembers members)

/-- The member `key` of an object. -/
def get? (key : String) : Json → Option Json
  | .object members => members.lookup key
  | _ => none

/-- The value of a part that may be left out, which is then `null`. -/
def ofOption {α : Type} (f : α → Json) : Option α → Json
  | some a => f a
  | none => .null

/-- A list of texts. -/
def texts (ss : List String) : Json := .list (ss.map .text)

/-! ### Looking up a member -/

theorem lookup_cons_ite (key k : String) (v : Json) (ms : List (String × Json)) :
    ((k, v) :: ms).lookup key = if key = k then some v else ms.lookup key := by
  by_cases h : key = k
  · simp [h]
  · simp [List.lookup_cons, beq_false_of_ne h, h]

theorem lookup_setMember_self (key : String) (value : Json) (ms : List (String × Json)) :
    (setMember key value ms).lookup key = some value := by
  induction ms with
  | nil => simp [setMember]
  | cons m ms ih =>
    obtain ⟨k, v⟩ := m
    simp only [setMember]
    split
    · simp
    · split
      · simp
      · rename_i h
        simp [List.lookup_cons, beq_false_of_ne h, ih]

theorem lookup_setMember_of_ne {key key' : String} (h : key' ≠ key) (value : Json)
    (ms : List (String × Json)) : (setMember key value ms).lookup key' = ms.lookup key' := by
  have hb := beq_false_of_ne h
  induction ms with
  | nil => simp [setMember, List.lookup_cons, hb]
  | cons m ms ih =>
    obtain ⟨k, v⟩ := m
    simp only [setMember]
    split
    · simp [List.lookup_cons, hb]
    · split
      · rename_i hk
        subst hk
        simp [List.lookup_cons, hb]
      · simp [List.lookup_cons, ih]

/-- Of two members with one key the later one counts. -/
theorem get?_ofMembers (key : String) (ms : List (String × Json)) :
    (ofMembers ms).get? key = ms.reverse.lookup key := by
  rw [ofMembers, get?, orderMembers, List.foldl_eq_foldr_reverse]
  induction ms.reverse with
  | nil => rfl
  | cons m ms ih =>
    obtain ⟨k, v⟩ := m
    rw [List.foldr_cons, List.lookup_cons]
    by_cases h : key = k
    · subst h
      simp [lookup_setMember_self]
    · rw [lookup_setMember_of_ne h, ih]
      simp [beq_false_of_ne h]

/-! ### The members of an object are in order -/

/-- The keys increase. -/
def Ordered (ms : List (String × Json)) : Prop := ms.Pairwise fun m m' => m.1 < m'.1

theorem mem_setMember {key : String} {value : Json} {ms : List (String × Json)}
    {m : String × Json} (h : m ∈ setMember key value ms) : m = (key, value) ∨ m ∈ ms := by
  induction ms with
  | nil => simpa [setMember] using h
  | cons m' ms ih =>
    obtain ⟨k, v⟩ := m'
    simp only [setMember] at h
    split at h
    · simpa using h
    · split at h
      · rcases List.mem_cons.1 h with h | h
        · exact .inl h
        · exact .inr (List.mem_cons_of_mem _ h)
      · rcases List.mem_cons.1 h with h | h
        · exact .inr (h ▸ List.mem_cons_self)
        · rcases ih h with h | h
          · exact .inl h
          · exact .inr (List.mem_cons_of_mem _ h)

theorem ordered_setMember (key : String) (value : Json) {ms : List (String × Json)}
    (h : Ordered ms) : Ordered (setMember key value ms) := by
  induction ms with
  | nil => simp [setMember, Ordered]
  | cons m ms ih =>
    obtain ⟨k, v⟩ := m
    obtain ⟨hk, hms⟩ := List.pairwise_cons.1 h
    simp only [setMember]
    split
    · rename_i hlt
      refine List.pairwise_cons.2 ⟨fun m hm => ?_, h⟩
      rcases List.mem_cons.1 hm with rfl | hm
      · exact hlt
      · exact String.lt_trans hlt (hk m hm)
    · rename_i hge
      split
      · rename_i heq
        subst heq
        exact List.pairwise_cons.2 ⟨hk, hms⟩
      · rename_i hne
        refine List.pairwise_cons.2 ⟨fun m hm => ?_, ih hms⟩
        rcases mem_setMember hm with rfl | hm
        · exact Std.lt_of_le_of_ne (Std.not_lt.1 hge) (Ne.symm hne)
        · exact hk m hm

theorem ordered_orderMembers (ms : List (String × Json)) : Ordered (orderMembers ms) := by
  rw [orderMembers, List.foldl_eq_foldr_reverse]
  induction ms.reverse with
  | nil => exact List.Pairwise.nil
  | cons m ms ih => exact ordered_setMember _ _ ih

/-! ### Objects with the same members are equal -/

/-- A key in front of all others is not the key of a member. -/
theorem lookup_eq_none_of_lt {key : String} {ms : List (String × Json)}
    (h : ∀ m ∈ ms, key < m.1) : ms.lookup key = none := by
  induction ms with
  | nil => rfl
  | cons m ms ih =>
    have hne : key ≠ m.1 := by
      intro heq
      have hlt := h m List.mem_cons_self
      rw [heq] at hlt
      exact String.lt_irrefl _ hlt
    rw [List.lookup_cons, beq_false_of_ne hne]
    exact ih fun m' hm' => h m' (List.mem_cons_of_mem m hm')

/-- The first key of ordered members is not behind that of others with the same members. -/
theorem Ordered.not_lt {k k' : String} {v v' : Json} {ms ms' : List (String × Json)}
    (h' : Ordered ((k', v') :: ms'))
    (heq : ((k, v) :: ms).lookup k = ((k', v') :: ms').lookup k) : ¬ k < k' := by
  intro hlt
  have hnone : ((k', v') :: ms').lookup k = none := by
    refine lookup_eq_none_of_lt fun m hm => ?_
    rcases List.mem_cons.1 hm with rfl | hm
    · exact hlt
    · exact String.lt_trans hlt ((List.pairwise_cons.1 h').1 m hm)
  rw [hnone, List.lookup_cons_self] at heq
  cases heq

theorem Ordered.ext {ms ms' : List (String × Json)} (h : Ordered ms) (h' : Ordered ms')
    (heq : ∀ key, ms.lookup key = ms'.lookup key) : ms = ms' := by
  induction ms generalizing ms' with
  | nil =>
    cases ms' with
    | nil => rfl
    | cons m ms' =>
      obtain ⟨k, v⟩ := m
      simpa using heq k
  | cons m ms ih =>
    obtain ⟨k, v⟩ := m
    cases ms' with
    | nil => simpa using heq k
    | cons m' ms' =>
      obtain ⟨k', v'⟩ := m'
      -- both start with the least key
      have hk : k = k' :=
        Std.le_antisymm (Std.not_lt.1 (h.not_lt (heq k').symm)) (Std.not_lt.1 (h'.not_lt (heq k)))
      subst hk
      have hv : v = v' := by simpa using heq k
      obtain ⟨hlt, hms⟩ := List.pairwise_cons.1 h
      obtain ⟨hlt', hms'⟩ := List.pairwise_cons.1 h'
      have htail : ms = ms' := by
        refine ih hms hms' fun key => ?_
        by_cases hkey : key = k
        · subst hkey
          rw [lookup_eq_none_of_lt hlt, lookup_eq_none_of_lt hlt']
        · have hb := beq_false_of_ne hkey
          simpa [List.lookup_cons, hb] using heq key
      rw [hv, htail]

/-- Objects are equal if they have the same members. -/
theorem ofMembers_eq_of_get? {ms ms' : List (String × Json)}
    (h : ∀ key, (ofMembers ms).get? key = (ofMembers ms').get? key) :
    ofMembers ms = ofMembers ms' :=
  congrArg object ((ordered_orderMembers ms).ext (ordered_orderMembers ms') h)

theorem lookup_eq_none_of_notMem {key : String} {ms : List (String × Json)}
    (h : key ∉ ms.map Prod.fst) : ms.lookup key = none := by
  rw [List.lookup_eq_none_iff]
  intro m hm
  have hne : key ≠ m.1 := by
    rintro rfl
    exact h (List.mem_map_of_mem hm)
  simpa using hne

/-- Members with the same keys, each once, are determined by what is found at the keys. -/
theorem eq_of_lookup_eq {ms ms' : List (String × Json)}
    (hkeys : ms.map Prod.fst = ms'.map Prod.fst) (hnodup : (ms.map Prod.fst).Nodup)
    (h : ∀ key, ms.lookup key = ms'.lookup key) : ms = ms' := by
  induction ms generalizing ms' with
  | nil => exact (List.map_eq_nil_iff.1 hkeys.symm).symm
  | cons m ms ih =>
    obtain ⟨k, v⟩ := m
    obtain ⟨⟨k', v'⟩, ms', rfl, rfl, htail⟩ := List.map_eq_cons_iff.1 hkeys.symm
    rw [List.map_cons, List.nodup_cons] at hnodup
    have hv : v = v' := by simpa using h k'
    have hms : ms = ms' := by
      refine ih htail.symm hnodup.2 fun key => ?_
      by_cases hkey : key = k'
      · subst hkey
        rw [lookup_eq_none_of_notMem hnodup.1, lookup_eq_none_of_notMem (htail ▸ hnodup.1)]
      · simpa [lookup_cons_ite, hkey] using h key
    rw [hv, hms]

/-- Objects with the same keys, each once, are equal exactly if their members are. -/
theorem ofMembers_inj {ms ms' : List (String × Json)}
    (hkeys : ms.map Prod.fst = ms'.map Prod.fst) (hnodup : (ms.map Prod.fst).Nodup) :
    ofMembers ms = ofMembers ms' ↔ ms = ms' := by
  constructor
  · intro h
    refine List.reverse_inj.1 (eq_of_lookup_eq ?_ ?_ fun key => ?_)
    · rw [List.map_reverse, List.map_reverse, hkeys]
    · rw [List.map_reverse]
      exact List.pairwise_reverse.2 (hnodup.imp Ne.symm)
    · rw [← get?_ofMembers, ← get?_ofMembers, h]
  · rintro rfl
    rfl

@[simp] theorem ofMembers_singleton_inj {k k' : String} {v v' : Json} :
    ofMembers [(k, v)] = ofMembers [(k', v')] ↔ k = k' ∧ v = v' := by
  simp [ofMembers, orderMembers, setMember]

end Json

end SearchSql
