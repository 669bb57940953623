/-!
# Reserved words

* `Keyword` : the reserved words of the statement language.
* `Keyword.spelling` : the upper-case spelling, which error messages show.
* `Keyword.ofWord?` : the keyword that a word spells, whatever the case of its letters.
-/

namespace SearchSql

/-- The reserved words.  `IN` and `BETWEEN` are reserved but begin no clause. -/
inductive Keyword where
  | select
  | facets
  | script
  | «from»
  | «where»
  | filter
  | exist
  | missing
  | order
  | «by»
  | limit
  | asc
  | desc
  | and
  | or
  | not
  | «in»
  | between
deriving DecidableEq, Repr

namespace Keyword

/-- Every keyword, once. -/
def all : List Keyword :=
  [.select, .facets, .script, .from, .where, .filter, .exist, .missing, .order, .by, .limit,
    .asc, .desc, .and, .or, .not, .in, .between]

/-- The upper-case spelling of a keyword. -/
def spelling : Keyword → String
  | .select => "SELECT"
  | .facets => "FACETS"
  | .script => "SCRIPT"
  | .from => "FROM"
  | .where => "WHERE"
  | .filter => "FILTER"
  | .exist => "EXIST"
  | .missing => "MISSING"
  | .order => "ORDER"
  | .by => "BY"
  | .limit => "LIMIT"
  | .asc => "ASC"
  | .desc => "DESC"
  | .and => "AND"
  | .or => "OR"
  | .not => "NOT"
  | .in => "IN"
  | .between => "BETWEEN"

/-- The keyword that a word spells.  Only the case of ASCII letters is ignored. -/
def ofWord? (word : String) : Option Keyword :=
  all.find? fun k => word.toList.map Char.toUpper == k.spelling.toList

theorem mem_all (k : Keyword) : k ∈ all := by
  cases k <;> decide

theorem spelling_injective {k k' : Keyword} (h : k.spelling = k'.spelling) : k = k' := by
  revert h
  cases k <;> cases k' <;> decide

/-- A word spells a keyword exactly if it is the keyword's spelling up to the case of its
letters. -/
theorem ofWord?_eq_some_iff {word : String} {k : Keyword} :
    ofWord? word = some k ↔ word.toList.map Char.toUpper = k.spelling.toList := by
  constructor
  · intro h
    simpa using List.find?_some h
  · intro h
    have hs : (ofWord? word).isSome := by
      rw [ofWord?, List.find?_isSome]
      exact ⟨k, mem_all k, by simpa using h⟩
    obtain ⟨k', hk'⟩ := Option.isSome_iff_exists.1 hs
    have h' : word.toList.map Char.toUpper = k'.spelling.toList := by
      simpa using List.find?_some hk'
    rw [hk', spelling_injective (String.toList_inj.1 (h'.symm.trans h))]

@[simp] theorem ofWord?_spelling (k : Keyword) : ofWord? k.spelling = some k := by
  cases k <;> decide

end Keyword

end SearchSql
