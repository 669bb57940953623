import SearchSql.Statement
import SearchSql.Token.Cursor

/-!
# The grammar of statements

The statement language as an inductive relation between lists of tokens and the values they
stand for, independent of how a statement is read.

```text
Statement  = SELECT Selection [FACETS Names] [SCRIPT Script] FROM Name
             [WHERE Expression] [FILTER Filter] [ORDER Order] [LIMIT Page]
Selection  = '*' | Names                  Names  = Name {',' Name}
Script     = Name '=' Quoted              Filter = EXIST Name | MISSING Name | Expression
Expression = Term {(AND | OR) Term}       Term   = [NOT] (Quoted | Name Operator Value)
Order      = BY SortItem {',' SortItem}   SortItem = Name [ASC | DESC]
Page       = Integer [',' Integer]
```

## Main definitions

* `Phrase α` : a language whose phrases stand for values of type `α`.
* `Grammar.Spells` : a word is a keyword, in letters of any case.
* `Grammar.Key`, `Grammar.Name`, `Grammar.Value`, `Grammar.Integer` : the parts of a statement
  that are one token.
* `Grammar.Grouped`, `Grammar.Expression` : terms joined by connectives, with the tree that they
  make up from left to right.
* `Grammar.Derives` : the grammar of whole statements.
* `Grammar.Accepts` : the same on lists of tokens that are closed by the end of the text, such as
  `Token.lex` makes of a text.

## Main statements

* `Grammar.key_iff`, `Grammar.spells_iff` : keywords are the words that are found in the table of
  reserved words.
-/

namespace SearchSql

/-- The tokens of a text with their places, and behind them the end of the text. -/
def Sighting.ofText (text : String) : List Sighting :=
  (Token.scan text).map (fun l => ⟨some l.token, l.start⟩) ++ [⟨none, text.length⟩]

/-- The tokens of a text, and `none` for its end. -/
def Token.lex (text : String) : List (Option Token) := (Sighting.ofText text).map (·.token?)

/-- The characters of a token that is written without quotes and is not a single mark. -/
def Token.run? : Token → Option (List Char)
  | .word text => some text.toList
  | .number value => some value.toText.toList
  | .quoted _ => none
  | .mark _ => none

/-- A language: lists of tokens, each with a value that it stands for. -/
abbrev Phrase (α : Type) := List Token → α → Prop

namespace Grammar

variable {α : Type}

/-! ### Parts that are one token -/

/-- The word is the keyword `k`, in ASCII letters of any case. -/
def Spells (w : String) (k : Keyword) : Prop := w.toList.map Char.toUpper = k.spelling.toList

/-- The token spells the keyword `k`. -/
inductive Key (k : Keyword) : Token → Prop
  | spelled {w : String} : Spells w k → Key k (.word w)

/-- A name is a word that is not reserved, or a number as it is written. -/
inductive Name : Token → String → Prop
  | unreserved {w : String} : (∀ k, ¬ Spells w k) → Name (.word w) w
  | number (d : Decimal) : Name (.number d) d.toText

/-- A value is a quoted string, a number, or a word that starts with a digit. -/
inductive Value : Token → Literal → Prop
  | quoted (s : String) : Value (.quoted s) (.text s)
  | number (d : Decimal) : Value (.number d) (.number d)
  | word {w : String} {c : Char} {cs : List Char} :
      w.toList = c :: cs → c.isDigit = true → Value (.word w) (.text w)

/-- An integer is a run of digits, however many, whose value is below two to the power of 32. -/
inductive Integer : Token → Nat → Prop
  | run {t : Token} {ds : List Char} : t.run? = some ds → ds ≠ [] →
      (∀ c ∈ ds, c.isDigit = true) → Nat.ofDigitChars 10 ds 0 < 4294967296 →
      Integer t (Nat.ofDigitChars 10 ds 0)

/-- A language of single tokens. -/
inductive Single (part : Token → α → Prop) : Phrase α
  | intro {t : Token} {a : α} : part t a → Single part [t] a

/-! ### Expressions -/

/-- The comparison operators, whose characters are tokens of their own. -/
inductive Operator : Phrase Comparison
  | eq : Operator [.mark '='] .eq
  | ne : Operator [.mark '!', .mark '='] .ne
  | lt : Operator [.mark '<'] .lt
  | le : Operator [.mark '<', .mark '='] .le
  | gt : Operator [.mark '>'] .gt
  | ge : Operator [.mark '>', .mark '='] .ge

/-- A term without a negation. -/
inductive Plain : Phrase Expr
  | text (s : String) : Plain [.quoted s] (.text s)
  | compare {t t' : Token} {os : List Token} {f : String} {op : Comparison} {v : Literal} :
      Name t f → Operator os op → Value t' v → Plain (t :: (os ++ [t'])) (.compare op f v)

/-- A term: a negation reaches over one term only. -/
inductive Term : Phrase Expr
  | plain {ts : List Token} {e : Expr} : Plain ts e → Term ts e
  | not {t : Token} {ts : List Token} {e : Expr} : Key .not t → Plain ts e →
      Term (t :: ts) (.not e)

/-- Two or more terms, read from left to right: `c` is the last connective, and `es` are the
children of the group that is open behind the last term.  A change of the connective makes the
group so far the first child of a new one. -/
inductive Grouped : List Token → Connective → List Expr → Prop
  | start {ts us : List Token} {t : Token} {c : Connective} {e e' : Expr} :
      Term ts e → Key c.keyword t → Term us e' → Grouped (ts ++ t :: us) c [e, e']
  | same {ts us : List Token} {t : Token} {c : Connective} {es : List Expr} {e : Expr} :
      Grouped ts c es → Key c.keyword t → Term us e → Grouped (ts ++ t :: us) c (es ++ [e])
  | change {ts us : List Token} {t : Token} {c c' : Connective} {es : List Expr} {e : Expr} :
      Grouped ts c es → c' ≠ c → Key c'.keyword t → Term us e →
      Grouped (ts ++ t :: us) c' [.group c es, e]

/-- Terms joined by connectives. -/
inductive Expression : Phrase Expr
  | term {ts : List Token} {e : Expr} : Term ts e → Expression ts e
  | group {ts : List Token} {c : Connective} {es : List Expr} : Grouped ts c es →
      Expression ts (.group c es)

/-! ### Clauses -/

/-- One or more phrases with a comma between each two. -/
inductive Listed (item : Phrase α) : Phrase (List α)
  | one {ts : List Token} {a : α} : item ts a → Listed item ts [a]
  | more {ts us : List Token} {a : α} {as : List α} :
      item ts a → Listed item us as → Listed item (ts ++ .mark ',' :: us) (a :: as)

/-- A clause that starts with the keyword `k` and may be left out. -/
inductive Clause (k : Keyword) (body : Phrase α) : Phrase (Option α)
  | absent : Clause k body [] none
  | present {t : Token} {ts : List Token} {a : α} :
      Key k t → body ts a → Clause k body (t :: ts) (some a)

/-- Names with commas between them. -/
abbrev Names : Phrase (List String) := Listed (Single Name)

/-- The fields to return. -/
inductive Selection : Phrase (Option (List String))
  | all : Selection [.mark '*'] none
  | fields {ts : List Token} {ns : List String} : Names ts ns → Selection ts (some ns)

/-- A script field. -/
inductive Script : Phrase ScriptField
  | intro {t : Token} {n : String} (body : String) : Name t n →
      Script [t, .mark '=', .quoted body] ⟨n, body⟩

/-- The condition of a filter. -/
inductive Filter : Phrase Expr
  | present {t t' : Token} {f : String} : Key .exist t → Name t' f → Filter [t, t'] (.present f)
  | missing {t t' : Token} {f : String} : Key .missing t → Name t' f →
      Filter [t, t'] (.missing f)
  | expression {ts : List Token} {e : Expr} : Expression ts e → Filter ts e

/-- A field to sort by. -/
inductive SortItem : Phrase SortKey
  | plain {t : Token} {f : String} : Name t f → SortItem [t] ⟨f, .asc⟩
  | asc {t t' : Token} {f : String} : Name t f → Key .asc t' → SortItem [t, t'] ⟨f, .asc⟩
  | desc {t t' : Token} {f : String} : Name t f → Key .desc t' → SortItem [t, t'] ⟨f, .desc⟩

/-- The body of an `ORDER` clause. -/
inductive Order : Phrase (List SortKey)
  | intro {t : Token} {ts : List Token} {ks : List SortKey} :
      Key .by t → Listed SortItem ts ks → Order (t :: ts) ks

/-- The `LIMIT` clause, with the offset and the limit that it sets.  One number is a limit. -/
inductive Limit : List Token → Nat → Nat → Prop
  | absent : Limit [] 0 10
  | limit {t t' : Token} {n : Nat} : Key .limit t → Integer t' n → Limit [t, t'] 0 n
  | page {t t' t'' : Token} {m n : Nat} : Key .limit t → Integer t' m → Integer t'' n →
      Limit [t, t', .mark ',', t''] m n

/-! ### Statements -/

/-- A statement, and the parts that each of its clauses sets. -/
inductive Derives : Phrase Statement
  | intro {t₁ t₂ t₃ : Token} {sel fac scr con fil ord lim : List Token}
      {fields facets : Option (List String)} {script : Option ScriptField} {index : String}
      {condition filter : Option Expr} {order : Option (List SortKey)} {offset limit : Nat} :
      Key .select t₁ → Selection sel fields → Clause .facets Names fac facets →
      Clause .script Script scr script → Key .from t₂ → Name t₃ index →
      Clause .where Expression con condition → Clause .filter Filter fil filter →
      Clause .order Order ord order → Limit lim offset limit →
      Derives (t₁ :: (sel ++ (fac ++ (scr ++ t₂ :: t₃ :: (con ++ (fil ++ (ord ++ lim)))))))
        { fields, facets, script, index, condition, filter, order, offset, limit }

/-- A statement with the end of the text behind it. -/
inductive Accepts : List (Option Token) → Statement → Prop
  | intro {ts : List Token} {q : Statement} : Derives ts q → Accepts (ts.map some ++ [none]) q

/-! ### Reserved words in the table -/

theorem spells_iff {w : String} {k : Keyword} : Spells w k ↔ Keyword.ofWord? w = some k :=
  Keyword.ofWord?_eq_some_iff.symm

theorem forall_not_spells_iff {w : String} : (∀ k, ¬ Spells w k) ↔ Keyword.ofWord? w = none := by
  simp only [spells_iff, Option.eq_none_iff_forall_ne_some, ne_eq]

theorem key_iff {k : Keyword} {t : Token} : Key k t ↔ t.keyword? = some k := by
  constructor
  · rintro ⟨hw⟩
    exact spells_iff.1 hw
  · intro hk
    cases t with
    | word w => exact .spelled (spells_iff.2 hk)
    | _ => cases hk

/-- A word that is found among the reserved words is a keyword. -/
theorem Key.word {w : String} {k : Keyword} (h : Keyword.ofWord? w = some k) : Key k (.word w) :=
  .spelled (spells_iff.2 h)

/-- A word that is not found among the reserved words is a name. -/
theorem Name.word {w : String} (h : Keyword.ofWord? w = none) : Name (.word w) w :=
  .unreserved (forall_not_spells_iff.2 h)

end Grammar

end SearchSql
