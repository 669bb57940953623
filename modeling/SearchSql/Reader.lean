import SearchSql.Run
import SearchSql.SyntaxError
import SearchSql.Token.Segment

/-!
# Reading from a token stream

A `Reader` takes tokens from the front of a stream and makes a value of them, or fails.  It
looks at most one token ahead, and what it has looked at without taking it stays in the stream.

## Main definitions

* `TokenStream` : tokens, and the offset at which their text ends.
* `Outcome` : what reading comes to.  The rest of the stream is known in either case, so reading
  can go on behind an error.
* `Reader` : a function from streams to outcomes that leaves a final part of the stream it was
  given.
* `Reader.take`, `Reader.probe` : the two ways to look at the next token.  `take` always takes
  it, and fails if it does not fit; `probe` takes it only if it fits, and never fails.
* `Reader.chain` : a run of items with links between them.
-/

namespace SearchSql

open Token (Located)

/-- Tokens that are still to be read. -/
@[ext] structure TokenStream where
  tokens : List Located
  /-- The length of the text, which is where its end stands. -/
  stop : Nat
deriving DecidableEq, Repr

/-- The tokens of a text. -/
def TokenStream.ofText (text : String) : TokenStream := ⟨Token.scan text, text.length⟩

/-- What reading comes to, and the tokens that it leaves. -/
inductive Outcome (α : Type) where
  | done (value : α) (rest : List Located)
  | failed (error : SyntaxError) (rest : List Located)
deriving DecidableEq, Repr

namespace Outcome

variable {α : Type}

/-- The tokens that are left. -/
def rest : Outcome α → List Located
  | .done _ rest => rest
  | .failed _ rest => rest

/-- The value or the error. -/
def result : Outcome α → Except SyntaxError α
  | .done value _ => .ok value
  | .failed error _ => .error error

@[simp] theorem rest_done (a : α) (ts : List Located) : (done a ts).rest = ts := rfl
@[simp] theorem rest_failed (e : SyntaxError) (ts : List Located) :
    (failed e ts : Outcome α).rest = ts := rfl
@[simp] theorem result_done (a : α) (ts : List Located) : (done a ts).result = .ok a := rfl
@[simp] theorem result_failed (e : SyntaxError) (ts : List Located) :
    (failed e ts : Outcome α).result = .error e := rfl

end Outcome

/-- A way to read a value from the front of a stream. -/
structure Reader (α : Type) where
  /-- Read from the given tokens, whose text ends at `stop`. -/
  read : (stop : Nat) → List Located → Outcome α
  /-- What is left is a final part of what was given. -/
  rest_suffix : ∀ stop ts, (read stop ts).rest <:+ ts

namespace Reader

variable {α β : Type}

/-- Readers that agree on every stream are equal. -/
@[ext] theorem ext {r r' : Reader α} (h : ∀ stop ts, r.read stop ts = r'.read stop ts) :
    r = r' := by
  cases r
  cases r'
  congr
  funext stop ts
  exact h stop ts

/-! ### Reading in sequence -/

/-- Take nothing and succeed. -/
def succeed (a : α) : Reader α := ⟨fun _ ts => .done a ts, fun _ ts => List.suffix_refl ts⟩

/-- Read with `r`, and then with the reader that its value selects. -/
def andThen (r : Reader α) (f : α → Reader β) : Reader β where
  read stop ts :=
    match r.read stop ts with
    | .done a rest => (f a).read stop rest
    | .failed e rest => .failed e rest
  rest_suffix stop ts := by
    have h := r.rest_suffix stop ts
    split <;> rename_i hr <;> rw [hr] at h
    · exact ((f _).rest_suffix stop _).trans h
    · exact h

instance : Monad Reader where
  pure := succeed
  bind := andThen

@[simp] theorem read_pure (a : α) (stop : Nat) (ts : List Located) :
    (pure a : Reader α).read stop ts = .done a ts := rfl

theorem read_bind (r : Reader α) (f : α → Reader β) (stop : Nat) (ts : List Located) :
    (r >>= f).read stop ts =
      match r.read stop ts with
      | .done a rest => (f a).read stop rest
      | .failed e rest => .failed e rest := rfl

/-! ### Looking at the next token -/

/-- Fail without taking anything. -/
def fail (e : SyntaxError) : Reader α :=
  ⟨fun _ ts => .failed e ts, fun _ ts => List.suffix_refl ts⟩

/-- Take the next token, which must be one of those that `part?` gives a value to. -/
def take (expected : Expectation) (part? : Token → Option α) : Reader α where
  read stop ts :=
    match ts with
    | [] => .failed ⟨expected, .endOfText, stop⟩ []
    | l :: rest =>
      match part? l.token with
      | some a => .done a rest
      | none => .failed ⟨expected, .token l.token, l.start⟩ rest
  rest_suffix stop ts := by
    split
    · exact List.suffix_refl _
    · split <;> exact List.suffix_cons _ _

/-- Take the next token if it is one of those that `part?` gives a value to. -/
def probe (part? : Token → Option α) : Reader (Option α) where
  read _ ts :=
    match ts with
    | [] => .done none []
    | l :: rest =>
      match part? l.token with
      | some a => .done (some a) rest
      | none => .done none (l :: rest)
  rest_suffix stop ts := by
    split
    · exact List.suffix_refl _
    · split
      · exact List.suffix_cons _ _
      · exact List.suffix_refl _

/-- Where the next token starts, or the text ends. -/
def position : Reader Nat where
  read stop ts :=
    match ts with
    | [] => .done stop []
    | l :: rest => .done l.start (l :: rest)
  rest_suffix stop ts := by
    split <;> exact List.suffix_refl _

/-- Make sure that no token is left. -/
def finish : Reader Unit where
  read _ ts :=
    match ts with
    | [] => .done () []
    | l :: rest => .failed ⟨.endOfInput, .token l.token, l.start⟩ rest
  rest_suffix stop ts := by
    split
    · exact List.suffix_refl _
    · exact List.suffix_cons _ _

@[simp] theorem read_take_nil (expected : Expectation) (part? : Token → Option α) (stop : Nat) :
    (take expected part?).read stop [] = .failed ⟨expected, .endOfText, stop⟩ [] := rfl

theorem read_take_some {expected : Expectation} {part? : Token → Option α} {l : Located} {a : α}
    (h : part? l.token = some a) (stop : Nat) (ts : List Located) :
    (take expected part?).read stop (l :: ts) = .done a ts := by
  simp [take, h]

theorem read_take_none {expected : Expectation} {part? : Token → Option α} {l : Located}
    (h : part? l.token = none) (stop : Nat) (ts : List Located) :
    (take expected part?).read stop (l :: ts) =
      .failed ⟨expected, .token l.token, l.start⟩ ts := by
  simp [take, h]

@[simp] theorem read_probe_nil (part? : Token → Option α) (stop : Nat) :
    (probe part?).read stop [] = .done none [] := rfl

theorem read_probe_some {part? : Token → Option α} {l : Located} {a : α}
    (h : part? l.token = some a) (stop : Nat) (ts : List Located) :
    (probe part?).read stop (l :: ts) = .done (some a) ts := by
  simp [probe, h]

theorem read_probe_none {part? : Token → Option α} {l : Located} (h : part? l.token = none)
    (stop : Nat) (ts : List Located) :
    (probe part?).read stop (l :: ts) = .done none (l :: ts) := by
  simp [probe, h]

@[simp] theorem read_finish_nil (stop : Nat) : finish.read stop [] = .done () [] := rfl

@[simp] theorem read_finish_cons (stop : Nat) (l : Located) (ts : List Located) :
    finish.read stop (l :: ts) = .failed ⟨.endOfInput, .token l.token, l.start⟩ ts := rfl

/-! ### Keywords, characters and clauses -/

/-- Take the given keyword. -/
def keyword (k : Keyword) : Reader Unit :=
  take (.keyword k) fun t => if t.keyword? = some k then some () else none

/-- Take the given keyword if it is next, and tell whether it was. -/
def acceptKeyword (k : Keyword) : Reader Bool := do
  return (← probe fun t => if t.keyword? = some k then some () else none).isSome

/-- Take the given character if it is next, and tell whether it was. -/
def acceptMark (c : Char) : Reader Bool := do
  return (← probe fun t => if t.isMark c then some () else none).isSome

/-- A clause that starts with the given keyword and may be left out. -/
def clause (k : Keyword) (body : Reader α) : Reader (Option α) := do
  if ← acceptKeyword k then
    let a ← body
    return some a
  else
    return none

/-! ### Runs -/

/-- As long as the next token is a link, take it and an item behind it. -/
def links (item : Reader α) (link? : Token → Option β) (stop : Nat) (ts : List Located) :
    Outcome (List (β × α)) :=
  match ts with
  | [] => .done [] []
  | l :: tail =>
    match link? l.token with
    | none => .done [] (l :: tail)
    | some b =>
      match _h : item.read stop tail with
      | .failed e rest => .failed e rest
      | .done a rest =>
        match links item link? stop rest with
        | .done more rest => .done ((b, a) :: more) rest
        | .failed e rest => .failed e rest
termination_by ts.length
decreasing_by
  have h := (item.rest_suffix stop tail).length_le
  rw [_h, Outcome.rest_done] at h
  simp only [List.length_cons]
  omega

theorem links_suffix (item : Reader α) (link? : Token → Option β) (stop : Nat)
    (ts : List Located) : (links item link? stop ts).rest <:+ ts := by
  fun_induction links item link? stop ts with
  | case1 => exact List.suffix_refl _
  | case2 l tail hl => exact List.suffix_refl _
  | case3 l tail b hl e rest h =>
    have hs := item.rest_suffix stop tail
    rw [h] at hs
    exact hs.trans (List.suffix_cons _ _)
  | case4 l tail b hl a rest h more rest' hm ih =>
    have hs := item.rest_suffix stop tail
    rw [h] at hs
    rw [hm] at ih
    exact (ih.trans hs).trans (List.suffix_cons _ _)
  | case5 l tail b hl a rest h e rest' hm ih =>
    have hs := item.rest_suffix stop tail
    rw [h] at hs
    rw [hm] at ih
    exact (ih.trans hs).trans (List.suffix_cons _ _)

/-- A run of items: an item, and as long as the next token is a link, one more item behind
it. -/
def chain (item : Reader α) (link? : Token → Option β) : Reader (Run β α) := do
  let first ← item
  let more ← ⟨links item link?, links_suffix item link?⟩
  return ⟨first, more⟩

/-- One or more items with a comma between each two. -/
def commaList (item : Reader α) : Reader (List α) := do
  return (← chain item fun t => if t.isMark ',' then some () else none).items

/-! ### Reading a stream -/

/-- Read from a stream, and go on with what is left of it. -/
def step (r : Reader α) (s : TokenStream) : Except SyntaxError α × TokenStream :=
  let outcome := r.read s.stop s.tokens
  (outcome.result, { s with tokens := outcome.rest })

theorem step_bind (r : Reader α) (f : α → Reader β) (s : TokenStream) :
    (r >>= f).step s =
      match r.step s with
      | (.ok a, s') => (f a).step s'
      | (.error e, s') => (.error e, s') := by
  simp only [step, read_bind]
  cases r.read s.stop s.tokens <;> rfl

/-- Read from the start of a text.  What stands behind the value is not looked at. -/
def readText (r : Reader α) (text : String) : Except SyntaxError α :=
  (r.step (TokenStream.ofText text)).1

end Reader

end SearchSql
