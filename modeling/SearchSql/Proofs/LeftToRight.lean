import Mathlib.Data.List.Induction
import Mathlib.Data.List.SplitBy
import SearchSql.Proofs.Recognition

/-!
# A run of terms is read strictly from left to right

Neither connective binds more tightly than the other, and the tree of a run keeps all of the run.
The tree is built by `Expr.join`, one term after the other, so every statement here is proved of
`Expr.join` first and then of a whole run, by induction on its last term.

## Main definitions

* `Expr.flat` : the terms of a tree in order, each with the connective that joins it to the one
  before.
* `Expr.holds`, `Run.holds` : the truth value of a tree and of a run, where each occurrence of a
  term has a truth value of its own.
* `Expr.groups`, `Expr.depth` : the groups of a tree, and how deep they are nested.
* `Grouping.tree` : the tree of a run, built with a group that is left open for more children.

## Main statements

* `Expr.IsTermRun.flat_ofRun` : the run can be found again in its tree.
* `Expr.IsTermRun.holds_ofRun` : the tree has the truth value of the run.
* `Expr.IsTermRun.isBranch_of_mem_groups`, `Expr.IsTermRun.depth_ofRun` : how the groups of the tree
  are nested.
* `Expr.ofRun_reads_left_to_right` : **the tree that is read is the left-to-right reading of its
  terms, and different runs have different trees.**
-/

namespace SearchSql

open Token (Located)

/-! ### Truth values -/

namespace Connective

/-- What two truth values come to that the connective joins. -/
def combine : Connective → Bool → Bool → Bool
  | .and, a, b => a && b
  | .or, a, b => a || b

/-- What any number of truth values come to: all of them must hold, or one of them. -/
def combineAll : Connective → List Bool → Bool
  | .and, bs => bs.all id
  | .or, bs => bs.any id

theorem combineAll_append (c : Connective) (bs : List Bool) (b : Bool) :
    c.combineAll (bs ++ [b]) = c.combine (c.combineAll bs) b := by
  cases c <;> simp [combineAll, combine]

theorem combineAll_pair (c : Connective) (a b : Bool) : c.combineAll [a, b] = c.combine a b := by
  cases c <;> simp [combineAll, combine]

end Connective

/-- The truth value of a run from left to right, where `v i` is the truth value of its `i`-th
item. -/
def Run.holds {α : Type} (v : Nat → Bool) (r : Run Connective α) : Bool :=
  (r.links.zipIdx 1).foldl (fun b ci => ci.1.combine b (v ci.2)) (v 0)

/-- The truth value of the items so far is joined to that of the last one. -/
theorem Run.holds_append {α : Type} (v : Nat → Bool) (first : α) (more : List (Connective × α))
    (c : Connective) (a : α) :
    (Run.mk first (more ++ [(c, a)])).holds v =
      c.combine ((Run.mk first more).holds v) (v (Run.mk first more).items.length) := by
  simp [holds, links, items, List.zipIdx_append, Nat.add_comm]

namespace Expr

/-- The connective of a group.  A tree that is not a group has none. -/
def link? : Expr → Option Connective
  | .group c _ => some c
  | _ => none

mutual

/-- The terms of a tree in order, with the connectives between them.  A group without children
stands for itself. -/
def flat : Expr → Run Connective Expr
  | .group c [] => ⟨.group c [], []⟩
  | .group c (e :: es) => ⟨(flat e).first, (flat e).more ++ flatMore c es⟩
  | e => ⟨e, []⟩

/-- The terms of further children, the first of each with the connective of the group. -/
def flatMore (c : Connective) : List Expr → List (Connective × Expr)
  | [] => []
  | e :: es => (c, (flat e).first) :: (flat e).more ++ flatMore c es

end

mutual

/-- The truth value of a tree whose first term is the `i`-th, where `v` gives the truth value of
each occurrence of a term. -/
def holds (v : Nat → Bool) (i : Nat) : Expr → Bool
  | .group c es => c.combineAll (holdsAll v i es)
  | _ => v i

/-- The truth values of several trees, one behind the other. -/
def holdsAll (v : Nat → Bool) (i : Nat) : List Expr → List Bool
  | [] => []
  | e :: es => holds v i e :: holdsAll v (i + e.flat.items.length) es

end

mutual

/-- The groups of a tree, the outermost first, with their connectives and children. -/
def groups : Expr → List (Connective × List Expr)
  | .group c es => (c, es) :: groupsAll es
  | .not e => groups e
  | _ => []

/-- The groups of several trees. -/
def groupsAll : List Expr → List (Connective × List Expr)
  | [] => []
  | e :: es => groups e ++ groupsAll es

end

mutual

/-- How many groups stand one inside the other. -/
def depth : Expr → Nat
  | .group _ es => depthAll es + 1
  | .not e => depth e
  | _ => 0

/-- The greatest depth of several trees. -/
def depthAll : List Expr → Nat
  | [] => 0
  | e :: es => max (depth e) (depthAll es)

end

/-- A group with two or more children, of which only the first may be a group, and then one of the
other connective. -/
def IsBranch (c : Connective) (es : List Expr) : Prop :=
  2 ≤ es.length ∧ (∀ e ∈ es.tail, e.link? = none) ∧ ∀ e ∈ es.head?, e.link? ≠ some c

/-! ### Terms -/

section term

variable {t : Expr}

theorem flat_of_term (ht : t.link? = none) : t.flat = ⟨t, []⟩ := by
  cases t with
  | group c es => cases ht
  | _ => rfl

theorem holds_of_term (ht : t.link? = none) (v : Nat → Bool) (i : Nat) : t.holds v i = v i := by
  cases t with
  | group c es => cases ht
  | _ => rfl

/-- A tree without groups is a term. -/
theorem link?_of_groups (ht : t.groups = []) : t.link? = none := by
  cases t with
  | group c es => cases ht
  | _ => rfl

theorem depth_of_groups (ht : t.groups = []) : t.depth = 0 := by
  induction t using Expr.induction with
  | group c es _ => cases ht
  | not e ih => exact ih ht
  | _ => rfl

end term

/-! ### One more child of a group -/

section child

variable {t : Expr} (c : Connective) (es : List Expr)

theorem flatMore_append (ht : t.link? = none) :
    flatMore c (es ++ [t]) = flatMore c es ++ [(c, t)] := by
  induction es with
  | nil => simp [flatMore, flat_of_term ht]
  | cons e es ih => simp [flatMore, ih]

theorem holdsAll_append (ht : t.link? = none) (v : Nat → Bool) (i : Nat) :
    holdsAll v i (es ++ [t]) = holdsAll v i es ++ [v (i + (flatMore c es).length)] := by
  induction es generalizing i with
  | nil => simp [holdsAll, flatMore, holds_of_term ht]
  | cons e es ih =>
    -- the terms of `e` stand before those of the other children
    have hlength : i + (flatMore c (e :: es)).length =
        i + e.flat.items.length + (flatMore c es).length := by
      simp only [flatMore, Run.items, List.length_append, List.length_cons, List.length_map]
      omega
    rw [List.cons_append, holdsAll, holdsAll, ih, hlength, List.cons_append]

theorem groupsAll_append (ht : t.groups = []) : groupsAll (es ++ [t]) = groupsAll es := by
  induction es with
  | nil => simp [groupsAll, ht]
  | cons e es ih => rw [List.cons_append, groupsAll, groupsAll, ih]

theorem depthAll_append (ht : t.groups = []) : depthAll (es ++ [t]) = depthAll es := by
  induction es with
  | nil => simp [depthAll, depth_of_groups ht]
  | cons e es ih => rw [List.cons_append, depthAll, depthAll, ih]

end child

theorem IsBranch.append {c : Connective} {es : List Expr} {t : Expr} (h : IsBranch c es)
    (ht : t.link? = none) : IsBranch c (es ++ [t]) := by
  obtain ⟨hlength, htail, hhead⟩ := h
  cases es with
  | nil => simp at hlength
  | cons e es =>
    refine ⟨by simp, fun x hx => ?_, hhead⟩
    rcases List.mem_append.1 hx with hx | hx
    · exact htail x hx
    · rw [List.mem_singleton.1 hx, ht]

/-! ### One more term behind a tree -/

section join

variable (e : Expr) (c : Connective) (t : Expr)

/-- A term becomes the last child of a group of its connective; any other tree becomes the first
child of a new group. -/
theorem join_cases :
    (∃ es, e = .group c es ∧ e.join c t = .group c (es ++ [t])) ∨
      e.link? ≠ some c ∧ e.join c t = .group c [e, t] := by
  cases e with
  | group c' es =>
    by_cases hc : c' = c
    · subst hc
      exact .inl ⟨es, rfl, by rw [join, if_pos rfl]⟩
    · exact .inr ⟨fun h => hc (Option.some.inj h), by rw [join, if_neg hc]⟩
  | _ => exact .inr ⟨by simp [link?], rfl⟩

theorem link?_join : (e.join c t).link? = some c := by
  rcases join_cases e c t with ⟨es, -, h⟩ | ⟨-, h⟩ <;> rw [h] <;> rfl

theorem join_ne_empty (c' : Connective) : e.join c t ≠ .group c' [] := by
  rcases join_cases e c t with ⟨es, -, h⟩ | ⟨-, h⟩ <;> simp [h]

variable {e t}

theorem flat_join (he : ∀ c', e ≠ .group c' []) (ht : t.link? = none) :
    (e.join c t).flat = ⟨e.flat.first, e.flat.more ++ [(c, t)]⟩ := by
  rcases join_cases e c t with ⟨es, rfl, h⟩ | ⟨-, h⟩
  · rw [h]
    cases es with
    | nil => exact absurd rfl (he c)
    | cons e es => simp [flat, flatMore_append c es ht]
  · rw [h]
    simp [flat, flatMore, flat_of_term ht]

theorem holds_join (he : ∀ c', e ≠ .group c' []) (ht : t.link? = none) (v : Nat → Bool) :
    (e.join c t).holds v 0 = c.combine (e.holds v 0) (v e.flat.items.length) := by
  rcases join_cases e c t with ⟨es, rfl, h⟩ | ⟨-, h⟩
  · have hlength : (Expr.group c es).flat.items.length = (flatMore c es).length := by
      cases es with
      | nil => exact absurd rfl (he c)
      | cons e es => simp [flat, flatMore, Run.items]
    rw [h, holds, holdsAll_append c es ht, Connective.combineAll_append, hlength, Nat.zero_add,
      holds]
  · rw [h, holds, holdsAll, holdsAll, holdsAll, holds_of_term ht, Connective.combineAll_pair,
      Nat.zero_add]

theorem isBranch_of_mem_groups_join (he : ∀ g ∈ e.groups, IsBranch g.1 g.2)
    (ht : t.groups = []) : ∀ g ∈ (e.join c t).groups, IsBranch g.1 g.2 := by
  intro g hg
  rcases join_cases e c t with ⟨es, rfl, h⟩ | ⟨hc, h⟩
  · rw [h, groups, groupsAll_append es ht] at hg
    rcases List.mem_cons.1 hg with rfl | hg
    · exact (he (c, es) List.mem_cons_self).append (link?_of_groups ht)
    · exact he g (List.mem_cons_of_mem _ hg)
  · rw [h, groups, groupsAll, groupsAll, groupsAll, ht, List.append_nil, List.append_nil] at hg
    rcases List.mem_cons.1 hg with rfl | hg
    · exact ⟨Nat.le_refl 2, by simpa using link?_of_groups ht, by simpa using hc⟩
    · exact he g hg

theorem depth_join (ht : t.groups = []) :
    (e.join c t).depth = e.depth + if e.link? = some c then 0 else 1 := by
  rcases join_cases e c t with ⟨es, rfl, h⟩ | ⟨hc, h⟩
  · rw [h, if_pos (show (Expr.group c es).link? = some c from rfl), depth, depthAll_append es ht,
      depth, Nat.add_zero]
  · rw [h, if_neg hc, depth, depthAll, depthAll, depthAll, depth_of_groups ht]
    omega

end join

/-! ### Whole runs -/

/-- One more element behind a list starts a new run of equal elements, unless it continues the
last one. -/
theorem length_splitBy_append {α : Type} [BEq α] (l : List α) (a : α) :
    ((l ++ [a]).splitBy (· == ·)).length =
      (l.splitBy (· == ·)).length + if l.getLast?.any (· == a) then 0 else 1 := by
  have hloop : ∀ (l : List α) (x : α) (g : List α) (gs : List (List α)),
      (List.splitBy.loop (· == ·) (l ++ [a]) x g gs).length =
        (List.splitBy.loop (· == ·) l x g gs).length +
          if (x :: l).getLast?.any (· == a) then 0 else 1 := by
    intro l
    induction l with
    | nil =>
      intro x g gs
      by_cases hx : (x == a) = true <;> simp [List.splitBy.loop, hx]
    | cons y l ih =>
      intro x g gs
      rw [List.getLast?_cons_cons]
      by_cases hx : (x == y) = true <;> simp only [List.cons_append, List.splitBy.loop, hx, ih]
  cases l with
  | nil => rfl
  | cons x l => exact hloop l x [] []

/-- A run whose items are terms, built from its last term. -/
inductive IsTermRun : Run Connective Expr → Prop
  | single {t : Expr} : t.groups = [] → IsTermRun ⟨t, []⟩
  | append {first : Expr} {more : List (Connective × Expr)} {t : Expr} (c : Connective) :
      IsTermRun ⟨first, more⟩ → t.groups = [] → IsTermRun ⟨first, more ++ [(c, t)]⟩

theorem isTermRun_of_forall {r : Run Connective Expr} (hr : ∀ t ∈ r.items, t.groups = []) :
    IsTermRun r := by
  obtain ⟨first, more⟩ := r
  induction more using List.reverseRecOn with
  | nil => exact .single (hr first List.mem_cons_self)
  | append_singleton more x ih =>
    have hitems : (Run.mk first (more ++ [x])).items = (Run.mk first more).items ++ [x.2] := by
      simp [Run.items]
    rw [hitems] at hr
    exact .append x.1 (ih fun t ht => hr t (List.mem_append_left _ ht)) (hr x.2 (by simp))

namespace IsTermRun

variable {r : Run Connective Expr}

theorem ofRun_ne_empty (h : IsTermRun r) (c : Connective) : ofRun r ≠ .group c [] := by
  cases h with
  | single ht =>
    rintro rfl
    cases ht
  | append c' _ _ =>
    rw [ofRun_append]
    exact join_ne_empty _ c' _ c

/-- Nothing of a run is lost: its tree has the same terms in the same order, and the same
connectives between them. -/
theorem flat_ofRun (h : IsTermRun r) : (ofRun r).flat = r := by
  induction h with
  | single ht => exact flat_of_term (link?_of_groups ht)
  | append c hmore ht ih =>
    rw [ofRun_append, flat_join c hmore.ofRun_ne_empty (link?_of_groups ht), ih]

/-- The tree of a run has the truth value of the run, read from left to right. -/
theorem holds_ofRun (h : IsTermRun r) (v : Nat → Bool) : (ofRun r).holds v 0 = r.holds v := by
  induction h with
  | single ht => exact holds_of_term (link?_of_groups ht) v 0
  | append c hmore ht ih =>
    rw [ofRun_append, holds_join c hmore.ofRun_ne_empty (link?_of_groups ht), ih,
      hmore.flat_ofRun, Run.holds_append]

/-- The tree of a run has the last connective of the run. -/
theorem link?_ofRun (h : IsTermRun r) : (ofRun r).link? = r.links.getLast? := by
  cases h with
  | single ht => exact link?_of_groups ht
  | append c _ _ =>
    rw [ofRun_append, link?_join]
    simp [Run.links]

theorem isBranch_of_mem_groups (h : IsTermRun r) :
    ∀ g ∈ (ofRun r).groups, IsBranch g.1 g.2 := by
  induction h with
  | single ht =>
    rw [ofRun_single, ht]
    exact nofun
  | append c _ ht ih =>
    rw [ofRun_append]
    exact isBranch_of_mem_groups_join c ih ht

/-- A change of the connective, and nothing else, makes the tree deeper. -/
theorem depth_ofRun (h : IsTermRun r) :
    (ofRun r).depth = (r.links.splitBy (· == ·)).length := by
  induction h with
  | single ht => exact depth_of_groups ht
  | @append first more t c hmore ht ih =>
    have hlinks : (Run.mk first (more ++ [(c, t)])).links = (Run.mk first more).links ++ [c] := by
      simp [Run.links]
    rw [ofRun_append, depth_join c ht, ih, hmore.link?_ofRun, hlinks, length_splitBy_append]
    cases (Run.mk first more).links.getLast? <;> simp

end IsTermRun

end Expr

/-! ### With an open group -/

namespace Grouping

/-- Add a term and those behind it. -/
def close (g : Grouping) (term : Expr) : List (Connective × Expr) → Expr
  | [] => g.finish term
  | (c, next) :: more => (g.push term c).close next more

/-- The tree of a run. -/
def tree (r : Run Connective Expr) : Expr := start.close r.first r.more

/-- The terms can also be added one after the other, where the last one is held back. -/
theorem finish_foldl_push (g : Grouping) (term : Expr) (more : List (Connective × Expr)) :
    let s := more.foldl (fun s ct => (s.1.push s.2 ct.1, ct.2)) (g, term)
    s.1.finish s.2 = g.close term more := by
  induction more generalizing g term with
  | nil => rfl
  | cons x more ih => exact ih (g.push term x.1) x.2

/-- To add a term and then the last one is to join the last one to the tree so far. -/
theorem finish_push (g : Grouping) {term : Expr} (h : g.opened = none → term.link? = none)
    (c : Connective) (last : Expr) :
    (g.push term c).finish last = (g.finish term).join c last := by
  obtain ⟨_ | ⟨op, children⟩⟩ := g
  · rcases Expr.join_cases term c last with ⟨es, rfl, -⟩ | ⟨-, hjoin⟩
    · cases h rfl
    · exact hjoin.symm
  · by_cases hop : op = c <;> simp [push, finish, Expr.join, hop]

theorem close_eq_foldl (g : Grouping) {term : Expr} (h : g.opened = none → term.link? = none)
    (more : List (Connective × Expr)) :
    g.close term more = more.foldl (fun e ct => e.join ct.1 ct.2) (g.finish term) := by
  induction more generalizing g term with
  | nil => rfl
  | cons x more ih =>
    have hopened : (g.push term x.1).opened ≠ none := by
      obtain ⟨_ | ⟨op, children⟩⟩ := g
      · exact nofun
      · by_cases hop : op = x.1 <;> simp [push, hop]
    rw [close, ih (g.push term x.1) (absurd · hopened), finish_push g h, List.foldl_cons]

/-- With an open group the same tree is built as by joining each term to the tree so far. -/
theorem tree_eq_ofRun {r : Run Connective Expr} (h : r.first.link? = none) :
    tree r = .ofRun r :=
  close_eq_foldl start (fun _ => h) r.more

end Grouping

/-! ### Reading -/

/-- **The tree of an expression is the strict left-to-right reading of its terms.**  Where a run
of terms is read, the tree is that of the run, and it is the same that is built with an open
group.  Whatever truth values the occurrences of the terms have, the tree has the truth value of
the run from left to right.  Every group has two or more children, of which only the first may be
a group, and then of the other connective, so that the tree is as deep as the run has runs of equal
connectives.  The run can be found again in the tree, so that different runs have different
trees. -/
theorem Expr.ofRun_reads_left_to_right (r : Run Connective Expr)
    (hr : ∀ t ∈ r.items, t.groups = []) :
    (∀ stop (used rest : List Located),
      Phrase.Chained Grammar.Term (fun t (c : Connective) => Grammar.Key c.keyword t)
        (used.map Located.token) r →
      (∀ t ∈ Reader.next rest, ∀ c : Connective, ¬ Grammar.Key c.keyword t) →
      Reader.expression.read stop (used ++ rest) = .done (ofRun r) rest) ∧
    Grouping.tree r = ofRun r ∧
    (∀ v, (ofRun r).holds v 0 = r.holds v) ∧
    (∀ g ∈ (ofRun r).groups, IsBranch g.1 g.2) ∧
    (ofRun r).depth = (r.links.splitBy (· == ·)).length ∧
    (ofRun r).flat = r ∧
    ∀ r' : Run Connective Expr, (∀ t ∈ r'.items, t.groups = []) → ofRun r' = ofRun r → r' = r := by
  have h := isTermRun_of_forall hr
  refine ⟨fun stop used rest hused hrest => ?_,
    Grouping.tree_eq_ofRun (link?_of_groups (hr r.first List.mem_cons_self)), h.holds_ofRun,
    h.isBranch_of_mem_groups, h.depth_ofRun, h.flat_ofRun, fun r' hr' heq => ?_⟩
  · exact Reader.parses_expression.complete stop used rest
      ((Grammar.expression_iff _ _).2 ⟨r, hused, rfl⟩) hrest
  · rw [← h.flat_ofRun, ← heq, (isTermRun_of_forall hr').flat_ofRun]

/-- `"a" AND NOT "b" OR "c" OR "a"`: the first two terms make up the first child of the group that
the other two belong to. -/
theorem Expr.ofRun_reads_and_before_or :
    let a : Expr := .text "a"
    let b : Expr := .not (.text "b")
    let c : Expr := .text "c"
    let r : Run Connective Expr := ⟨a, [(.and, b), (.or, c), (.or, a)]⟩
    (∀ t ∈ r.items, t.groups = []) ∧
      ofRun r = .group .or [.group .and [a, b], c, a] ∧
      (∀ v, (ofRun r).holds v 0 = (v 0 && v 1 || v 2 || v 3)) ∧
      (ofRun r).depth = 2 ∧ (ofRun r).flat = r := by
  intro a b c r
  have hr : ∀ t ∈ r.items, t.groups = [] := by decide
  obtain ⟨-, -, hholds, -, hdepth, hflat, -⟩ := ofRun_reads_left_to_right r hr
  exact ⟨hr, rfl, hholds, hdepth, hflat⟩

end SearchSql
