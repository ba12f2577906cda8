/-
Bitemporal/Proofs/FreeNames.lean

The free variables of an expression, as a set.

`freeVariables` walks a tree once and carries two lists along: the stack of the
names bound around it, which may repeat, and the names found so far.  `free`
carries nothing.  It is the set by recursion on the tree: the union over the parts of an
expression, and at a filter the parameter is taken out of what the body
contributes, and of nothing else.

A walk adds to the names found the set of the expression less the names bound
around it (`toFinset_gatherFree`), and it keeps the names found in ascending
order (`pairwise_gatherFree`).  From the empty lists it therefore ends in the set
itself, written out in order (`freeVariables_eq_sort_free`).
-/
import Bitemporal.Proofs.Variables
import Bitemporal.PathTable
import Mathlib.Data.Finset.Sort
import Mathlib.Data.String.Basic

namespace Bitemporal

/-! ### Ascending lists of names -/

section Ascending

/-- A name is its own path. -/
local instance : HasPath String := ⟨id⟩

theorem insertName_eq_insertEntry (name : String) (names : List String) :
    insertName name names = PathTable.insertEntry name names := by
  induction names with
  | nil => rfl
  | cons n rest ih =>
    rw [insertName, PathTable.insertEntry, ih]
    by_cases h : name = n
    · subst h
      rfl
    · simp [h, HasPath.path]

theorem pairwise_insertName (name : String) {names : List String} (h : names.Pairwise (· < ·)) :
    (insertName name names).Pairwise (· < ·) := by
  rw [insertName_eq_insertEntry]
  exact PathTable.pairwise_insertEntry name h

end Ascending

namespace Expression

/-! ### The set by recursion -/

mutual

/-- The names that occur free in an expression. -/
def free : Expression → Finset String
  | reference n _ => {n}
  | literal _ _ => ∅
  | equal _ l r _ => free l ∪ free r
  | compare _ _ l r _ => free l ∪ free r
  | conjunction _ os _ => freeAll os
  | filter _ s b e _ => free s ∪ free e \ {b.parameter.name}
  | navigate _ as _ _ => freeAll as

/-- The names that occur free in an expression of a list. -/
def freeAll : List Expression → Finset String
  | [] => ∅
  | e :: es => free e ∪ freeAll es

end

mutual

theorem mem_free {x : String} (e : Expression) : x ∈ e.free ↔ e.Mentions x := by
  match e with
  | reference n t => simp [free, Mentions, eq_comm]
  | literal v t => simp [free, Mentions]
  | equal f l r t => simp [free, Mentions, mem_free l, mem_free r]
  | compare f o l r t => simp [free, Mentions, mem_free l, mem_free r]
  | conjunction f os t => simp [free, Mentions, mem_freeAll os]
  | filter f s b e t => simp [free, Mentions, mem_free s, mem_free e, and_comm, eq_comm]
  | navigate site as w t => simp [free, Mentions, mem_freeAll as]

theorem mem_freeAll {x : String} (es : List Expression) : x ∈ freeAll es ↔ MentionsAny x es := by
  match es with
  | [] => simp [freeAll, MentionsAny]
  | e :: es => simp [freeAll, MentionsAny, mem_free e, mem_freeAll es]

end

/-! ### What a walk does -/

/-- A walk adds the set of an expression, less the names bound around it.  It does not matter how
often or in which order these are bound. -/
theorem toFinset_gatherFree (w : Walk) (e : Expression) :
    (gatherFree w e).free.toFinset = w.free.toFinset ∪ e.free \ w.bound.toFinset := by
  ext x
  simp [mem_gatherFree, mem_free, and_comm]

mutual

/-- A walk keeps the names found in ascending order. -/
theorem pairwise_gatherFree {w : Walk} (e : Expression) (h : w.free.Pairwise (· < ·)) :
    (gatherFree w e).free.Pairwise (· < ·) := by
  match e with
  | reference n t =>
    rw [gatherFree, Walk.meet]
    split
    · exact h
    · exact pairwise_insertName n h
  | literal v t => exact h
  | equal f l r t => exact pairwise_gatherFree r (pairwise_gatherFree l h)
  | compare f o l r t => exact pairwise_gatherFree r (pairwise_gatherFree l h)
  | conjunction f os t => exact pairwise_gatherFreeAll os h
  | filter f s b e t =>
    rw [gatherFree, Walk.free_pop]
    exact pairwise_gatherFree e (pairwise_gatherFree s h)
  | navigate site as w' t => exact pairwise_gatherFreeAll as h

theorem pairwise_gatherFreeAll {w : Walk} (es : List Expression) (h : w.free.Pairwise (· < ·)) :
    (gatherFreeAll w es).free.Pairwise (· < ·) := by
  match es with
  | [] => exact h
  | e :: es => exact pairwise_gatherFreeAll es (pairwise_gatherFree e h)

end

/-- The free variables are the set, in ascending order. -/
theorem freeVariables_eq_sort (e : Expression) : e.freeVariables = e.free.sort := by
  have hset : e.freeVariables.toFinset = e.free := by
    rw [freeVariables, toFinset_gatherFree]
    simp
  have hascending : e.freeVariables.Pairwise (· < ·) := pairwise_gatherFree e .nil
  have hsorted := (List.toFinset_sort (· ≤ ·) (hascending.imp ne_of_lt)).2 (hascending.imp le_of_lt)
  rw [← hsorted, hset]

theorem freeVariables_subset_iff {e e' : Expression} :
    e.freeVariables ⊆ e'.freeVariables ↔ e.free ⊆ e'.free := by
  simp [freeVariables_eq_sort, List.subset_def, Finset.subset_iff]

/-! ### Where a parameter is bound -/

/-- The parts of an expression that no parameter of its own is bound in: all but the body of a
filter. -/
def outer : Expression → List Expression
  | reference _ _ => []
  | literal _ _ => []
  | equal _ l r _ => [l, r]
  | compare _ _ l r _ => [l, r]
  | conjunction _ os _ => os
  | filter _ s _ _ _ => [s]
  | navigate _ as _ _ => as

theorem free_subset_freeAll {e : Expression} {es : List Expression} (h : e ∈ es) :
    e.free ⊆ freeAll es := by
  intro x hx
  rw [mem_freeAll, mentionsAny_iff]
  exact ⟨e, h, (mem_free e).1 hx⟩

theorem free_subset_of_mem_outer {e part : Expression} (h : part ∈ e.outer) : part.free ⊆ e.free := by
  cases e with
  | reference n t => cases h
  | literal v t => cases h
  | equal f l r t =>
    simp only [outer, List.mem_cons, List.not_mem_nil, or_false] at h
    rcases h with rfl | rfl
    · exact Finset.subset_union_left
    · exact Finset.subset_union_right
  | compare f o l r t =>
    simp only [outer, List.mem_cons, List.not_mem_nil, or_false] at h
    rcases h with rfl | rfl
    · exact Finset.subset_union_left
    · exact Finset.subset_union_right
  | conjunction f os t => exact free_subset_freeAll h
  | filter f s b e t =>
    obtain rfl := List.mem_singleton.1 h
    exact Finset.subset_union_left
  | navigate site as w t => exact free_subset_freeAll h

/-- **The free variables of an expression** are the set by recursion on its tree, in ascending order.
Whatever lambdas an expression holds, what is free in a part outside of them is free in the
expression: in the source of a filter, and in what stands before or after it.  In the body of a
filter its parameter is bound throughout, also behind an inner lambda that binds the same name. -/
theorem freeVariables_eq_sort_free :
    (∀ e : Expression, e.freeVariables = e.free.sort) ∧
      (∀ e : Expression, ∀ part ∈ e.outer, part.freeVariables ⊆ e.freeVariables) ∧
        ∀ (function : FunctionRef) (source : Expression) (binder : Binder) (body : Expression)
          (t : Typing), binder.parameter.name ∈ (filter function source binder body t).freeVariables ↔
            binder.parameter.name ∈ source.freeVariables := by
  refine ⟨freeVariables_eq_sort, fun e part hpart => ?_, fun function source binder body t => ?_⟩
  · rw [freeVariables_subset_iff]
    exact free_subset_of_mem_outer hpart
  · simp [freeVariables_eq_sort, free]

/-- The variable of this name. -/
def named (name : String) : Expression :=
  .reference name ⟨.ofClass "m::K", .one⟩

/-- The comparison of two expressions. -/
def compared (left right : Expression) : Expression :=
  equal ⟨"eq", "eq"⟩ left right ⟨.primitive .boolean, .one⟩

/-- A filter whose variable is called `v`. -/
def filtered (source body : Expression) : Expression :=
  let v : Variable := { name := "v", type := .ofClass "m::K", multiplicity := .one }
  let truth : Typing := ⟨.primitive .boolean, .one⟩
  filter ⟨"filter", "filter"⟩ source ⟨v, ["this"], ⟨[v], truth⟩⟩ body ⟨.ofClass "m::K", .zeroMany⟩

/-- The filter `source->filter(v|$v->filter(v|$v == $x) == $v)`, in the body of which another one binds
the same name. -/
def rebinding (source : Expression) : Expression :=
  filtered source (compared (filtered (named "v") (compared (named "v") (named "x"))) (named "v"))

/-- The name stays bound behind the inner lambda, and it is free behind the outer one and in its
source. -/
theorem rebinding_freeVariables :
    (rebinding (named "w")).freeVariables = ["w", "x"] ∧
      "v" ∉ (rebinding (named "w")).freeVariables ∧
      "v" ∈ (compared (rebinding (named "w")) (named "v")).freeVariables ∧
      "v" ∈ (rebinding (named "v")).freeVariables := by
  obtain ⟨-, houter, hbound⟩ := freeVariables_eq_sort_free
  have hfree : "v" ∈ (named "v").freeVariables := by decide +kernel
  refine ⟨by decide +kernel, fun h => ?_, ?_, ?_⟩
  · exact absurd ((hbound _ (named "w") _ _ _).1 h) (by decide +kernel)
  · exact houter (compared _ (named "v")) (named "v") (.tail _ (.head _)) hfree
  · exact houter (rebinding (named "v")) (named "v") (.head _) hfree

end Expression

end Bitemporal
