/-
Bitemporal/Proofs/Variables.lean

The free variables of an expression, as a predicate.

`freeVariables` gathers names into an ascending list while it walks a tree with a
stack of bound names.  Whatever a walk pushes it takes off again, so that it ends
with the stack it began with (`bound_gatherFree`).  `Mentions` says of one name
whether it occurs free, by recursion on the tree and without a stack or a list.
The two agree (`mem_freeVariables`), so that what becomes of the free variables of
an expression can be told name by name.
-/
import Bitemporal.Expression.Variables

namespace Bitemporal

/-! ### Sets of names -/

@[simp] theorem mem_insertName {x name : String} {names : List String} :
    x ∈ insertName name names ↔ x = name ∨ x ∈ names := by
  induction names with
  | nil => simp [insertName]
  | cons n rest ih =>
    rw [insertName]
    split
    · simp
    · split
      · rename_i heq
        subst heq
        simp
      · rw [List.mem_cons, ih, List.mem_cons, or_left_comm]

namespace Expression

/-! ### Mentioning a name -/

mutual

/-- A name occurs free in an expression. -/
def Mentions (x : String) : Expression → Prop
  | reference n _ => n = x
  | literal _ _ => False
  | equal _ l r _ => Mentions x l ∨ Mentions x r
  | compare _ _ l r _ => Mentions x l ∨ Mentions x r
  | conjunction _ os _ => MentionsAny x os
  | filter _ s b e _ => Mentions x s ∨ b.parameter.name ≠ x ∧ Mentions x e
  | navigate _ as _ _ => MentionsAny x as

/-- A name occurs free in an expression of a list. -/
def MentionsAny (x : String) : List Expression → Prop
  | [] => False
  | e :: es => Mentions x e ∨ MentionsAny x es

end

section Decidability

variable (x : String)

mutual

/-- Whether a name occurs free can be decided. -/
def decideMentions : (e : Expression) → Decidable (e.Mentions x)
  | reference n _ => inferInstanceAs (Decidable (n = x))
  | literal _ _ => .isFalse id
  | equal _ l r _ => @instDecidableOr _ _ (decideMentions l) (decideMentions r)
  | compare _ _ l r _ => @instDecidableOr _ _ (decideMentions l) (decideMentions r)
  | conjunction _ os _ => decideMentionsAny os
  | filter _ s _ e _ =>
    @instDecidableOr _ _ (decideMentions s) (@instDecidableAnd _ _ inferInstance (decideMentions e))
  | navigate _ as _ _ => decideMentionsAny as

/-- The same for a list. -/
def decideMentionsAny : (es : List Expression) → Decidable (MentionsAny x es)
  | [] => .isFalse id
  | e :: es => @instDecidableOr _ _ (decideMentions e) (decideMentionsAny es)

end

instance : DecidablePred (Mentions x) := decideMentions x

instance : DecidablePred (MentionsAny x) := decideMentionsAny x

end Decidability

theorem mentionsAny_iff {x : String} {es : List Expression} :
    MentionsAny x es ↔ ∃ e ∈ es, e.Mentions x := by
  induction es with
  | nil => simp [MentionsAny]
  | cons e es ih => simp [MentionsAny, ih]

end Expression

/-! ### The stack -/

namespace Walk

variable (w : Walk) (name : String)

@[simp] theorem bound_meet : (w.meet name).bound = w.bound := by
  rw [meet]
  split <;> rfl

@[simp] theorem bound_push : (w.push name).bound = name :: w.bound := rfl

@[simp] theorem free_push : (w.push name).free = w.free := rfl

@[simp] theorem bound_pop : w.pop.bound = w.bound.tail := rfl

@[simp] theorem free_pop : w.pop.free = w.free := rfl

/-- A name that is met is gathered if it is not on the stack. -/
theorem mem_free_meet {x : String} :
    x ∈ (w.meet name).free ↔ x ∈ w.free ∨ x ∉ w.bound ∧ name = x := by
  rw [meet]
  by_cases hbound : w.bound.contains name = true
  · rw [if_pos hbound]
    have hmem : name ∈ w.bound := List.contains_iff_mem.1 hbound
    constructor
    · exact .inl
    · rintro (hfree | ⟨hx, rfl⟩)
      · exact hfree
      · exact (hx hmem).elim
  · rw [if_neg hbound, mem_insertName]
    have hmem : name ∉ w.bound := fun h => hbound (List.contains_iff_mem.2 h)
    constructor
    · rintro (rfl | hfree)
      · exact .inr ⟨hmem, rfl⟩
      · exact .inl hfree
    · rintro (hfree | ⟨-, rfl⟩)
      · exact .inr hfree
      · exact .inl rfl

end Walk

namespace Expression

mutual

/-- **A walk gives the stack back.** -/
theorem bound_gatherFree (w : Walk) (e : Expression) : (gatherFree w e).bound = w.bound := by
  match e with
  | reference n t => exact w.bound_meet n
  | literal v t => rfl
  | equal f l r t => exact (bound_gatherFree _ r).trans (bound_gatherFree w l)
  | compare f o l r t => exact (bound_gatherFree _ r).trans (bound_gatherFree w l)
  | conjunction f os t => exact bound_gatherFreeAll w os
  | filter f s b e t =>
    -- what is taken off behind the body is what was pushed before it
    rw [gatherFree, Walk.bound_pop, bound_gatherFree _ e, Walk.bound_push, List.tail_cons,
      bound_gatherFree w s]
  | navigate site as w' t => exact bound_gatherFreeAll w as

theorem bound_gatherFreeAll (w : Walk) (es : List Expression) :
    (gatherFreeAll w es).bound = w.bound := by
  match es with
  | [] => rfl
  | e :: es => exact (bound_gatherFreeAll _ es).trans (bound_gatherFree w e)

end

/-! ### The names gathered -/

mutual

/-- A walk adds the names an expression mentions, less those that are bound around it. -/
theorem mem_gatherFree {x : String} (w : Walk) (e : Expression) :
    x ∈ (gatherFree w e).free ↔ x ∈ w.free ∨ x ∉ w.bound ∧ e.Mentions x := by
  match e with
  | reference n t => exact w.mem_free_meet n
  | literal v t => rw [gatherFree, Mentions, and_false, or_false]
  | equal f l r t =>
    rw [gatherFree, Mentions, mem_gatherFree _ r, mem_gatherFree w l, bound_gatherFree, or_assoc,
      ← and_or_left]
  | compare f o l r t =>
    rw [gatherFree, Mentions, mem_gatherFree _ r, mem_gatherFree w l, bound_gatherFree, or_assoc,
      ← and_or_left]
  | conjunction f os t => exact mem_gatherFreeAll w os
  | filter f s b e t =>
    -- the parameter is bound in the body only
    rw [gatherFree, Mentions, Walk.free_pop, mem_gatherFree _ e, Walk.free_push, Walk.bound_push,
      mem_gatherFree w s, bound_gatherFree, List.mem_cons, not_or, or_assoc, and_or_left, and_assoc,
      and_left_comm, ne_comm]
  | navigate site as w' t => exact mem_gatherFreeAll w as

theorem mem_gatherFreeAll {x : String} (w : Walk) (es : List Expression) :
    x ∈ (gatherFreeAll w es).free ↔ x ∈ w.free ∨ x ∉ w.bound ∧ MentionsAny x es := by
  match es with
  | [] => rw [gatherFreeAll, MentionsAny, and_false, or_false]
  | e :: es =>
    rw [gatherFreeAll, MentionsAny, mem_gatherFreeAll _ es, mem_gatherFree w e, bound_gatherFree,
      or_assoc, ← and_or_left]

end

/-- **The free variables of an expression are the names it mentions.** -/
theorem mem_freeVariables {x : String} {e : Expression} : x ∈ e.freeVariables ↔ e.Mentions x := by
  rw [freeVariables, mem_gatherFree]
  simp

end Expression

end Bitemporal
