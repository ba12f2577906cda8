/-
Bitemporal/Expression/Variables.lean

The free variables of an expression.

`freeVariables` walks a tree once.  The names bound where the walk stands are on a
stack: a filter puts its variable on it before its body is walked, and takes it
off again behind it; its source stands outside.  Every name that is met and is
not on the stack is gathered in an ascending list.  The arguments that a
navigation keeps as written are a record, not part of the tree's meaning, and
are not visited.
-/
import Bitemporal.Expression

namespace Bitemporal

/-- A walk under way: the names bound where it stands, the innermost first, and the free names that
it has met, in ascending order. -/
structure Walk where
  bound : List String := []
  free : List String := []

namespace Walk

/-- Meets a name, which is free unless it is bound. -/
def meet (w : Walk) (name : String) : Walk :=
  if w.bound.contains name then w else { w with free := insertName name w.free }

/-- Binds a name. -/
def push (w : Walk) (name : String) : Walk :=
  { w with bound := name :: w.bound }

/-- Takes off the name that was bound last. -/
def pop (w : Walk) : Walk :=
  { w with bound := w.bound.tail }

end Walk

namespace Expression

mutual

/-- Walks an expression. -/
def gatherFree (w : Walk) : Expression → Walk
  | reference n _ => w.meet n
  | literal _ _ => w
  | equal _ l r _ => gatherFree (gatherFree w l) r
  | compare _ _ l r _ => gatherFree (gatherFree w l) r
  | conjunction _ os _ => gatherFreeAll w os
  | filter _ s b e _ => (gatherFree ((gatherFree w s).push b.parameter.name) e).pop
  | navigate _ as _ _ => gatherFreeAll w as

/-- Walks the expressions of a list in turn. -/
def gatherFreeAll (w : Walk) : List Expression → Walk
  | [] => w
  | e :: es => gatherFreeAll (gatherFree w e) es

end

/-- The names an expression refers to and does not bind, in ascending order. -/
def freeVariables (e : Expression) : List String :=
  (gatherFree {} e).free

end Expression

end Bitemporal
