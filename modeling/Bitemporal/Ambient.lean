/-
Bitemporal/Ambient.lean

The dates in force at a point of an expression.

Each axis has at most one date in force.  A call that is given the dates of
its target puts them in force for what is evaluated after it.
-/
import Bitemporal.Shape

namespace Bitemporal

/-- The dates in force, by axis. -/
structure Ambient where
  processing : Option Expression := none
  business : Option Expression := none
  deriving DecidableEq

namespace Ambient

/-- The date in force on an axis. -/
def date? (a : Ambient) : Axis → Option Expression
  | .processing => a.processing
  | .business => a.business

/-- Puts a date in force. -/
def set (a : Ambient) (axis : Axis) (date : Expression) : Ambient :=
  match axis with
  | .processing => { a with processing := some date }
  | .business => { a with business := some date }

/-- Puts dates in force on the axes of a shape, in the order of its parameters.  Dates beyond the
last axis are ignored, and an axis without a date keeps the one it has. -/
def enter (a : Ambient) (shape : Shape) (dates : List Expression) : Ambient :=
  (shape.axes.zip dates).foldl (fun a (axis, date) => a.set axis date) a

/-- Puts in force what a call supplies to a target of the given shape, provided it supplies a date
for every axis. -/
def recordSupplied (a : Ambient) (shape : Shape) (dates : List Expression) : Ambient :=
  if shape.axes.length ≤ dates.length then a.enter shape dates else a

@[simp] theorem date?_set_self (a : Ambient) (axis : Axis) (d : Expression) :
    (a.set axis d).date? axis = some d := by
  cases axis <;> rfl

theorem date?_set_of_ne (a : Ambient) {x y : Axis} (h : y ≠ x) (d : Expression) :
    (a.set x d).date? y = a.date? y := by
  cases x <;> cases y <;> first | rfl | exact absurd rfl h

theorem ext_date? {a b : Ambient} (h : ∀ x, a.date? x = b.date? x) : a = b := by
  have hp := h .processing
  have hb := h .business
  cases a; cases b
  simp_all [date?]

end Ambient

end Bitemporal
