/-
Bitemporal/Settings.lean

What a user may choose about a compilation.
-/

namespace Bitemporal

/-- How a range accessor selects versions. -/
inductive RangeFilter
  /-- Those whose date is the start; the end is accepted and not used. -/
  | startEquality
  /-- Those from the start, included, to the end, excluded. -/
  | halfOpen
  deriving DecidableEq

namespace RangeFilter

/-- The name of a range filter. -/
def name : RangeFilter → String
  | startEquality => "start-equality"
  | halfOpen => "half-open"

/-- The range filter of this name. -/
def ofName? (name : String) : Option RangeFilter :=
  [startEquality, halfOpen].find? fun f => f.name == name

@[simp] theorem ofName?_name (f : RangeFilter) : ofName? f.name = some f := by
  cases f <;> rfl

end RangeFilter

/-- The settings of a compilation.  With `strictShapes`, a class that declares several shapes is at
fault. -/
structure Settings where
  rangeFilter : RangeFilter := .startEquality
  strictShapes : Bool := false
  deriving DecidableEq

end Bitemporal
