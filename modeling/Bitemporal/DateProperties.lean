/-
Bitemporal/DateProperties.lean

The date properties of temporal classes.

A temporal class carries a date for each axis of its shape and the range of
dates a version is valid for.  What it does not declare by name is added
behind its properties.
-/
import Bitemporal.Symbols

namespace Bitemporal

namespace Class

/-- A generated date property of a class. -/
def dateProperty (c : Class) (tag : Stereotype) (name : String) (typing : Typing) : Property :=
  { toTyping := typing, stereotypes := [tag], name, owner := .ofClass c.path }

/-- The date properties of a class of the given shape. -/
def dateProperties (c : Class) (s : Symbols) (shape : Shape) : Except Fault (List Property) := do
  let tag ← s.stereotype Naming.milestoningProfile Naming.generatedDateTag
  let dateType ← s.dateType
  let one ← s.one
  let zeroOne ← s.multiplicity "zeroone"
  return shape.dateNames.map (fun name => c.dateProperty tag name ⟨dateType, one⟩) ++
    [c.dateProperty tag Naming.rangeProperty ⟨.ofClass shape.rangeClass, zeroOne⟩]

/-- The class with the date properties it lacks, and their number. -/
def addDateProperties (c : Class) (s : Symbols) (shape : Shape) : Except Fault (Class × Nat) := do
  let generated ← c.dateProperties s shape
  let (properties, added) := generated.foldl (addNewCounted Property.sameName) (c.properties, 0)
  return ({ c with properties }, added)

end Class

end Bitemporal
