/-
Bitemporal/Generated.lean

Telling generated members from declared ones.

A generated member is known by its stereotype.  Among generated qualified
properties a range accessor is further known by its name; every other one is a
date accessor, which takes either all dates of its target's shape or none.
-/
import Bitemporal.Model
import Bitemporal.Shape
import Bitemporal.Naming
import Bitemporal.Fault

namespace Bitemporal

namespace Property

/-- Whether the property is an edge point. -/
def isEdgePoint (p : Property) : Bool :=
  p.hasStereotype Naming.generatedTag

/-- Whether the property is a generated date property. -/
def isGeneratedDate (p : Property) : Bool :=
  p.hasStereotype Naming.generatedDateTag

/-- Whether the property was generated. -/
def isGenerated (p : Property) : Bool :=
  p.isEdgePoint || p.isGeneratedDate

end Property

namespace QualifiedProperty

/-- Whether the qualified property was generated. -/
def isGenerated (q : QualifiedProperty) : Bool :=
  q.hasStereotype Naming.generatedTag

/-- Whether the qualified property is a generated range accessor. -/
def isRange (q : QualifiedProperty) : Bool :=
  q.isGenerated && Naming.isRange q.name

end QualifiedProperty

namespace Model

/-- The shape of the class a type reference denotes. -/
def shapeOf? (m : Model) (t : TypeRef) : Option Shape :=
  (m.resolve? t).bind fun c => c.shape?

/-- The shape of the class of this full path. -/
def shapeAt? (m : Model) (path : String) : Option Shape :=
  (m.class? path).bind fun c => c.shape?

/-- The number of parameters that a generated accessor needs to be called with all dates: the
receiver and one for each axis of its target. -/
def requiredParameterCount (m : Model) (q : QualifiedProperty) : Except Fault Nat :=
  if q.isGenerated then
    match m.shapeOf? q.type with
    | some shape => .ok (1 + shape.axes.length)
    | none => .error (.notMilestoned q.name)
  else .error (.notMilestoned q.name)

/-- Whether a call of a generated accessor with this number of parameters leaves out dates.  Range
accessors never have dates filled in. -/
def lacksDates (m : Model) (q : QualifiedProperty) (parameterCount : Nat) : Bool :=
  if !q.isGenerated || q.isRange then false
  else
    match m.requiredParameterCount q with
    | .ok required => parameterCount != required
    | .error _ => false

end Model

end Bitemporal
