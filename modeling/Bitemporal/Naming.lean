/-
Bitemporal/Naming.lean

The names of generated members.

A property `address` with a temporal target is replaced by its *edge point*
`addressAllVersions`, which leads to all versions, and may get a range accessor
`addressAllVersionsInRange`.  Generated members carry a stereotype of the
milestoning profile; one value marks edge points and accessors, another the
date properties of temporal classes.
-/
import Bitemporal.Text

namespace Bitemporal

namespace Naming

/-- What the name of an edge point adds. -/
def edgePointEnding : String := "AllVersions"

/-- What the name of a range accessor adds. -/
def rangeEnding : String := "AllVersionsInRange"

/-- The name of the edge point of a property. -/
def edgePoint (name : String) : String :=
  name ++ edgePointEnding

/-- The name of the range accessor of a property. -/
def range (name : String) : String :=
  name ++ rangeEnding

/-- Whether a name is that of a range accessor; the ending alone is not. -/
def isRange (name : String) : Bool :=
  match Text.dropEnding? rangeEnding name with
  | some n => !n.isEmpty
  | none => false

/-- The name of the property that an edge point of this name stands for. -/
def ofEdgePoint? (edgePoint : String) : Option String :=
  (Text.dropEnding? edgePointEnding edgePoint).filter fun n => !n.isEmpty

/-- The profile of the stereotypes on generated members. -/
def milestoningProfile : String := "meta::pure::profiles::milestoning"

/-- The stereotype on edge points and generated accessors. -/
def generatedTag : String := "generatedmilestoningproperty"

/-- The stereotype on the date properties of temporal classes. -/
def generatedDateTag : String := "generatedmilestoningdateproperty"

/-- The property that holds the range of dates a version is valid for. -/
def rangeProperty : String := "milestoning"

/-- The variable of generated filters. -/
def version : String := "v_milestoning"

/-- The receiver of generated accessors. -/
def this : String := "this"

/-- The first date of a range accessor. -/
def rangeStart : String := "start"

/-- The second date of a range accessor. -/
def rangeEnd : String := "end"

end Naming

end Bitemporal
