/-
Bitemporal/Milestoning.lean

Replacing properties with temporal targets.

A property that was not generated and leads to a temporal class is an *edge*
of the class that exposes it.  Milestoning replaces it in place by its edge
point, puts its accessors behind the qualified properties, unless one of the
same name and number of parameters is there, and records the property itself
as replaced, unless one of its name is recorded.

The ends of an association have no class of their own to start from: an end
starts from the class that exposes it, and one that no class exposes is left
alone.
-/
import Bitemporal.Generated
import Bitemporal.GeneratedAccessor
import Bitemporal.Views

namespace Bitemporal

/-- What milestoning has made of some members. -/
structure Milestoned where
  members : Members
  /-- The names of the replaced properties, in their order. -/
  names : List String
  /-- How many accessors were added. -/
  accessors : Nat
  deriving DecidableEq

namespace Model

/-- The class and shape that a property leads to, if it was not generated and they are there. -/
def temporalTarget? (m : Model) (p : Property) : Option (Class × Shape) :=
  if p.isGenerated then none
  else (m.resolve? p.type).bind fun c => c.shape?.map fun shape => (c, shape)

/-- The edge that a property is, where `sourceOf` gives the path of the class that exposes it. -/
def edge? (m : Model) (sourceOf : Property → Option String) (p : Property) : Option Edge := do
  let (target, shape) ← m.temporalTarget? p
  let source ← sourceOf p
  return { source, target := target.path, shape, property := p }

/-- The accessors of an edge, in the order of their forms. -/
def accessors (m : Model) (s : Symbols) (filter : RangeFilter) (e : Edge) :
    Except Fault (List QualifiedProperty) :=
  (accessorForms (m.shapeAt? e.source) e.shape filter).mapM (e.accessor s)

/-- Replaces every edge among some members. -/
def milestone (m : Model) (s : Symbols) (filter : RangeFilter) (members : Members)
    (sourceOf : Property → Option String) : Except Fault Milestoned := do
  let tag ← s.stereotype Naming.milestoningProfile Naming.generatedTag
  let edges := members.properties.filterMap (m.edge? sourceOf)
  let accessors ← edges.mapM (m.accessors s filter)
  let (qualified, added) :=
    accessors.flatten.foldl (addNewCounted QualifiedProperty.sameKey) (members.qualified, 0)
  return {
    members := {
      properties := members.properties.map fun p =>
        if (m.edge? sourceOf p).isSome then Edge.edgePoint p tag else p
      qualified
      replaced := (edges.map (·.property)).foldl Property.addNamed members.replaced }
    names := edges.map (·.property.name)
    accessors := added }

/-- Milestones the declared members of the class of this path, and counts the replaced
properties. -/
def milestoneClass (m : Model) (s : Symbols) (filter : RangeFilter) (path : String) :
    Except Fault (Model × Nat) := do
  let some c := m.class? path | throw (.unknownClass path)
  let done ← m.milestone s filter c.toMembers fun _ => some c.path
  if done.names.isEmpty then return (m, 0)
  return (m.modifyClass path fun c => { c with toMembers := done.members }, done.names.length)

/-- Milestones the ends of the association of this path and renews its members' views, and counts
the replaced ends. -/
def milestoneAssociation (m : Model) (s : Symbols) (filter : RangeFilter) (path : String) :
    Except Fault (Model × Nat) := do
  let some a := m.association? path | throw (.unknownAssociation path)
  let done ← m.milestone s filter a.toMembers fun p => m.exposingClass? a p.type
  let m' :=
    if done.names.isEmpty then m
    else m.modifyAssociation path fun a => { a with toMembers := done.members }
  return (← m'.renewViews path, done.names.length)

end Model

end Bitemporal
