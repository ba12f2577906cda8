/-
Bitemporal/Views.lean

Renewing the views of associations.

When an association's members have changed, or may have, the classes it joins
take them over anew: what they show of the association is dropped, and its
present entries are put at the end, each on the class opposite its target.  The
classes are found by the model's rule for abbreviated paths.
-/
import Bitemporal.Model
import Bitemporal.Fault

namespace Bitemporal

/-- The class without what the association of this path has exposed on it. -/
def Class.withoutEntriesOf (c : Class) (association : String) : Class :=
  { c with
    exposed := c.exposed.filter fun p => !p.owner.isAssociation association
    exposedQualified := c.exposedQualified.filter fun q => !q.owner.isAssociation association
    replaced := c.replaced.filter fun p => !p.owner.isAssociation association }

namespace Model

/-- The path of the class that exposes an association's entry of this type, if it is in the
model. -/
def exposingClass? (m : Model) (a : Association) (type : TypeRef) : Option String :=
  (a.exposingType? type).bind fun path => (m.member? path).map (·.path)

/-- Drops each path that equals the one behind it. -/
def dropRepeats : List String → List String
  | p :: q :: rest => if p = q then dropRepeats (q :: rest) else p :: dropRepeats (q :: rest)
  | paths => paths

/-- The paths of the classes that an association's ends target, as far as they are in the model;
for an association of a class with itself the class counts once. -/
def memberClasses (m : Model) (a : Association) : List String :=
  dropRepeats (a.memberPaths.filterMap fun path => (m.member? path).map (·.path))

/-- Renews the views of an association. -/
def renewViewsOf (m : Model) (a : Association) : Model :=
  let exposing (type : TypeRef) := m.exposingClass? a type
  let cleared := (m.memberClasses a).foldl
    (fun m member => m.modifyClass member fun c => c.withoutEntriesOf a.path) m
  let withProperties := cleared.exposeAll (fun p => exposing p.type) Class.expose a.properties
  let withQualified :=
    withProperties.exposeAll (fun q => exposing q.type) Class.exposeQualified a.qualified
  withQualified.exposeAll (fun p => exposing p.type) Class.recordReplaced a.replaced

/-- Renews the views of the association of this path. -/
def renewViews (m : Model) (path : String) : Except Fault Model :=
  match m.association? path with
  | some a => .ok (m.renewViewsOf a)
  | none => .error (.unknownAssociation path)

end Model

end Bitemporal
