/-
Bitemporal/Conformance/Associations.lean

Checking the views of associations.

Each member class shows exactly the association's entries that are exposed on
it, in the association's order: the properties by name, the qualified
properties by name and number of parameters.  Of replaced properties only the set of
names counts.
-/
import Bitemporal.Conformance.Verdict
import Bitemporal.Milestoning
import Bitemporal.Text.Quoted

namespace Bitemporal

namespace AssociationCheck

/-- The name of this check. -/
def name : String := "milestoning/associations"

/-- Whether the class of path `member` exposes an association's entry of this type. -/
def exposes (m : Model) (a : Association) (member : String) (type : TypeRef) : Bool :=
  m.exposingClass? a type == some member

/-- The names of an association's properties that a class exposes. -/
def exposedNames (m : Model) (a : Association) (member : String) (ps : List Property) :
    List String :=
  (ps.filter fun p => exposes m a member p.type).map (·.name)

/-- The names of a class's properties that belong to an association. -/
def shownNames (a : Association) (ps : List Property) : List String :=
  (ps.filter fun p => p.owner.isAssociation a.path).map (·.name)

/-- What is wrong with the view of an association that one class shows. -/
def viewViolations (m : Model) (a : Association) (member : String) : List String :=
  match m.class? member with
  | none => []
  | some c =>
    let expected := exposedNames m a member a.properties
    let shown := shownNames a c.exposed
    let expectedQualified := (a.qualified.filter fun q => exposes m a member q.type).map
      fun q => (q.name, q.arity)
    let shownQualified := (c.exposedQualified.filter fun q => q.owner.isAssociation a.path).map
      fun q => (q.name, q.arity)
    let expectedReplaced := nameSet (exposedNames m a member a.replaced)
    let shownReplaced := nameSet (shownNames a c.replaced)
    (if expected = shown then []
      else [member ++ " exposes [" ++ Text.join ", " shown ++ "] from " ++ a.path ++
        ", expected [" ++ Text.join ", " expected ++ "]"]) ++
    (if expectedQualified = shownQualified then []
      else [member ++ " exposes " ++ shownQualified.length.repr ++ " qualified properties from " ++
        a.path ++ ", expected " ++ expectedQualified.length.repr]) ++
    (if expectedReplaced = shownReplaced then []
      else [member ++ " records milestoned ends " ++ Text.quotedSet shownReplaced ++ " from " ++
        a.path ++ ", expected " ++ Text.quotedSet expectedReplaced])

/-- What is wrong with the views of an association. -/
def violations (m : Model) (a : Association) : List String :=
  let members := m.memberClasses a
  if members.isEmpty then [a.path ++ " has no member class in the model"]
  else members.flatMap (viewViolations m a)

/-- The verdict on the views of all associations. -/
def verdict (m : Model) : Verdict :=
  [Finding.ofViolations name "Member class views mirror their associations"
    "Association view violations detected" (m.associations.entries.flatMap (violations m))]

end AssociationCheck

end Bitemporal
