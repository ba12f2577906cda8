/-
Bitemporal/Conformance/Accessors.lean

Checking edge points and accessors.

For each replaced property of a class or association there is one edge point,
with its lower bound and no upper bound, and exactly the accessors that the
shapes at its two ends call for; no plain property keeps its name.  Conversely
each edge point stands for a property that is recorded as replaced.  A class
answers for the replaced properties it owns; those that an association exposes
on it are checked with the association.
-/
import Bitemporal.Conformance.Shapes
import Bitemporal.Milestoning

namespace Bitemporal

namespace AccessorCheck

/-- The name of this check. -/
def name : String := "milestoning/accessors"

/-- An accessor by its name and its number of parameters. -/
abbrev Key := String × Nat

/-- Whether a key comes before another: by name, then by number of parameters. -/
def Key.before (a b : Key) : Bool :=
  a.1 < b.1 || (a.1 == b.1 && a.2 < b.2)

/-- Adds a key to a strictly ascending list of keys. -/
def Key.insert (a : Key) : List Key → List Key
  | [] => [a]
  | b :: rest =>
    if a.before b then a :: b :: rest else if a = b then b :: rest else b :: Key.insert a rest

/-- The keys of a list, each once and in ascending order. -/
def Key.set (keys : List Key) : List Key :=
  keys.foldl (fun set a => a.insert set) []

/-- The accessors that a property needs, by the shapes at its two ends. -/
def expected (replaced : Property) (source : Option Shape) (target : Shape) : List Key :=
  Key.set <| (accessorForms source target .startEquality).map fun form =>
    match form with
    | .allDates => (replaced.name, 1 + target.axes.length)
    | .noDates => (replaced.name, 1)
    | .range _ => (Naming.range replaced.name, 3)

/-- The generated accessors of a property that are there. -/
def actual (replaced : Property) (qs : List QualifiedProperty) : List Key :=
  Key.set <| (qs.filter fun q => q.isGenerated &&
    (q.name == replaced.name || q.name == Naming.range replaced.name)).map fun q => (q.name, q.arity)

/-- The edge points among an element's properties that stand for no replaced property. -/
def unrecorded (owner : String) (members : Members) : List String :=
  (members.properties.filter Property.isEdgePoint).flatMap fun edge =>
    match Naming.ofEdgePoint? edge.name with
    | none => []
    | some name =>
      if members.replaced.any fun p => p.name == name then []
      else [owner ++ "." ++ edge.name ++ " has no recorded original " ++ ShapeCheck.marked name]

/-- What is wrong with the edge point of a replaced property. -/
def edgeViolations (owner : String) (members : Members) (replaced : Property) : List String :=
  let edgeName := Naming.edgePoint replaced.name
  match members.properties.filter fun p => p.name == edgeName with
  | [] => [owner ++ "." ++ replaced.name ++ " has no edge point " ++ ShapeCheck.marked edgeName]
  | [edge] =>
    (if edge.multiplicity.lower = replaced.multiplicity.lower ∧ edge.multiplicity.isUnbounded then []
      else [owner ++ "." ++ edgeName ++ " is " ++ edge.multiplicity.text ++
        ", expected lower bound " ++ replaced.multiplicity.lower.toNat.repr ++
        " and no upper bound"]) ++
    (if edge.isEdgePoint then []
      else [owner ++ "." ++ edgeName ++ " is not tagged as generated"])
  | edges => [owner ++ "." ++ replaced.name ++ " has " ++ edges.length.repr ++ " edge points"]

/-- What is wrong with the members generated for a replaced property whose accessors start from a
class of shape `source`. -/
def propertyViolations (m : Model) (owner : String) (source : Option Shape) (members : Members)
    (replaced : Property) : List String :=
  let subject := owner ++ "." ++ replaced.name
  let plain :=
    if members.properties.any fun p => p.name == replaced.name then
      [subject ++ " is still declared as a plain property"]
    else []
  let accessors := match m.shapeOf? replaced.type with
    | none => [subject ++ " is milestoned but " ++ replaced.type.text ++ " is not temporal"]
    | some target =>
      let expected := expected replaced source target
      let actual := actual replaced members.qualified
      (expected.filter fun a => !actual.contains a).map (fun (accessor, arity) =>
        owner ++ "." ++ accessor ++ " lacks its " ++ arity.repr ++ "-parameter accessor") ++
      (actual.filter fun a => !expected.contains a).map (fun (accessor, arity) =>
        owner ++ "." ++ accessor ++ " has an unexpected " ++ arity.repr ++ "-parameter accessor")
  edgeViolations owner members replaced ++ plain ++ accessors

/-- What is wrong with the members generated for a class. -/
def classViolations (m : Model) (c : Class) : List String :=
  unrecorded c.path c.toMembers ++
    (c.replaced.filter fun p => p.owner == .ofClass c.path).flatMap
      (propertyViolations m c.path c.shape? c.toMembers)

/-- What is wrong with the members generated for an association. -/
def associationViolations (m : Model) (a : Association) : List String :=
  unrecorded a.path a.toMembers ++ a.replaced.flatMap fun replaced =>
    match (a.exposingType? replaced.type).bind m.member? with
    | none => [a.path ++ "." ++ replaced.name ++ " is not exposed on a member class"]
    | some source => propertyViolations m a.path source.shape? a.toMembers replaced

/-- The verdict on the members generated for all elements. -/
def verdict (m : Model) : Verdict :=
  [Finding.ofViolations name "Milestoned properties expose an edge point and their accessor set"
    "Edge point or accessor violations detected"
    (m.classes.entries.flatMap (classViolations m) ++
      m.associations.entries.flatMap (associationViolations m))]

end AccessorCheck

end Bitemporal
