/-
Bitemporal/Compilation.lean

Compiling a model.

A compilation classifies the classes, adds date properties to the temporal
ones, replaces properties that lead to temporal classes, those of classes
first and then the ends of associations, and dates the bodies of the declared
qualified properties.  Each body is dated on its own, with the dates of its
receiver in force: what one body puts in force reaches no other.

A compilation either yields a new model with a report, or a fault.  It is run in
place: on a copy, which takes the place of the model on success only, so that a
compilation that fails leaves the model alone.
-/
import Bitemporal.DateProperties
import Bitemporal.Milestoning
import Bitemporal.Dating

namespace Bitemporal

/-- What a compilation found and how much it changed. -/
structure Report where
  /-- The temporal classes with their shapes, in the order of paths. -/
  temporalClasses : List (String × Shape) := []
  /-- The number of date properties added. -/
  synthesized : Nat := 0
  /-- The number of properties and association ends replaced. -/
  milestoned : Nat := 0
  /-- The number of qualified properties whose bodies changed. -/
  dated : Nat := 0
  deriving DecidableEq

/-- Whether a compilation changed nothing. -/
def Report.isUnchanged (r : Report) : Bool :=
  r.synthesized == 0 && r.milestoned == 0 && r.dated == 0

namespace Model

/-- The dates in force at the start of a body: those of the receiver, if it has a shape. -/
def receiverAmbient (m : Model) (s : Symbols) (q : QualifiedProperty) : Except Fault Ambient := do
  let some this := q.signature.parameters.head? | return {}
  let some c := m.resolve? this.type | return {}
  let some shape := c.shape? | return {}
  let type ← s.dateType
  let multiplicity ← s.one
  return Ambient.enter {} shape <| shape.axes.map fun axis =>
    (Navigation.plain c.path axis.name this.reference []).toExpression { type, multiplicity }

/-- A qualified property with its body dated. -/
def dateBody (m : Model) (s : Symbols) (q : QualifiedProperty) : Except Fault QualifiedProperty := do
  if q.isGenerated then return q
  let ambient ← m.receiverAmbient s q
  let body ← ((Expression.datedAll m q.body).from ambient).1
  return { q with body }

/-- Qualified properties with their bodies dated, and the number of those that changed. -/
def dateBodies (m : Model) (s : Symbols) (qs : List QualifiedProperty) :
    Except Fault (List QualifiedProperty × Nat) := do
  let dated ← qs.mapM (m.dateBody s)
  return (dated, (qs.zip dated).countP fun (q, r) => q.body != r.body)

/-- Runs a counting step for each item in turn. -/
def forEach {ι : Type} (step : Model → ι → Except Fault (Model × Nat)) (m : Model)
    (items : List ι) : Except Fault (Model × Nat) :=
  items.foldlM
    (fun (m, count) item => do
      let (m, more) ← step m item
      return (m, count + more))
    (m, 0)

/-- Adds the date properties of the class of this path, with the shape that is recorded for it. -/
def synthesizeAt (s : Symbols) (m : Model) : String × Shape → Except Fault (Model × Nat)
  | (path, shape) => do
    let some c := m.class? path | return (m, 0)
    let (c, added) ← c.addDateProperties s shape
    return (m.addClass c, added)

/-- Dates the bodies that the class of this path declares. -/
def dateClass (s : Symbols) (m : Model) (path : String) : Except Fault (Model × Nat) := do
  let some c := m.class? path | return (m, 0)
  let (qualified, changed) ← m.dateBodies s c.qualified
  if changed = 0 then return (m, 0)
  return (m.modifyClass path fun c => { c with qualified }, changed)

/-- Dates the bodies that the association of this path declares, and renews its views if one
changed. -/
def dateAssociation (s : Symbols) (m : Model) (path : String) : Except Fault (Model × Nat) := do
  let some a := m.association? path | return (m, 0)
  let (qualified, changed) ← m.dateBodies s a.qualified
  if changed = 0 then return (m, 0)
  let m := m.modifyAssociation path fun a => { a with qualified }
  return (← m.renewViews path, changed)

/-- The temporal classes of a model with their shapes. -/
def classify (m : Model) (strict : Bool) : Except Fault (List (String × Shape)) := do
  let shapes ← m.classes.entries.mapM fun c => return (c.path, ← c.shapeChecked strict)
  return shapes.filterMap fun (path, shape?) => shape?.map fun shape => (path, shape)

/-- What a compilation makes of a model. -/
def compile (s : Symbols) (settings : Settings) (m : Model) : Except Fault (Report × Model) := do
  let temporalClasses ← m.classify settings.strictShapes
  let (m, synthesized) ← forEach (synthesizeAt s) m temporalClasses
  let (m, inClasses) ← forEach (milestoneClass · s settings.rangeFilter ·) m m.classes.paths
  let (m, inAssociations) ←
    forEach (milestoneAssociation · s settings.rangeFilter ·) m m.associations.paths
  let (m, datedInClasses) ← forEach (dateClass s) m m.classes.paths
  let (m, datedInAssociations) ← forEach (dateAssociation s) m m.associations.paths
  return ({ temporalClasses, synthesized
            milestoned := inClasses + inAssociations
            dated := datedInClasses + datedInAssociations }, m)

end Model

/-- Computations that change a model in place.  What they have done to it outlives a failure. -/
abbrev Changing := ExceptT Fault (StateM Model)

/-- Runs a computation on a model, and gives what the model has become. -/
def Changing.on {α : Type} (x : Changing α) (m : Model) : Except Fault α × Model :=
  x.run.run m

namespace Model

/-- Compiles a model in place.  The stages run on a copy, which takes the place of the model once all
of them have succeeded. -/
def compileInPlace (s : Symbols) (settings : Settings) : Changing Report := do
  let working ← get
  let (report, working) ← MonadExcept.ofExcept (working.compile s settings)
  set working
  return report

/-- On success the model is what the compilation makes of it, and after a fault it is as it was. -/
theorem compileInPlace_on (s : Symbols) (settings : Settings) (m : Model) :
    (compileInPlace s settings).on m =
      match m.compile s settings with
      | .ok (report, m') => (.ok report, m')
      | .error fault => (.error fault, m) := by
  show ((MonadExcept.ofExcept (m.compile s settings) >>= _ : Changing Report).on m) = _
  rcases m.compile s settings with fault | ⟨report, m'⟩
  · rfl
  · rfl

end Model

end Bitemporal
