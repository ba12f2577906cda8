/-
Bitemporal/GeneratedAccessor.lean

The accessors generated for a property with a temporal target.

Each is a qualified property whose body filters the edge point:

    $this.addressAllVersions->filter(v_milestoning|…)

The forms differ in their date parameters and in the predicate.  `allDates`
and `noDates` keep the versions whose date on every axis of the target equals
the date of that name; the first takes these dates as parameters, the second
leaves them to be put in at its calls.  `range` takes a start and an end on the
first axis.

The symbols are asked for in the order in which the parts are built, so that a
table that lacks several of them names the first one needed.
-/
import Bitemporal.Symbols
import Bitemporal.Settings
import Bitemporal.Expression.Variables

namespace Bitemporal

/-- The forms of generated accessors. -/
inductive AccessorForm
  /-- One date parameter for each axis of the target. -/
  | allDates
  /-- No date parameters. -/
  | noDates
  /-- A start and an end on the first axis of the target. -/
  | range (filter : RangeFilter)
  deriving DecidableEq

/-- A property with a temporal target, as seen from the class that exposes it. -/
structure Edge where
  source : String
  target : String
  shape : Shape
  property : Property

namespace Edge

/-- The receiver of the accessors. -/
def this (e : Edge) (one : Multiplicity) : Variable :=
  { name := Naming.this, type := .ofClass e.source, multiplicity := one }

/-- The names of the dates that an accessor's predicate may refer to. -/
def dateNames (e : Edge) : AccessorForm → List String
  | .range _ => [Naming.rangeStart, Naming.rangeEnd]
  | _ => e.shape.dateNames

/-- The date of a version on an axis. -/
def versionDate (e : Edge) (s : Symbols) (version : Variable) (axis : Axis) :
    Except Fault Expression := do
  let type ← s.dateType
  let multiplicity ← s.one
  return (Navigation.plain e.target axis.name version.reference []).toExpression
    { type, multiplicity }

/-- One truth value. -/
def truth (s : Symbols) : Except Fault Typing := do
  let type ← s.type "Boolean"
  let multiplicity ← s.one
  return { type, multiplicity }

/-- The condition that the date of a version on an axis equals a variable. -/
def dateEquals (e : Edge) (s : Symbols) (version : Variable) (axis : Axis) (date : Variable) :
    Except Fault Expression := do
  let function ← s.function Builtin.equal
  let left ← e.versionDate s version axis
  return .equal function left date.reference (← truth s)

/-- The condition that two dates are in order. -/
def inOrder (s : Symbols) (op : Comparison) (left right : Expression) :
    Except Fault Expression := do
  let function ← s.function <| match op with
    | .lessThan => Builtin.lessThan
    | .lessThanEqual => Builtin.lessThanEqual
  return .compare function op left right (← truth s)

/-- The conditions that select versions, one after another. -/
def conditions (e : Edge) (s : Symbols) (version : Variable) (dates : List Variable) :
    AccessorForm → Except Fault (List Expression)
  | .range filter => do
    let axis := e.shape.primary
    let dateType ← s.dateType
    let first : Variable :=
      { name := Naming.rangeStart, type := dateType, multiplicity := version.multiplicity }
    let last : Variable :=
      { name := Naming.rangeEnd, type := dateType, multiplicity := version.multiplicity }
    match filter with
    | .startEquality => return [← e.dateEquals s version axis first]
    | .halfOpen =>
      let since ← e.versionDate s version axis
      let fromStart ← inOrder s .lessThanEqual first.reference since
      let before ← e.versionDate s version axis
      let toEnd ← inOrder s .lessThan before last.reference
      return [fromStart, toEnd]
  | _ => (e.shape.axes.zip dates).mapM fun (axis, date) => e.dateEquals s version axis date

/-- The conjunction of conditions; a single one stands for itself. -/
def conjunction (s : Symbols) : List Expression → Except Fault Expression
  | [condition] => .ok condition
  | conditions => do
    let function ← s.function Builtin.conjunction
    return .conjunction function conditions (← truth s)

/-- The body of an accessor, for its receiver and the dates its predicate may refer to. -/
def body (e : Edge) (s : Symbols) (this : Variable) (dates : List Variable) (form : AccessorForm) :
    Except Fault Expression := do
  let one ← s.one
  let many ← s.multiplicity "zeromany"
  let boolean ← s.type "Boolean"
  let versions :=
    (Navigation.plain e.source (Naming.edgePoint e.property.name) this.reference []).toExpression
      { type := e.property.type, multiplicity := e.property.multiplicity.widened }
  let version : Variable :=
    { name := Naming.version, type := e.property.type, multiplicity := one }
  let predicate ← conjunction s (← e.conditions s version dates form)
  let free := predicate.freeVariables
  let binder : Binder :=
    { parameter := version
      openVariables := this.name :: (dates.map (·.name)).filter free.contains
      signature := { parameters := [version], result := { type := boolean, multiplicity := one } } }
  let function ← s.function Builtin.filter
  return .filter function versions binder predicate
    { type := e.property.type, multiplicity := many }

/-- The accessor of the given form. -/
def accessor (e : Edge) (s : Symbols) (form : AccessorForm) : Except Fault QualifiedProperty := do
  let dateType ← s.dateType
  let one ← s.one
  let this := e.this one
  let dates : List Variable := (e.dateNames form).map fun name =>
    { name, type := dateType, multiplicity := one }
  let parameters := if form = .noDates then [this] else this :: dates
  let (name, multiplicity) ← match form with
    | .range _ => do
      let many ← s.multiplicity "zeromany"
      pure (Naming.range e.property.name, many)
    | _ => pure (e.property.name, e.property.multiplicity)
  let body ← e.body s this dates form
  let tag ← s.stereotype Naming.milestoningProfile Naming.generatedTag
  let typing : Typing := { type := e.property.type, multiplicity }
  return {
    toTyping := typing
    toAnnotations := e.property.toAnnotations.tagged tag
    name
    owner := e.property.owner
    signature := { parameters, result := typing }
    body := [body] }

/-- The property that replaces another: it leads to every version, so it has no upper
bound. -/
def edgePoint (property : Property) (tag : Stereotype) : Property :=
  { property with
    name := Naming.edgePoint property.name
    multiplicity := property.multiplicity.widened
    toAnnotations := property.toAnnotations.tagged tag }

end Edge

/-- The forms generated for a property, by the shapes of the classes at its two ends.  Dates may be
left out where the source fixes a date on each axis of the target; ranges run along one axis. -/
def accessorForms (source : Option Shape) (target : Shape) (filter : RangeFilter) :
    List AccessorForm :=
  let noDates :=
    if source = some .bitemporal ∨ source = some target then [AccessorForm.noDates] else []
  let range := if target.isUnitemporal then [AccessorForm.range filter] else []
  [.allDates] ++ noDates ++ range

end Bitemporal
