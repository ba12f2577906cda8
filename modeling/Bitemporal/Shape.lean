/-
Bitemporal/Shape.lean

Temporal shapes.

Versions of an object differ along up to two axes of time: *processing* time,
when something was recorded, and *business* time, when it was in effect.  A
class declares by a stereotype along which axes its objects are versioned; the
axes, processing first, are also the order of the date parameters of what is
generated for it.

A shape is read off the stereotypes every time it is needed and never stored.
Where a class carries several temporal stereotypes, the first counts.
-/
import Bitemporal.Element

namespace Bitemporal

/-- An axis of time. -/
inductive Axis
  | processing | business
  deriving DecidableEq

namespace Axis

/-- The name of the date on an axis. -/
def name : Axis → String
  | processing => "processingDate"
  | business => "businessDate"

/-- The axis whose date has this name. -/
def ofName? (name : String) : Option Axis :=
  [processing, business].find? fun a => a.name == name

/-- The place of an axis among both. -/
def position : Axis → Nat
  | processing => 0
  | business => 1

/-- The other axis. -/
def other : Axis → Axis
  | processing => business
  | business => processing

@[simp] theorem other_other (a : Axis) : a.other.other = a := by
  cases a <;> rfl

end Axis

/-- The ways objects are versioned. -/
inductive Shape
  | business | processing | bitemporal
  deriving DecidableEq

namespace Shape

/-- Every shape. -/
def all : List Shape :=
  [business, processing, bitemporal]

/-- The value of the stereotype that declares a shape. -/
def name : Shape → String
  | business => "businesstemporal"
  | processing => "processingtemporal"
  | bitemporal => "bitemporal"

/-- The shape that a stereotype of this value declares. -/
def ofName? (value : String) : Option Shape :=
  all.find? fun s => s.name == value

@[simp] theorem ofName?_name (s : Shape) : ofName? s.name = some s := by
  cases s <;> rfl

/-- The axes of a shape, in the order of parameters. -/
def axes : Shape → List Axis
  | business => [.business]
  | processing => [.processing]
  | bitemporal => [.processing, .business]

/-- The names of a shape's dates, in the order of parameters. -/
def dateNames (s : Shape) : List String :=
  s.axes.map Axis.name

/-- The first axis of a shape. -/
def primary : Shape → Axis
  | business => .business
  | processing => .processing
  | bitemporal => .processing

/-- Whether a shape has one axis only. -/
def isUnitemporal : Shape → Bool
  | bitemporal => false
  | _ => true

/-- The class of the date range that a version is valid for. -/
def rangeClass : Shape → String
  | business => "meta::pure::milestoning::BusinessDateMilestoning"
  | processing => "meta::pure::milestoning::ProcessingDateMilestoning"
  | bitemporal => "meta::pure::milestoning::BiTemporalMilestoning"

theorem axes_head (s : Shape) : s.axes.head? = some s.primary := by
  cases s <;> rfl

theorem axes_nodup (s : Shape) : s.axes.Nodup := by
  cases s <;> decide

end Shape

/-- The profile that declares the temporal stereotypes. -/
def temporalProfile : String := "meta::pure::profiles::temporal"

namespace Annotations

/-- The shapes that the stereotypes declare, each once, in the order of declaration. -/
def shapes (a : Annotations) : List Shape :=
  (a.stereotypes.filterMap fun s => Shape.ofName? s.value).foldl
    (fun shapes s => if shapes.contains s then shapes else shapes ++ [s]) []

/-- The shape that the first temporal stereotype declares. -/
def shape? (a : Annotations) : Option Shape :=
  a.stereotypes.findSome? fun s => Shape.ofName? s.value

end Annotations

end Bitemporal
