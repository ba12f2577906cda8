/-
Bitemporal/Conformance/Shapes.lean

Checking the date properties of classes.

A temporal class declares, each exactly once, its shape's dates as `Date[1]`
and the range of dates as an optional value of its shape's range class, all of
them tagged as generated, and no other property with that tag.  A class without
a shape declares none.  A class that declares several shapes is checked for the
first, and warned about.
-/
import Bitemporal.Conformance.Verdict
import Bitemporal.Generated

namespace Bitemporal

namespace ShapeCheck

/-- The name of this check. -/
def name : String := "milestoning/shapes"

/-- A name between grave accents. -/
def marked (s : String) : String :=
  "\x60" ++ s ++ "\x60"

/-- What is wrong with a class's date of this name. -/
def dateViolations (c : Class) (date : String) : List String :=
  match c.properties.filter fun p => p.name == date with
  | [] => [c.path ++ " lacks " ++ marked date]
  | [p] =>
    (if p.toTyping = .date then []
      else [c.path ++ "." ++ date ++ " is " ++ p.toTyping.text ++ ", expected Date[1]"]) ++
    (if p.isGeneratedDate then []
      else [c.path ++ "." ++ date ++ " is not tagged as generated"])
  | _ => [c.path ++ " declares " ++ marked date ++ " more than once"]

/-- What is wrong with a class's range of dates. -/
def rangeViolations (c : Class) (shape : Shape) : List String :=
  match c.properties.find? fun p => p.name == Naming.rangeProperty with
  | none => [c.path ++ " lacks " ++ marked Naming.rangeProperty]
  | some p =>
    (if p.type.isClass shape.rangeClass && p.multiplicity == .zeroOne then []
      else [c.path ++ "." ++ Naming.rangeProperty ++ " is " ++ p.toTyping.text ++ ", expected " ++
        shape.rangeClass ++ "[0..1]"]) ++
    (if p.isGeneratedDate then []
      else [c.path ++ "." ++ Naming.rangeProperty ++ " is not tagged as generated"])

/-- The generated date properties of a class that its shape does not have. -/
def strayViolations (c : Class) (shape : Shape) : List String :=
  (c.properties.filter fun p =>
      p.isGeneratedDate && p.name != Naming.rangeProperty && !shape.dateNames.contains p.name).map
    fun p => c.path ++ " is " ++ shape.name ++ " but carries " ++ marked p.name

/-- What is wrong with the date properties of a class. -/
def violations (c : Class) : List String :=
  match c.shape? with
  | some shape =>
    shape.dateNames.flatMap (dateViolations c) ++ rangeViolations c shape ++ strayViolations c shape
  | none =>
    (c.properties.filter Property.isGeneratedDate).map fun p =>
      c.path ++ " has no temporal stereotype but carries generated " ++ marked p.name

/-- The class with its shapes, if it declares several. -/
def ambiguities (c : Class) : List String :=
  if 1 < c.shapes.length then
    [c.path ++ " (" ++ Text.join ", " (c.shapes.map Shape.name) ++ ")"]
  else []

/-- The verdict on the date properties of all classes. -/
def verdict (m : Model) : Verdict :=
  let ambiguous := m.classes.entries.flatMap ambiguities
  Finding.ofViolations name "Temporal classes carry exactly their shape's date properties"
      "Date property violations detected" (m.classes.entries.flatMap violations) ::
    if ambiguous.isEmpty then []
    else [Finding.warning name "Classes with several temporal stereotypes use the first declared"
      ambiguous]

end ShapeCheck

end Bitemporal
