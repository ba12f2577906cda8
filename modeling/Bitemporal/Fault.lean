/-
Bitemporal/Fault.lean

Why a compilation can fail.

A fault names its cause; its wording is in `message` alone.  Faults of the
category `internal` concern generated members and point to a model that was
not put together by a compilation.
-/
import Bitemporal.Shape

namespace Bitemporal

/-- The kinds of symbols a compilation asks for. -/
inductive SymbolKind
  | type | multiplicity | function | stereotype
  deriving DecidableEq

/-- The name of a kind of symbols. -/
def SymbolKind.name : SymbolKind → String
  | type => "type"
  | multiplicity => "multiplicity"
  | function => "function"
  | stereotype => "stereotype"

/-- The two categories of faults. -/
inductive FaultCategory
  | compilation | internal
  deriving DecidableEq

/-- Why a compilation failed. -/
inductive Fault
  /-- A navigation lacks dates on these axes, and none are in force. -/
  | missingDate (property : String) (expected : List Axis) (span : Option Span)
  /-- A qualified property that was not generated has no date parameters to count. -/
  | notMilestoned (property : String)
  /-- A class declares several shapes where one is demanded. -/
  | conflictingShapes (path : String) (shapes : List Shape) (span : Option Span)
  | unknownClass (path : String)
  | unknownAssociation (path : String)
  | unknownSymbol (kind : SymbolKind) (name : String)
  /-- The owner exposes no generated accessor with this number of parameters. -/
  | accessorNotFound (property owner : String) (parameterCount : Nat) (span : Option Span)
  deriving DecidableEq

namespace Fault

/-- The wording of a fault. -/
def message : Fault → String
  | missingDate property expected _ =>
    "No-Arg milestoned property: '" ++ property ++
      "' must be either called in a milestoning context or supplied with [" ++
      Text.join ", " (expected.map Axis.name) ++ "] parameters"
  | notMilestoned property =>
    "Unable to get milestoning date parameters for non milestoned QualifiedProperty: " ++ property
  | conflictingShapes path shapes _ =>
    "Class '" ++ path ++ "' has conflicting temporal stereotypes: " ++
      Text.join ", " (shapes.map Shape.name)
  | unknownClass path => "Can't find class '" ++ path ++ "'"
  | unknownAssociation path => "Can't find association '" ++ path ++ "'"
  | unknownSymbol kind name => "Can't resolve " ++ kind.name ++ " '" ++ name ++ "'"
  | accessorNotFound property owner count _ =>
    "Can't find milestoned accessor '" ++ property ++ "' with " ++ count.repr ++
      " parameter(s) on '" ++ owner ++ "'"

/-- The category of a fault. -/
def category : Fault → FaultCategory
  | notMilestoned _ => .internal
  | accessorNotFound _ _ _ _ => .internal
  | _ => .compilation

/-- Where the fault was found, if its cause has a place in a source text. -/
def span? : Fault → Option Span
  | missingDate _ _ s => s
  | conflictingShapes _ _ s => s
  | accessorNotFound _ _ _ s => s
  | _ => none

end Fault

/-- The shape of a class; with `strict`, a class that declares several shapes is at fault. -/
def Class.shapeChecked (c : Class) (strict : Bool) : Except Fault (Option Shape) :=
  if strict && 1 < c.shapes.length then
    .error (.conflictingShapes c.path c.shapes c.span)
  else .ok c.shapes.head?

end Bitemporal
