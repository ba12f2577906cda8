/-
Bitemporal/Element.lean

Classes and associations.

A class declares members, and besides shows in its *views* the ends of the
associations it takes part in.  An association joins two classes, its members,
by one property per direction: an end that targets one member is exposed on
the other.
-/
import Bitemporal.Member

namespace Bitemporal

/-- A class: its declared members, and in `exposed` and `exposedQualified` what associations
expose on it. -/
structure Class extends Annotations, Members where
  path : String
  exposed : List Property := []
  exposedQualified : List QualifiedProperty := []
  span : Option Span := none
  deriving DecidableEq

namespace Class

/-- The local name of a class. -/
def name (c : Class) : String :=
  Text.localName c.path

/-- The reference to a class by its full path. -/
def typeRef (c : Class) : TypeRef :=
  .ofClass c.path

/-- Declared properties, then exposed ones. -/
def allProperties (c : Class) : List Property :=
  c.properties ++ c.exposed

/-- Declared qualified properties, then exposed ones. -/
def allQualified (c : Class) : List QualifiedProperty :=
  c.qualified ++ c.exposedQualified

/-- The class with one more exposed property. -/
def expose (c : Class) (p : Property) : Class :=
  { c with exposed := c.exposed ++ [p] }

/-- The class with one more exposed qualified property. -/
def exposeQualified (c : Class) (q : QualifiedProperty) : Class :=
  { c with exposedQualified := c.exposedQualified ++ [q] }

/-- The class with one more property recorded as replaced, unless one of its name is. -/
def recordReplaced (c : Class) (p : Property) : Class :=
  { c with replaced := Property.addNamed c.replaced p }

/-- The first property of this name, declared or exposed. -/
def findProperty? (c : Class) (name : String) : Option Property :=
  c.allProperties.find? fun p => p.name == name

end Class

/-- An association. -/
structure Association extends Members where
  path : String
  span : Option Span := none
  deriving DecidableEq

namespace Association

/-- The paths of the classes its ends target, in the order of the ends. -/
def memberPaths (a : Association) : List String :=
  a.properties.filterMap fun p => p.type.path?

/-- The path of the class that exposes an entry with this target: of two members the one opposite
the target, which for an association of a class with itself is the class again. -/
def exposing? (a : Association) (target : String) : Option String :=
  match a.memberPaths with
  | [first, second] =>
    if first = target then some second
    else if second = target then some first
    else none
  | _ => none

/-- The path of the class that exposes an entry of this type. -/
def exposingType? (a : Association) (type : TypeRef) : Option String :=
  type.path?.bind a.exposing?

end Association

end Bitemporal
