/-
Bitemporal/TypeRef.lean

References to types.

A type is a primitive or a class.  A class is referred to by its full path, or
by an *abbreviation*: the path as it was written where the reference stands,
which may lack its leading packages.  Whether an abbreviation denotes a class,
and which, is settled by the model (`Model.resolve?`).

A *typing* is a type with a multiplicity; variables, properties and
expressions all carry one.
-/
import Bitemporal.Text
import Bitemporal.Multiplicity

namespace Bitemporal

/-- The built-in types. -/
inductive Primitive
  | boolean | string | integer | float | number | date | strictDate | dateTime
  deriving DecidableEq

namespace Primitive

/-- Every built-in type. -/
def all : List Primitive :=
  [boolean, string, integer, float, number, date, strictDate, dateTime]

/-- The name a built-in type is written by. -/
def name : Primitive → String
  | boolean => "Boolean"
  | string => "String"
  | integer => "Integer"
  | float => "Float"
  | number => "Number"
  | date => "Date"
  | strictDate => "StrictDate"
  | dateTime => "DateTime"

/-- The built-in type of the given name. -/
def ofName? (name : String) : Option Primitive :=
  all.find? fun p => p.name == name

@[simp] theorem ofName?_name (p : Primitive) : ofName? p.name = some p := by
  cases p <;> rfl

end Primitive

/-- A reference to a type. -/
inductive TypeRef
  /-- A built-in type. -/
  | primitive (type : Primitive)
  /-- A class, by its full path. -/
  | ofClass (path : String)
  /-- A class, by a path that may be abbreviated. -/
  | abbreviated (path : String)
  deriving DecidableEq

namespace TypeRef

/-- The path a class reference is written by. -/
def path? : TypeRef → Option String
  | primitive _ => none
  | ofClass p => some p
  | abbreviated p => some p

/-- The name of a built-in type, or the local name of a class. -/
def name : TypeRef → String
  | primitive p => p.name
  | ofClass p => Text.localName p
  | abbreviated p => Text.localName p

/-- The reference as it is written. -/
def text : TypeRef → String
  | primitive p => p.name
  | ofClass p => p
  | abbreviated p => p

/-- Whether the reference is written by exactly this path. -/
def isClass (t : TypeRef) (path : String) : Bool :=
  t.path? == some path

/-- The type of dates. -/
def date : TypeRef := primitive .date

end TypeRef

/-- A type with a multiplicity. -/
structure Typing where
  type : TypeRef
  multiplicity : Multiplicity
  deriving DecidableEq

namespace Typing

/-- The text of a typing: `Date[1]`. -/
def text (t : Typing) : String :=
  t.type.text ++ t.multiplicity.text

/-- Exactly one date. -/
def date : Typing := ⟨.date, .one⟩

end Typing

end Bitemporal
