/-
Bitemporal/Annotation.lean

Stereotypes and tagged values.

A stereotype belongs to a profile.  Like a class it may be referred to in full
or by an abbreviation `profile@value`; what stands after the last `@` is its
value, and an abbreviation without `@` is all value.  Stereotypes are
recognised by value alone, so that an unresolved one counts as well.
-/
import Bitemporal.Text

namespace Bitemporal

/-- A stereotype put on an element. -/
inductive Stereotype
  /-- A stereotype with the path of its profile. -/
  | resolved (profile value : String)
  /-- A stereotype as written, `profile@value`. -/
  | abbreviated (written : String)
  deriving DecidableEq

namespace Stereotype

/-- The value of a stereotype. -/
def value : Stereotype → String
  | resolved _ v => v
  | abbreviated w =>
    match Text.splitLast? ['@'] w.toList with
    | some (_, v) => String.ofList v
    | none => w

/-- The profile of a stereotype, if it is known. -/
def profile? : Stereotype → Option String
  | resolved p _ => some p
  | abbreviated w => (Text.splitLast? ['@'] w.toList).map fun (p, _) => String.ofList p

/-- The text of a stereotype: its profile's local name, if there is one, and its value. -/
def text (s : Stereotype) : String :=
  match s.profile? with
  | some p => Text.localName p ++ "." ++ s.value
  | none => s.value

end Stereotype

/-- A value given to a tag of a profile. -/
structure TaggedValue where
  profile : String
  tag : String
  value : String
  deriving DecidableEq

/-- What an element is annotated with, in the order of declaration. -/
structure Annotations where
  stereotypes : List Stereotype := []
  taggedValues : List TaggedValue := []
  deriving DecidableEq

namespace Annotations

/-- Whether some stereotype has this value. -/
def hasStereotype (a : Annotations) (value : String) : Bool :=
  a.stereotypes.any fun s => s.value == value

/-- The annotations with one more stereotype at the end. -/
def tagged (a : Annotations) (s : Stereotype) : Annotations :=
  { a with stereotypes := a.stereotypes ++ [s] }

@[simp] theorem hasStereotype_tagged (a : Annotations) (s : Stereotype) (v : String) :
    (a.tagged s).hasStereotype v = (a.hasStereotype v || s.value == v) := by
  simp [tagged, hasStereotype]

end Annotations

end Bitemporal
