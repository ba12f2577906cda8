/-
Bitemporal/Member.lean

Properties and qualified properties.

A property is a typed edge from its owner to a type.  A qualified property is
computed: it has a signature, whose first parameter is the receiver, and a
body of expressions, the last of which is its value.  Both belong to a class
or to an association.

A list of members grows by what is not yet in it: a property is known by its
name, a qualified property by its name and its number of parameters.
-/
import Bitemporal.Annotation
import Bitemporal.Expression

namespace Bitemporal

/-- The element that declares a member. -/
inductive Owner
  | ofClass (path : String)
  | ofAssociation (path : String)
  deriving DecidableEq

namespace Owner

/-- The path of the owner. -/
def path : Owner → String
  | ofClass p => p
  | ofAssociation p => p

/-- Whether the owner is the association of this path. -/
def isAssociation (o : Owner) (path : String) : Bool :=
  o == .ofAssociation path

end Owner

section Growing

variable {α : Type} (alike : α → α → Bool)

/-- Puts an element at the end of a list, unless one like it is in the list. -/
def addNew (l : List α) (x : α) : List α :=
  if l.any (alike · x) then l else l ++ [x]

/-- Puts an element at the end of a list and counts it, unless one like it is in the list. -/
def addNewCounted (grown : List α × Nat) (x : α) : List α × Nat :=
  let (l, added) := grown
  if l.any (alike · x) then (l, added) else (l ++ [x], added + 1)

end Growing

/-- A property. -/
structure Property extends Typing, Annotations where
  name : String
  owner : Owner
  span : Option Span := none
  deriving DecidableEq

namespace Property

/-- Whether two properties have the same name. -/
def sameName (p q : Property) : Bool :=
  p.name == q.name

/-- Puts a property at the end of a list, unless one of its name is in it. -/
def addNamed : List Property → Property → List Property :=
  addNew sameName

end Property

/-- A qualified property. -/
structure QualifiedProperty extends Typing, Annotations where
  name : String
  owner : Owner
  signature : Signature
  body : List Expression
  deriving DecidableEq

namespace QualifiedProperty

/-- The number of parameters, the receiver among them. -/
def arity (q : QualifiedProperty) : Nat :=
  q.signature.parameters.length

/-- The parameters after the receiver. -/
def explicitParameters (q : QualifiedProperty) : List Variable :=
  q.signature.parameters.tail

/-- Whether two qualified properties have the same name and the same number of parameters. -/
def sameKey (q r : QualifiedProperty) : Bool :=
  q.name == r.name && q.arity == r.arity

end QualifiedProperty

/-- The members an element declares.  `replaced` records the properties that edge points have
replaced. -/
structure Members where
  properties : List Property := []
  qualified : List QualifiedProperty := []
  replaced : List Property := []
  deriving DecidableEq

end Bitemporal
