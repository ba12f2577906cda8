/-
Bitemporal/Model.lean

Models and documents.

A model is a table of classes and a table of associations.  A document is the
same as two plain lists, in any order, the form in which models are stored.
Loading a document inserts its classes and then its associations one after
another; inserting an association exposes its entries on its member classes,
behind whatever their views hold already.
-/
import Bitemporal.Element
import Bitemporal.PathTable

namespace Bitemporal

instance : HasPath Class := ⟨Class.path⟩

instance : HasPath Association := ⟨Association.path⟩

/-- The classes and associations known to a compilation. -/
structure Model where
  classes : PathTable Class := {}
  associations : PathTable Association := {}
  deriving DecidableEq

/-- A stored model: its classes and associations as lists. -/
structure Document where
  classes : List Class := []
  associations : List Association := []
  deriving DecidableEq

namespace Model

/-- The class of this full path. -/
def class? (m : Model) (path : String) : Option Class :=
  m.classes.find? path

/-- The association of this full path. -/
def association? (m : Model) (path : String) : Option Association :=
  m.associations.find? path

/-- Adds a class, in place of one with the same path. -/
def addClass (m : Model) (c : Class) : Model :=
  { m with classes := m.classes.insert c }

/-- Applies `f` to the class of this path, if there is one. -/
def modifyClass (m : Model) (path : String) (f : Class → Class) : Model :=
  { m with classes := m.classes.modify path f }

/-- Applies `f` to the association of this path, if there is one. -/
def modifyAssociation (m : Model) (path : String) (f : Association → Association) : Model :=
  { m with associations := m.associations.modify path f }

/-- Puts each entry of a list on the class whose path `exposing` gives. -/
def exposeAll {α : Type} (m : Model) (exposing : α → Option String) (put : Class → α → Class)
    (entries : List α) : Model :=
  entries.foldl
    (fun m x => match exposing x with
      | some path => m.modifyClass path fun c => put c x
      | none => m) m

/-- Adds an association, in place of one with the same path, and exposes its entries on those of
its members that are in the model under the very path the ends are written with. -/
def addAssociation (m : Model) (a : Association) : Model :=
  let m := m.exposeAll (fun p => a.exposingType? p.type) Class.expose a.properties
  let m := m.exposeAll (fun q => a.exposingType? q.type) Class.exposeQualified a.qualified
  { m with associations := m.associations.insert a }

/-- The model that a document stores. -/
def ofDocument (d : Document) : Model :=
  d.associations.foldl addAssociation (d.classes.foldl addClass {})

/-- The document that stores a model, in the order of paths. -/
def toDocument (m : Model) : Document :=
  { classes := m.classes.entries, associations := m.associations.entries }

/-- The class a type reference denotes.  An abbreviated reference that is no full path denotes the
first class, in the order of paths, with the same local name. -/
def resolve? (m : Model) : TypeRef → Option Class
  | .primitive _ => none
  | .ofClass path => m.class? path
  | .abbreviated path =>
    m.class? path <|> m.classes.entries.find? fun c => c.name == Text.localName path

/-- The class that a member path of an association denotes; the path may be abbreviated. -/
def member? (m : Model) (path : String) : Option Class :=
  m.resolve? (.abbreviated path)

end Model

end Bitemporal
