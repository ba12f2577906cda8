/-
Bitemporal/Dating.lean

Dating expressions: supplying the dates that calls leave out.

A navigation to a property with a temporal target needs a date for each axis
of the target.  What is not written is taken from where the call stands:

* a receiver that is itself a dated call binds the dates of its own target;
* otherwise the dates in force apply.

Which axes may be filled depends on the shapes at both ends of the navigation.
A source that is versioned along an axis fixes the date on it; a target that
needs a date on an axis its source lacks must be given one.  With one argument
for a bitemporal target, the argument is the business date if the source is
bitemporal, and else the date on the axis that the source lacks.

An expression is dated from the inside out and from left to right, and the
dates of each call are put in force for what follows.  The dates in force
outlive a failure, so that a caller can show them.
-/
import Bitemporal.Ambient
import Bitemporal.Generated

namespace Bitemporal

/-- How much of its target's dates a call supplies. -/
inductive Supply
  /-- None. -/
  | nothing
  /-- One of two. -/
  | single
  /-- All, or more than that. -/
  | everything
  deriving DecidableEq

/-- What the given number of explicit arguments supplies to a target of the given shape. -/
def Supply.of (explicit : Nat) (target : Shape) : Supply :=
  if target.axes.length ≤ explicit then .everything
  else if explicit = 0 then .nothing
  else .single

namespace Class

/-- The generated accessor that a navigation of this name asks for its dates: the first that is no
range accessor. -/
def dateAccessor? (c : Class) (property : String) : Option QualifiedProperty :=
  c.allQualified.find? fun q => q.name == property && q.isGenerated && !q.isRange

/-- Whether the class exposes a generated accessor of this name and arity. -/
def hasAccessor (c : Class) (property : String) (arity : Nat) : Bool :=
  c.allQualified.any fun q => q.name == property && q.arity == arity && q.isGenerated

end Class

namespace Navigation

/-- The dates that a receiver binds, by axis: those of a call of a qualified property that is a
generated accessor by name and is given exactly the dates of its target. -/
def boundDates (m : Model) (receiver : Navigation) : List (Axis × Expression) :=
  match receiver.access with
  | .property => []
  | .qualified _ =>
    match (m.class? receiver.owner).bind (·.dateAccessor? receiver.property) |>.bind
      fun q => m.shapeOf? q.type with
    | none => []
    | some shape =>
      if receiver.explicit.length = shape.axes.length then shape.axes.zip receiver.explicit else []

/-- The dates that the receiver of a navigation binds. -/
def receiverDates (m : Model) (n : Navigation) : List (Axis × Expression) :=
  match n.receiver?.bind Expression.navigation? with
  | some receiver => receiver.boundDates m
  | none => []

end Navigation

/-- The date on an axis, as the receiver binds it or else as it is in force. -/
def dateOn (bound : List (Axis × Expression)) (ambient : Ambient) (axis : Axis) :
    Option Expression :=
  bound.lookup axis <|> ambient.date? axis

/-- The dates for the axes of `target`, in the order of parameters, as far as they are determined,
for a call that does not supply all of them. -/
def fillSlots (bound : List (Axis × Expression)) (ambient : Ambient) (source : Option Shape)
    (target : Shape) (explicit : List Expression) : List (Option Expression) :=
  let dateOn := dateOn bound ambient
  match target, source, explicit with
  | .bitemporal, some .bitemporal, [date] => [dateOn .processing, some date]
  | .bitemporal, some .processing, [date] => [dateOn .processing, some date]
  | .bitemporal, some .business, [date] => [some date, dateOn .business]
  | .bitemporal, some .bitemporal, [] => [dateOn .processing, dateOn .business]
  | .bitemporal, _, _ => [none, none]
  | target, source, [] =>
    if source = some .bitemporal ∨ source = some target then [dateOn target.primary] else [none]
  | _, _, _ => [none]

/-- The dates in force when the slots of a call are filled.  A single date for a bitemporal target
of a bitemporal source is in force as the business date even if the call then fails. -/
def announce (ambient : Ambient) (source : Option Shape) (target : Shape)
    (explicit : List Expression) : Ambient :=
  match target, source, explicit with
  | .bitemporal, some .bitemporal, [date] => ambient.set .business date
  | _, _, _ => ambient

/-- Computations that follow the dates in force. -/
abbrev Dating := ExceptT Fault (StateM Ambient)

namespace Navigation

/-- Points a navigation at the generated accessor that takes exactly its arguments. -/
def retarget (n : Navigation) (owner : Class) : Except Fault Navigation :=
  if owner.hasAccessor n.property n.arguments.length then
    .ok { n with access := .qualified (UInt64.ofNat n.arguments.length) }
  else .error (.accessorNotFound n.property owner.path n.arguments.length n.span)

/-- Puts dates behind the receiver and keeps the arguments as they were written. -/
def supply (n : Navigation) (dates : List Expression) : Navigation :=
  { n with
    arguments := n.arguments.take 1 ++ dates
    written := n.written <|> some n.arguments }

/-- Dates a navigation whose arguments are dated already. -/
def settle (m : Model) (n : Navigation) : Dating Navigation := do
  let some owner := m.class? n.owner | return n
  let some accessor := owner.dateAccessor? n.property | return n
  let some target := m.shapeOf? accessor.type | return n
  match Supply.of n.explicit.length target with
  | .everything =>
    modify fun a => a.recordSupplied target n.explicit
    if n.explicit.length = target.axes.length then n.retarget owner else return n
  | _ =>
    modify fun a => announce a owner.shape? target n.explicit
    match (fillSlots (n.receiverDates m) (← get) owner.shape? target n.explicit).mapM id with
    | none => throw (.missingDate n.property target.axes n.span)
    | some dates =>
      modify fun a => a.enter target dates
      (n.supply dates).retarget owner

end Navigation

namespace Expression

mutual

/-- Dates every navigation of an expression. -/
def dated (m : Model) : Expression → Dating Expression
  | reference n t => return reference n t
  | literal v t => return literal v t
  | equal f l r t => return equal f (← dated m l) (← dated m r) t
  | compare f o l r t => return compare f o (← dated m l) (← dated m r) t
  | conjunction f os t => return conjunction f (← datedAll m os) t
  | filter f s b e t => do
    let s ← dated m s
    let e ← dated m e
    return filter f s b e t
  | navigate site as w t => do
    let as ← datedAll m as
    let n ← Navigation.settle m { toSite := site, arguments := as, written := w }
    return n.toExpression t

/-- Dates the expressions of a list in turn. -/
def datedAll (m : Model) : List Expression → Dating (List Expression)
  | [] => return []
  | e :: es => do
    let e ← dated m e
    let es ← datedAll m es
    return e :: es

end

end Expression

/-- Dates a navigation and all of its arguments. -/
def Navigation.dated (m : Model) (n : Navigation) : Dating Navigation := do
  let arguments ← Expression.datedAll m n.arguments
  Navigation.settle m { n with arguments }

/-- Runs a computation from the dates in force, and gives those in force after it. -/
def Dating.from {α : Type} (x : Dating α) (ambient : Ambient) : Except Fault α × Ambient :=
  x.run.run ambient

end Bitemporal
