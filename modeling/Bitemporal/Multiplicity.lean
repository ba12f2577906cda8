/-
Bitemporal/Multiplicity.lean

How many values a property, a parameter or an expression has: a lower bound,
and an upper bound unless there is none.
-/

namespace Bitemporal

/-- A range of counts; without an upper bound it is unbounded. -/
structure Multiplicity where
  lower : UInt32
  upper : Option UInt32
  deriving DecidableEq

namespace Multiplicity

/-- Exactly one. -/
def one : Multiplicity := ⟨1, some 1⟩

/-- At most one. -/
def zeroOne : Multiplicity := ⟨0, some 1⟩

/-- Any number. -/
def zeroMany : Multiplicity := ⟨0, none⟩

/-- At least one. -/
def oneMany : Multiplicity := ⟨1, none⟩

/-- The same lower bound, and no upper bound. -/
def widened (m : Multiplicity) : Multiplicity :=
  { m with upper := none }

/-- Whether there is no upper bound. -/
def isUnbounded (m : Multiplicity) : Bool :=
  m.upper.isNone

/-- The text of a multiplicity: one number where both bounds agree, a star for no upper bound, and
the star alone if the lower bound is zero too. -/
def text (m : Multiplicity) : String :=
  match m.upper with
  | none => if m.lower = 0 then "[*]" else "[" ++ m.lower.toNat.repr ++ "..*]"
  | some u =>
    if m.lower = u then "[" ++ u.toNat.repr ++ "]"
    else "[" ++ m.lower.toNat.repr ++ ".." ++ u.toNat.repr ++ "]"

@[simp] theorem widened_lower (m : Multiplicity) : m.widened.lower = m.lower := rfl

@[simp] theorem widened_upper (m : Multiplicity) : m.widened.upper = none := rfl

@[simp] theorem isUnbounded_widened (m : Multiplicity) : m.widened.isUnbounded = true := rfl

@[simp] theorem widened_widened (m : Multiplicity) : m.widened.widened = m.widened := rfl

end Multiplicity

end Bitemporal
