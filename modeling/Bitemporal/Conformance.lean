/-
Bitemporal/Conformance.lean

All checks on a compiled model.
-/
import Bitemporal.Conformance.Shapes
import Bitemporal.Conformance.Accessors
import Bitemporal.Conformance.Associations
import Bitemporal.Conformance.Recompilation

namespace Bitemporal

/-- The verdict of every check on a model. -/
def Model.verdict (m : Model) (settings : Settings) : Verdict :=
  ShapeCheck.verdict m ++ AccessorCheck.verdict m ++ AssociationCheck.verdict m ++
    RecompilationCheck.verdict m settings

end Bitemporal
