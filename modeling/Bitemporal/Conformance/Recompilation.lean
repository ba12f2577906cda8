/-
Bitemporal/Conformance/Recompilation.lean

Checking that a compiled model is left as it is when compiled again.
-/
import Bitemporal.Conformance.Verdict
import Bitemporal.Compilation

namespace Bitemporal

namespace RecompilationCheck

/-- The name of this check. -/
def name : String := "milestoning/idempotence"

/-- A line about a count, unless it is zero. -/
def counted (what : String) (count : Nat) : List String :=
  if count = 0 then [] else [what ++ ": " ++ count.repr]

/-- The paths of the elements that differ from their counterparts. -/
def changed {α : Type} [DecidableEq α] [HasPath α] (before after : PathTable α) : List String :=
  ((before.entries.zip after.entries).filter fun (a, b) => a != b).map fun (a, _) =>
    HasPath.path a ++ " changed on recompilation"

/-- What another compilation has changed. -/
def changes (report : Report) (before after : Model) : List String :=
  counted "date properties synthesized again" report.synthesized ++
    counted "properties milestoned again" report.milestoned ++
    counted "qualified property bodies resolved again" report.dated ++
    changed before.classes after.classes ++ changed before.associations after.associations

/-- The verdict on compiling a model once more. -/
def verdict (m : Model) (settings : Settings) : Verdict :=
  match (Model.compileInPlace .builtin settings).on m with
  | (.error fault, _) => [Finding.failure name ("Recompilation failed: " ++ fault.message) []]
  | (.ok report, after) =>
    [Finding.ofViolations name "Recompiling adds nothing" "Recompilation changed the model"
      (changes report m after)]

end RecompilationCheck

end Bitemporal
