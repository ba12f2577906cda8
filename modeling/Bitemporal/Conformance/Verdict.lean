/-
Bitemporal/Conformance/Verdict.lean

The outcome of checks on a compiled model.

A check either passes, or warns, or fails, with details of what it found.  The
verdict on a model is the list of its checks' findings; it passes unless a
check fails.
-/
import Bitemporal.Text

namespace Bitemporal

/-- How a check turned out. -/
inductive Severity
  | pass | warning | failure
  deriving DecidableEq

/-- The label of a severity. -/
def Severity.label : Severity → String
  | pass => "PASS"
  | warning => "WARN"
  | failure => "FAIL"

/-- What one check found. -/
structure Finding where
  check : String
  message : String
  severity : Severity
  details : List String := []
  deriving DecidableEq

namespace Finding

/-- A finding that a check passes. -/
def pass (check message : String) : Finding :=
  { check, message, severity := .pass }

/-- A finding that a check fails. -/
def failure (check message : String) (details : List String) : Finding :=
  { check, message, severity := .failure, details }

/-- A finding that is worth a warning. -/
def warning (check message : String) (details : List String) : Finding :=
  { check, message, severity := .warning, details }

/-- A pass with the message `passed` if there are no violations, and else a failure that lists
them. -/
def ofViolations (check passed failed : String) (violations : List String) : Finding :=
  if violations.isEmpty then pass check passed else failure check failed violations

/-- Whether the check failed. -/
def isFailure (f : Finding) : Bool :=
  f.severity == .failure

/-- The text of a finding, each detail on a line of its own. -/
def text (f : Finding) : String :=
  "[" ++ f.severity.label ++ "] " ++ f.check ++ ": " ++ f.message ++
    String.join (f.details.map fun d => "\n       - " ++ d)

@[simp] theorem isFailure_ofViolations (check passed failed : String) (violations : List String) :
    (ofViolations check passed failed violations).isFailure = !violations.isEmpty := by
  unfold ofViolations
  split <;> simp_all [isFailure, pass, failure]

end Finding

/-- The findings on a model, in the order of the checks. -/
abbrev Verdict := List Finding

namespace Verdict

/-- The findings that are failures. -/
def failures (v : Verdict) : List Finding :=
  v.filter Finding.isFailure

/-- The number of findings of a severity. -/
def count (v : Verdict) (s : Severity) : Nat :=
  v.countP fun f => f.severity == s

/-- Whether no check failed. -/
def passes (v : Verdict) : Bool :=
  v.failures.isEmpty

end Verdict

end Bitemporal
