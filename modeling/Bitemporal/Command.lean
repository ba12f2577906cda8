/-
Bitemporal/Command.lean

The two programs.

Each reads settings, if there is a settings file, then the model, and compiles
it; options given as arguments override the file.  `compile` writes the
compiled model, `conformance` checks it and writes the findings.

Arguments that make no sense end a program with code 2 before it reads a file;
everything else that goes wrong ends it with code 1.
-/
import Bitemporal.Command.Arguments
import Bitemporal.Command.Files
import Bitemporal.Conformance
import Bitemporal.Listing
import Bitemporal.Json.Document
import Bitemporal.Json.Printer
import Bitemporal.Toml.Settings

namespace Bitemporal

/-- How a program ended, and what it wrote. -/
structure Outcome where
  code : UInt8 := 0
  out : String := ""
  err : String := ""

namespace Program

variable {m : Type → Type} [Monad m]

/-- A step of a program; an error is what it reports before it ends. -/
abbrev Step (m : Type → Type) := ExceptT String m

/-- Fails with a report on a file. -/
def failed {α : Type} (what path : String) : Step m α :=
  throw ("Error: Failed to " ++ what ++ " " ++ path)

/-- Reads a file. -/
def readFile (files : FileAccess m) (path : String) : Step m String := do
  match ← files.read path with
  | some text => return text
  | none => failed "read" path

/-- The settings: those of the settings file, overridden by arguments. -/
def settings (files : FileAccess m) (a : Arguments) : Step m Settings := do
  let base ← match a.config with
    | none => pure {}
    | some path =>
      match Settings.parse? (← readFile files path) with
      | some s => pure s
      | none => failed "parse" path
  return {
    rangeFilter := a.rangeFilter.getD base.rangeFilter
    strictShapes := a.strictShapes || base.strictShapes }

/-- The cause of a failure, each of its lines indented. -/
def indentedCause (message : String) : String :=
  "    " ++ String.join (message.toList.map fun c => if c = '\n' then "\n    " else c.toString)

/-- The settings and the compiled model. -/
def compiled (files : FileAccess m) (a : Arguments) : Step m (Settings × Model) := do
  let settings ← settings files a
  let some model := Model.parse? (← readFile files a.input) | failed "load" a.input
  match (Model.compileInPlace .builtin settings).on model with
  | (.ok _, model) => return (settings, model)
  | (.error fault, _) =>
    failed "compile" (a.input ++ "\n\nCaused by:\n" ++ indentedCause fault.message ++ "\n")

/-- Compiles a model and writes it. -/
def runCompile (files : FileAccess m) (a : Arguments) : Step m Outcome := do
  let (_, model) ← compiled files a
  let text := match a.format with
    | .listing => model.listing
    | .json => model.toDocument.toJson.pretty
  match a.output with
  | none => return { out := text ++ "\n" }
  | some path =>
    if ← files.write path text then return { out := "  Written: " ++ path ++ "\n" }
    else failed "write" path

/-- The text of a verdict: heading, findings and counts. -/
def verdictText (v : Verdict) : String :=
  "Milestoning Conformance Report\n==============================\n\n" ++
    String.join (v.map fun f => f.text ++ "\n") ++
    "\nSummary: " ++ (v.count .pass).repr ++ " passed, " ++ (v.count .warning).repr ++
    " warnings, " ++ (v.count .failure).repr ++ " failed\n"

/-- Compiles a model and checks it. -/
def runConformance (files : FileAccess m) (a : Arguments) : Step m Outcome := do
  let (settings, model) ← compiled files a
  let verdict := model.verdict settings
  let text := verdictText verdict
  if verdict.passes then return { out := text ++ "Conformance PASSED.\n" }
  else return {
    code := 1
    out := text
    err := "Conformance FAILED: " ++ (verdict.count .failure).repr ++ " check(s) did not pass.\n" }

/-- Runs a program. -/
def run (program : Program) (files : FileAccess m) (arguments : List String) : m Outcome := do
  match Arguments.ofList? program arguments with
  | none => return { code := 2 }
  | some a =>
    let step := match program with
      | .compile => runCompile files a
      | .conformance => runConformance files a
    match ← step.run with
    | .ok outcome => return outcome
    | .error report => return { code := 1, err := report }

end Program

end Bitemporal
