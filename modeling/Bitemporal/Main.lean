/-
Bitemporal/Main.lean

The command line: the name of a program, and its arguments.
-/
import Bitemporal.Command

namespace Bitemporal

/-- Access to the files of the system. -/
def systemFiles : FileAccess IO where
  read path := do
    try return some (← IO.FS.readFile path)
    catch _ => return none
  write path content := do
    try
      IO.FS.writeFile path content
      return true
    catch _ => return false

/-- Runs the named program and passes on what it wrote. -/
def Program.execute (program : Program) (arguments : List String) : IO UInt32 := do
  let outcome ← program.run systemFiles arguments
  IO.print outcome.out
  IO.eprint outcome.err
  return outcome.code.toUInt32

end Bitemporal

open Bitemporal in
/-- The entry point. -/
def main (arguments : List String) : IO UInt32 := do
  match arguments with
  | "compile" :: rest => Program.execute .compile rest
  | "conformance" :: rest => Program.execute .conformance rest
  | _ => do
    IO.eprintln "usage: bitemporal (compile | conformance) <document> [options]"
    return 2
