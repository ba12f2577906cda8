/-
Bitemporal/Command/Arguments.lean

The arguments of the two programs.

Each takes one model document and options.  An option has a value or is a
flag; a value follows as the next argument or behind an equals sign.  No
option may be given twice.  An argument that begins with a hyphen is an option,
except for a lone hyphen, for all that follows a double hyphen, and for a value
behind an equals sign.
-/
import Bitemporal.Text
import Bitemporal.Settings

namespace Bitemporal

/-- The two programs: one compiles a model, the other compiles and then checks it. -/
inductive Program
  | compile | conformance
  deriving DecidableEq

/-- The forms in which a compiled model is written. -/
inductive OutputFormat
  | listing | json
  deriving DecidableEq

/-- The output format of this name. -/
def OutputFormat.ofName? (name : String) : Option OutputFormat :=
  match name with
  | "pure" => some listing
  | "json" => some json
  | _ => none

/-- What a program was asked to do. -/
structure Arguments where
  input : String
  config : Option String := none
  rangeFilter : Option RangeFilter := none
  strictShapes : Bool := false
  format : OutputFormat := .listing
  output : Option String := none
  deriving DecidableEq

/-- Arguments told apart by their form, in the order given. -/
structure RawArguments where
  positional : List String := []
  values : List (String × String) := []
  flags : List String := []

namespace RawArguments

/-- The options that have a value. -/
def valued : Program → List String
  | .compile => ["config", "range-filter", "format", "out"]
  | .conformance => ["config", "range-filter"]

/-- The name of an option, and the value behind its equals sign if it has one. -/
def option? (argument : String) : Option (String × Option String) :=
  match argument.toList with
  | '-' :: '-' :: cs =>
    match cs.span (· != '=') with
    | (name, _ :: value) => some (String.ofList name, some (String.ofList value))
    | (name, []) => some (String.ofList name, none)
  | _ => none

/-- Whether an argument is read as an option. -/
def isOption (argument : String) : Bool :=
  match argument.toList with
  | '-' :: _ :: _ => true
  | _ => false

/-- Tells arguments apart; `none` for an option that the program does not have, or that lacks its
value or has one too many. -/
def ofList? (program : Program) : List String → Option RawArguments
  | [] => some {}
  | "--" :: rest => some { positional := rest }
  | argument :: rest =>
    match option? argument with
    | some (name, some value) =>
      if (valued program).contains name then
        (ofList? program rest).map fun r => { r with values := (name, value) :: r.values }
      else none
    | some (name, none) =>
      if name = "strict-shapes" then
        (ofList? program rest).map fun r => { r with flags := name :: r.flags }
      else if (valued program).contains name then
        match rest with
        | [] => none
        | value :: rest =>
          if isOption value then none
          else (ofList? program rest).map fun r => { r with values := (name, value) :: r.values }
      else none
    | none =>
      if isOption argument then none
      else (ofList? program rest).map fun r => { r with positional := argument :: r.positional }

/-- The value of an option, `some none` if it is not given; it has to be one that `read?`
accepts. -/
def value? {α : Type} (r : RawArguments) (name : String) (read? : String → Option α) :
    Option (Option α) :=
  match r.values.filter fun v => v.1 == name with
  | [] => some none
  | [(_, value)] => (read? value).map some
  | _ => none

end RawArguments

namespace Arguments

/-- A path, which is not empty. -/
def path? (s : String) : Option String :=
  if s.isEmpty then none else some s

/-- Reads the arguments of a program. -/
def ofList? (program : Program) (arguments : List String) : Option Arguments := do
  let raw ← RawArguments.ofList? program arguments
  let [input] := raw.positional | none
  if 1 < raw.flags.length then none
  return {
    input := ← path? input
    config := ← raw.value? "config" path?
    rangeFilter := ← raw.value? "range-filter" RangeFilter.ofName?
    strictShapes := !raw.flags.isEmpty
    format := (← raw.value? "format" OutputFormat.ofName?).getD .listing
    output := ← raw.value? "out" path? }

end Arguments

end Bitemporal
