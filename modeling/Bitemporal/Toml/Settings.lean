/-
Bitemporal/Toml/Settings.lean

Settings files.

A settings file is a TOML text whose table `compiler` holds the settings; what
stands beside it is not looked at.  As a record, the table may also be written
as an array of the settings' values.
-/
import Bitemporal.Toml.Reader
import Bitemporal.Settings

namespace Bitemporal

namespace RangeFilter

/-- A range filter from its name, or from a table of one entry of that name with nothing in it. -/
def ofToml? : Toml → Option RangeFilter
  | .string name => ofName? name
  | .table _ [(name, .table _ [])] => ofName? name
  | .table _ [(name, .array [])] => ofName? name
  | _ => none

end RangeFilter

namespace Settings

/-- One setting, or its default. -/
def settingOfToml? {α : Type} (default : α) (value? : Toml → Option α) : Option Toml → Option α
  | none => some default
  | some v => value? v

/-- Settings from the values of both. -/
def ofTomlValues? (rangeFilter strictShapes : Option Toml) : Option Settings := do
  return {
    rangeFilter := ← settingOfToml? .startEquality RangeFilter.ofToml? rangeFilter
    strictShapes := ← settingOfToml? false
      (fun v => match v with
        | .boolean b => some b
        | _ => none) strictShapes }

/-- Settings from the value of `compiler`: a table that holds nothing else, or an array. -/
def ofToml? : Toml → Option Settings
  | .table _ entries =>
    if entries.all fun e => e.1 == "range_filter" || e.1 == "strict_shapes" then
      ofTomlValues? (entries.lookup "range_filter") (entries.lookup "strict_shapes")
    else none
  | .array items => ofTomlValues? items[0]? items[1]?
  | .tables items => ofTomlValues? items[0]? items[1]?
  | _ => none

/-- The settings that a settings file holds. -/
def parse? (text : String) : Option Settings := do
  let entries ← Toml.parse? text
  match entries.lookup "compiler" with
  | none => return {}
  | some v => ofToml? v

end Settings

end Bitemporal
