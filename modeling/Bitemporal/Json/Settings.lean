/-
Bitemporal/Json/Settings.lean

The JSON form of settings.

A setting that is missing has its default.  Unlike other records, settings
admit no further fields, so that a misspelt one is noticed.
-/
import Bitemporal.Json
import Bitemporal.Settings

namespace Bitemporal

open Json

namespace RangeFilter

def toJson (f : RangeFilter) : Json :=
  string f.name

def ofJson? (j : Json) : Option RangeFilter :=
  j.bare?.bind ofName?

end RangeFilter

namespace Settings

/-- The names of the settings. -/
def fieldNames : List String :=
  ["range_filter", "strict_shapes"]

def toJson (s : Settings) : Json :=
  object [("range_filter", s.rangeFilter.toJson), ("strict_shapes", bool s.strictShapes)]

def ofJson? (j : Json) : Option Settings := do
  if let object fields := j then
    if fields.any fun f => !fieldNames.contains f.1 then none
  let [rangeFilter, strictShapes] ← j.fields? fieldNames | none
  return {
    rangeFilter := ← defaulted .startEquality RangeFilter.ofJson? rangeFilter
    strictShapes := ← defaulted false bool? strictShapes }

end Settings

end Bitemporal
