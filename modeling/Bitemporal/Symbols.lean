/-
Bitemporal/Symbols.lean

The symbols that generated members are made of.

Built-in types, multiplicities, functions and stereotypes are not wired in:
a compilation asks a symbol table for each.  `Symbols.builtin` knows all of
them; a table may know fewer, and then the first request it cannot serve stops
the compilation.
-/
import Bitemporal.Fault
import Bitemporal.Naming

namespace Bitemporal

/-- A table of symbols, by name; a stereotype is named by its profile and its value. -/
structure Symbols where
  type? : String → Option TypeRef
  multiplicity? : String → Option Multiplicity
  function? : String → Option FunctionRef
  stereotype? : String → String → Option Stereotype

namespace Builtin

/-- Equality. -/
def equal : String := "meta::pure::functions::boolean::eq_Any_1__Any_1__Boolean_1_"

/-- Conjunction. -/
def conjunction : String := "meta::pure::functions::boolean::and_Boolean_1__Boolean_1__Boolean_1_"

/-- The elements of a collection that satisfy a predicate. -/
def filter : String := "meta::pure::functions::collection::filter_T_MANY__Function_1__T_MANY_"

/-- The strict order of dates. -/
def lessThan : String := "meta::pure::functions::boolean::lessThan_Date_1__Date_1__Boolean_1_"

/-- The order of dates. -/
def lessThanEqual : String :=
  "meta::pure::functions::boolean::lessThanEqual_Date_1__Date_1__Boolean_1_"

/-- The built-in functions. -/
def functions : List FunctionRef :=
  [⟨equal, "eq"⟩, ⟨conjunction, "and"⟩, ⟨filter, "filter"⟩, ⟨lessThan, "lessThan"⟩,
   ⟨lessThanEqual, "lessThanEqual"⟩]

/-- The built-in multiplicities. -/
def multiplicities : List (String × Multiplicity) :=
  [("one", .one), ("zeroone", .zeroOne), ("zeromany", .zeroMany), ("onemany", .oneMany)]

/-- The built-in stereotypes. -/
def stereotypes : List (String × String) :=
  Shape.all.map (fun s => (temporalProfile, s.name)) ++
    [(Naming.milestoningProfile, Naming.generatedTag),
     (Naming.milestoningProfile, Naming.generatedDateTag)]

end Builtin

namespace Symbols

/-- The table of all built-in symbols. -/
def builtin : Symbols where
  type? name := (Primitive.ofName? name).map .primitive
  multiplicity? name := Builtin.multiplicities.lookup name
  function? path := Builtin.functions.find? fun f => f.path == path
  stereotype? profile value :=
    if Builtin.stereotypes.contains (profile, value) then some (.resolved profile value) else none

/-- The name of a stereotype in a request. -/
def stereotypeName (profile value : String) : String :=
  profile ++ "." ++ value

/-- A table without the symbols that `hidden` names. -/
def without (s : Symbols) (hidden : List (SymbolKind × String)) : Symbols where
  type? name := if hidden.contains (.type, name) then none else s.type? name
  multiplicity? name := if hidden.contains (.multiplicity, name) then none else s.multiplicity? name
  function? path := if hidden.contains (.function, path) then none else s.function? path
  stereotype? profile value :=
    if hidden.contains (.stereotype, stereotypeName profile value) then none
    else s.stereotype? profile value

/-- What a table answers to a request, or the fault that it does not know the symbol. -/
def answer {α : Type} (kind : SymbolKind) (name : String) : Option α → Except Fault α
  | some a => .ok a
  | none => .error (.unknownSymbol kind name)

/-- The type of this name. -/
def type (s : Symbols) (name : String) : Except Fault TypeRef :=
  answer .type name (s.type? name)

/-- The multiplicity of this name. -/
def multiplicity (s : Symbols) (name : String) : Except Fault Multiplicity :=
  answer .multiplicity name (s.multiplicity? name)

/-- The function of this full descriptor. -/
def function (s : Symbols) (path : String) : Except Fault FunctionRef :=
  answer .function path (s.function? path)

/-- The stereotype of this profile and value. -/
def stereotype (s : Symbols) (profile value : String) : Except Fault Stereotype :=
  answer .stereotype (stereotypeName profile value) (s.stereotype? profile value)

/-- The type of dates. -/
def dateType (s : Symbols) : Except Fault TypeRef :=
  s.type "Date"

/-- Exactly one. -/
def one (s : Symbols) : Except Fault Multiplicity :=
  s.multiplicity "one"

end Symbols

end Bitemporal
