/-
Bitemporal/Toml.lean

TOML values and the tables that a TOML text builds up.

A table remembers how it came to be, since that decides what may be added to
it later.  Of the tables that are there,

* one opened by its own header, or written in braces, is complete: a second
  header or a dotted key from outside cannot add to it;
* one that exists only because a header below it names it (`passed`) may still
  get its own header;
* one made by a dotted key (`dotted`) may get more entries by dotted keys.

Headers may lead through any table that is not written in braces, and through
the last table of an array of tables.  A dotted key may lead through that table
as well, but not end in it.
-/

namespace Bitemporal

/-- How a table came to be. -/
inductive TomlTable
  | header | passed | dotted | braces
  deriving DecidableEq

/-- A TOML value.  Floats, dates and times keep their text. -/
inductive Toml
  | string (text : String)
  | integer (value : Int)
  | boolean (value : Bool)
  | float (written : String)
  | moment (written : String)
  | array (items : List Toml)
  /-- An array of tables, made by headers in double brackets. -/
  | tables (items : List Toml)
  | table (made : TomlTable) (entries : List (String × Toml))

namespace Toml

/-- Entries of a table. -/
abbrev Entries := List (String × Toml)

/-- Replaces the value of a key, or puts the key last. -/
def put (key : String) (value : Toml) : Entries → Entries
  | [] => [(key, value)]
  | (k, v) :: rest => if k = key then (k, value) :: rest else (k, v) :: put key value rest

/-- Adds a key that is not there. -/
def addNew (key : String) (value : Toml) (entries : Entries) : Option Entries :=
  if (entries.lookup key).isSome then none else some (entries ++ [(key, value)])

/-- Changes the entries of the last table in an array of tables. -/
def alterLast (f : Entries → Option Entries) (items : List Toml) : Option (List Toml) :=
  match items.reverse with
  | table made inner :: before =>
    (f inner).map fun inner => (table made inner :: before).reverse
  | _ => none

/-- Adds a value under a dotted key, of which `path` is all but the last part. -/
def addDotted (path : List String) (key : String) (value : Toml) (entries : Entries) :
    Option Entries :=
  match path with
  | [] => addNew key value entries
  | p :: path =>
    match entries.lookup p with
    | none => (addDotted path key value []).map fun inner => put p (table .dotted inner) entries
    | some (table made inner) =>
      if made = .dotted ∨ (made = .passed ∧ !path.isEmpty) then
        (addDotted path key value inner).map fun inner => put p (table made inner) entries
      else none
    | some (tables items) =>
      if path.isEmpty then none
      else (alterLast (addDotted path key value) items).map fun items =>
        put p (tables items) entries
    | some _ => none

/-- Changes the entries that a header's path leads to. -/
def alterAt (f : Entries → Option Entries) : List String → Entries → Option Entries
  | [], entries => f entries
  | p :: path, entries =>
    match entries.lookup p with
    | none => (alterAt f path []).map fun inner => put p (table .passed inner) entries
    | some (table made inner) =>
      if made = .braces then none
      else (alterAt f path inner).map fun inner => put p (table made inner) entries
    | some (tables items) =>
      (alterLast (alterAt f path) items).map fun items => put p (tables items) entries
    | some _ => none

/-- Opens the table of a header in single brackets. -/
def openTable (path : List String) (key : String) : Entries → Option Entries :=
  alterAt (fun entries =>
    match entries.lookup key with
    | none => some (put key (table .header []) entries)
    | some (table .passed inner) => some (put key (table .header inner) entries)
    | some _ => none) path

/-- Opens the next table of a header in double brackets. -/
def openNext (path : List String) (key : String) : Entries → Option Entries :=
  alterAt (fun entries =>
    match entries.lookup key with
    | none => some (put key (tables [table .header []]) entries)
    | some (tables items) => some (put key (tables (items ++ [table .header []])) entries)
    | some _ => none) path

end Toml

end Bitemporal
