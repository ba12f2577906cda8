/-
Bitemporal/Text.lean

Words and paths.

An element is named by a path, `model::trade::Trade`; its *local name* is what
stands after the last `::`.  An abbreviated stereotype is written
`profile@value`.  Both are read by cutting a text at the last occurrence of a
separator, so that one function, `splitLast?`, serves them:

* `splitLast? sep s = some (a, b)` exactly when `s = a ++ sep ++ b` and no
  later cut exists;
* a text without the separator is not cut.

The last occurrence is the rightmost one, also where two overlap: `a:::b` is
cut before its last two colons.
-/

namespace Bitemporal

namespace Text

/-- What follows `sep` at the head of `s`, if `s` begins with `sep`. -/
def dropHead? : List Char → List Char → Option (List Char)
  | [], s => some s
  | _ :: _, [] => none
  | c :: sep, d :: s => if c = d then dropHead? sep s else none

/-- The two parts around the last occurrence of `sep`. -/
def splitLast? (sep : List Char) : List Char → Option (List Char × List Char)
  | [] => none
  | c :: s =>
    match splitLast? sep s with
    | some (a, b) => some (c :: a, b)
    | none => (dropHead? sep (c :: s)).map fun b => ([], b)

/-- The text after the last `::` of a path, or all of it. -/
def localName (path : String) : String :=
  match splitLast? [':', ':'] path.toList with
  | some (_, b) => String.ofList b
  | none => path

/-- `s` without `ending`, if it ends so. -/
def dropEnding? (ending s : String) : Option String :=
  (dropHead? ending.toList.reverse s.toList.reverse).map fun r => String.ofList r.reverse

/-- The parts of a text in turn, with `sep` between them. -/
def join (sep : String) : List String → String
  | [] => ""
  | [s] => s
  | s :: rest => s ++ sep ++ join sep rest

/-- The lines of a text: a line ends at a line feed, which is dropped together with a carriage
return before it.  The text after the last line feed is a line unless it is empty. -/
def lines (s : String) : List String :=
  go [] s.toList
where
  /-- Collects one line in reverse. -/
  go (line : List Char) : List Char → List String
    | [] => if line.isEmpty then [] else [String.ofList line.reverse]
    | '\n' :: rest =>
      let bare := match line with
        | '\r' :: l => l
        | l => l
      String.ofList bare.reverse :: go [] rest
    | c :: rest => go (c :: line) rest

end Text

/-! ### Sets of names -/

/-- Adds a name to a strictly ascending list of names; names compare by code points. -/
def insertName (name : String) : List String → List String
  | [] => [name]
  | n :: rest =>
    if name < n then name :: n :: rest
    else if name = n then n :: rest
    else n :: insertName name rest

/-- The names of a list, each once and in ascending order. -/
def nameSet (names : List String) : List String :=
  names.foldl (fun set name => insertName name set) []

end Bitemporal
