/-
Bitemporal/Toml/Reader.lean

Reading TOML.

A text is a sequence of lines: key and value, header, or nothing, each with a
comment behind it if need be.  A value may run over several lines if it is an
array or a long text.  Arrays may end in a comma, tables in braces may not.

Values are nested less than `nestingLimit` deep, and a dotted key has fewer
parts than that.
-/
import Bitemporal.Toml.Scalar

namespace Bitemporal

namespace Toml

/-- What the nesting of values and the number of a key's parts stay below. -/
def nestingLimit : Nat := 80

namespace Reader

/-- Whether a character may stand in a bare key. -/
def isKeyChar (c : Char) : Bool :=
  c.isAlphanum || c = '-' || c = '_'

/-- Reads one part of a key. -/
def keyPart? (cs : Rest) : Option (String × Rest) :=
  match shortText? cs with
  | some r => some r
  | none =>
    match cs.span isKeyChar with
    | ([], _) => none
    | (key, rest) => some (String.ofList key, rest)

/-- Reads the parts of a dotted key, with blanks around each. -/
def keyParts? : Nat → Rest → Option (List String × Rest)
  | 0, _ => none
  | fuel + 1, cs => do
    let (part, cs) ← keyPart? (blanks cs)
    match blanks cs with
    | '.' :: cs => do
      let (parts, cs) ← keyParts? fuel cs
      return (part :: parts, cs)
    | cs => return ([part], cs)

/-- Reads a dotted key: all parts but the last, and the last. -/
def key? (cs : Rest) : Option (List String × String × Rest) := do
  let (parts, cs) ← keyParts? (nestingLimit - 1) cs
  let last ← parts.getLast?
  return (parts.dropLast, last, cs)

mutual

/-- Reads a value in which `depth` more arrays and tables may be nested. -/
def value : Nat → Nat → Rest → Option (Toml × Rest)
  | 0, _, _ => none
  | fuel + 1, depth, cs =>
    match cs, depth with
    | '[' :: _, 0 => none
    | '\x7b' :: _, 0 => none
    | '[' :: cs, depth + 1 => items fuel depth [] cs
    | '\x7b' :: cs, depth + 1 =>
      match blanks cs with
      | '\x7d' :: cs => some (table .braces [], cs)
      | cs => entries fuel depth [] cs
    | '"' :: _, _ => (text? cs).map fun (s, rest) => (string s, rest)
    | '\'' :: _, _ => (text? cs).map fun (s, rest) => (string s, rest)
    | cs, _ => scalar? cs

/-- Reads items up to the end of an array, behind those in `done`, which are in reverse. -/
def items : Nat → Nat → List Toml → Rest → Option (Toml × Rest)
  | 0, _, _, _ => none
  | fuel + 1, depth, done, cs =>
    match gap (cs.length + 1) cs with
    | ']' :: cs => some (array done.reverse, cs)
    | cs =>
      match value fuel depth cs with
      | none => none
      | some (v, cs) =>
        match gap (cs.length + 1) cs with
        | ',' :: cs => items fuel depth (v :: done) cs
        | ']' :: cs => some (array (v :: done).reverse, cs)
        | _ => none

/-- Reads keys and values up to the end of a table in braces, and adds them to `done`. -/
def entries : Nat → Nat → Entries → Rest → Option (Toml × Rest)
  | 0, _, _, _ => none
  | fuel + 1, depth, done, cs =>
    match key? cs with
    | none => none
    | some (path, key, cs) =>
      match cs with
      | '=' :: cs =>
        match value fuel depth (blanks cs) with
        | none => none
        | some (v, cs) =>
          match addDotted path key v done, blanks cs with
          | some done, ',' :: cs => entries fuel depth done cs
          | some done, '\x7d' :: cs => some (table .braces done, cs)
          | _, _ => none
      | _ => none

end

/-- What has been read of a text: its entries, and the header in force. -/
structure Progress where
  entries : Entries := []
  header : List String := []

/-- Reads a header behind its first bracket. -/
def header? (p : Progress) : Rest → Option (Progress × Rest)
  | '[' :: cs => do
    let (path, key, cs) ← key? cs
    match cs with
    | ']' :: ']' :: cs => do
      let entries ← openNext path key p.entries
      return ({ entries, header := path ++ [key] }, cs)
    | _ => none
  | cs => do
    let (path, key, cs) ← key? cs
    match cs with
    | ']' :: cs => do
      let entries ← openTable path key p.entries
      return ({ entries, header := path ++ [key] }, cs)
    | _ => none

/-- Reads a key and its value. -/
def keyValue? (p : Progress) (cs : Rest) : Option (Progress × Rest) := do
  let (path, key, cs) ← key? cs
  match cs with
  | '=' :: cs => do
    let (v, cs) ← value (4 * cs.length + 4) (nestingLimit - 1) (blanks cs)
    let entries ← alterAt (addDotted path key v) p.header p.entries
    return ({ p with entries }, cs)
  | _ => none

/-- Reads line after line. -/
def lines : Nat → Progress → Rest → Option Entries
  | 0, _, _ => none
  | fuel + 1, p, cs =>
    match blanks cs with
    | [] => some p.entries
    | '[' :: cs => (header? p cs).bind fun (p, cs) => (lineEnd? cs).bind fun cs => lines fuel p cs
    | c :: cs =>
      if c = '#' || c = '\n' || c = '\r' then (lineEnd? (c :: cs)).bind fun cs => lines fuel p cs
      else (keyValue? p (c :: cs)).bind fun (p, cs) => (lineEnd? cs).bind fun cs => lines fuel p cs

end Reader

/-- The table that a text writes.  A byte order mark before it is passed over. -/
def parse? (s : String) : Option Entries :=
  let cs := match s.toList with
    | '\uFEFF' :: cs => cs
    | cs => cs
  Reader.lines (cs.length + 1) {} cs

end Toml

end Bitemporal
