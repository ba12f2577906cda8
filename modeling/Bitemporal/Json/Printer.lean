/-
Bitemporal/Json/Printer.lean

Writing JSON text.

Two layouts: `compact` has no blanks, `pretty` puts each item and each field
on a line of its own, indented by two spaces a level, and leaves empty arrays
and objects in one piece.  In texts, quotation marks, backslashes and control
characters are escaped and all else stands for itself.
-/
import Bitemporal.Json

namespace Bitemporal

namespace Json

/-- One character as it stands in a JSON text. -/
def escapedChar (c : Char) : String :=
  match c with
  | '"' => "\\\""
  | '\\' => "\\\\"
  | '\n' => "\\n"
  | '\r' => "\\r"
  | '\t' => "\\t"
  | '\x08' => "\\b"
  | '\x0c' => "\\f"
  | c =>
    if c.toNat < 16 then "\\u000" ++ String.ofList (Nat.toDigits 16 c.toNat)
    else if c.toNat < 32 then "\\u00" ++ String.ofList (Nat.toDigits 16 c.toNat)
    else c.toString

/-- A text with its quotation marks. -/
def quotedText (s : String) : String :=
  s.foldl (fun out c => out ++ escapedChar c) "\"" ++ "\""

/-- The break between parts, at a depth of indentation; none in the compact layout. -/
def lineBreak (pretty : Bool) (depth : Nat) : String :=
  if pretty then "\n" ++ String.ofList (List.replicate (2 * depth) ' ') else ""

/-- Writes the name of a field. -/
def writeName (pretty : Bool) (depth : Nat) (out name : String) : String :=
  out ++ lineBreak pretty depth ++ quotedText name ++ (if pretty then ": " else ":")

mutual

/-- Writes a value behind a text. -/
def write (pretty : Bool) (depth : Nat) (out : String) : Json → String
  | null => out ++ "null"
  | bool true => out ++ "true"
  | bool false => out ++ "false"
  | integer n => out ++ n.repr
  | decimal w => out ++ w
  | string s => out ++ quotedText s
  | array [] => out ++ "[]"
  | array (j :: js) =>
    let out := writeItems pretty (depth + 1) (out ++ "[") (j :: js)
    out ++ lineBreak pretty depth ++ "]"
  | object [] => out ++ "\x7b\x7d"
  | object (f :: fs) =>
    let out := writeFields pretty (depth + 1) (out ++ "\x7b") (f :: fs)
    out ++ lineBreak pretty depth ++ "\x7d"
  | unread => out ++ "null"

/-- Writes items with commas between them. -/
def writeItems (pretty : Bool) (depth : Nat) (out : String) : List Json → String
  | [] => out
  | [j] => write pretty depth (out ++ lineBreak pretty depth) j
  | j :: js => writeItems pretty depth (write pretty depth (out ++ lineBreak pretty depth) j ++ ",") js

/-- Writes fields with commas between them. -/
def writeFields (pretty : Bool) (depth : Nat) (out : String) : List (String × Json) → String
  | [] => out
  | [(name, j)] => write pretty depth (writeName pretty depth out name) j
  | (name, j) :: fs =>
    writeFields pretty depth (write pretty depth (writeName pretty depth out name) j ++ ",") fs

end

/-- The text of a value on one line. -/
def compact (j : Json) : String :=
  write false 0 "" j

/-- The text of a value, indented. -/
def pretty (j : Json) : String :=
  write true 0 "" j

end Json

end Bitemporal
