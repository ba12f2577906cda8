/-
Bitemporal/Text/Quoted.lean

Texts in quotation marks, as diagnostics show them.

A quoted text keeps its printable characters.  The quotation mark, the
backslash and four control characters have an escape of two characters; every
other character in `escapedIntervals` is written by its code point in braces,
in hexadecimal without leading zeros.  A set of names is shown in braces, its
members quoted, ascending, and parted by a comma and a space.
-/
import Bitemporal.Text
import Bitemporal.Text.Escaped

namespace Bitemporal

namespace Text

/-- One character as it stands inside quotation marks. -/
def quotedChar (c : Char) : String :=
  match c with
  | '"' => "\\\""
  | '\\' => "\\\\"
  | '\n' => "\\n"
  | '\t' => "\\t"
  | '\r' => "\\r"
  | '\x00' => "\\0"
  | c =>
    if isEscaped c then "\\u\x7b" ++ String.ofList (Nat.toDigits 16 c.toNat) ++ "\x7d"
    else c.toString

/-- A text in quotation marks. -/
def quoted (s : String) : String :=
  "\"" ++ String.join (s.toList.map quotedChar) ++ "\""

/-- A set of names in braces. -/
def quotedSet (names : List String) : String :=
  "\x7b" ++ join ", " (names.map quoted) ++ "\x7d"

end Text

end Bitemporal
