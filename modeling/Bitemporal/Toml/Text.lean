/-
Bitemporal/Toml/Text.lean

Reading TOML texts, comments and blanks.

A text stands in single quotation marks, where every character stands for
itself, or in double ones, where a backslash begins an escape.  In three marks
of a kind it may run over several lines; a line feed right behind the opening
marks is dropped, and up to two marks may stand inside or before the closing
ones.  Control characters other than the tab are refused everywhere.
-/
import Bitemporal.Toml

namespace Bitemporal

namespace Toml.Reader

/-- What is left of the text. -/
abbrev Rest := List Char

/-- Whether a character may stand in a comment: all but control characters, the tab excepted. -/
def isPlain (c : Char) : Bool :=
  c = '\t' || (32 ≤ c.toNat && c.toNat ≠ 127)

/-- Whether a character is a blank inside a line. -/
def isBlank (c : Char) : Bool :=
  c = ' ' || c = '\t'

/-- Passes over blanks inside a line. -/
def blanks (cs : Rest) : Rest :=
  cs.dropWhile isBlank

/-- Passes over a comment, if one begins here. -/
def comment (cs : Rest) : Rest :=
  match cs with
  | '#' :: cs => cs.dropWhile isPlain
  | cs => cs

/-- Passes over one line feed, alone or behind a carriage return. -/
def lineFeed? : Rest → Option Rest
  | '\n' :: cs => some cs
  | '\r' :: '\n' :: cs => some cs
  | _ => none

/-- Passes over the end of a line, which may have a comment before it. -/
def lineEnd? (cs : Rest) : Option Rest :=
  match comment (blanks cs) with
  | [] => some []
  | cs => lineFeed? cs

/-- Passes over blanks, line feeds and comments. -/
def gap : Nat → Rest → Rest
  | 0, cs => cs
  | fuel + 1, cs =>
    let cs := comment (blanks cs)
    match lineFeed? cs with
    | some cs => gap fuel cs
    | none => cs

/-- The value of a digit in bases up to sixteen. -/
def digit? (base : Nat) (c : Char) : Option Nat :=
  let d? :=
    if '0' ≤ c ∧ c ≤ '9' then some (c.toNat - '0'.toNat)
    else if 'a' ≤ c ∧ c ≤ 'f' then some (c.toNat - 'a'.toNat + 10)
    else if 'A' ≤ c ∧ c ≤ 'F' then some (c.toNat - 'A'.toNat + 10)
    else none
  d?.filter (· < base)

/-- The character of a code point written in hexadecimal; half a surrogate pair is none. -/
def codePoint? (digits : List Char) : Option Char := do
  let n ← digits.foldlM (fun n c => (digit? 16 c).map fun d => 16 * n + d) 0
  if n.isValidChar then some (Char.ofNat n) else none

/-- The character of an escape with one letter. -/
def escape? (c : Char) : Option Char :=
  match c with
  | 'b' => some '\x08'
  | 't' => some '\t'
  | 'n' => some '\n'
  | 'f' => some '\x0c'
  | 'r' => some '\r'
  | '"' => some '"'
  | '\\' => some '\\'
  | _ => none

/-- Reads an escape behind its backslash. -/
def escaped? : Rest → Option (Char × Rest)
  | 'u' :: a :: b :: c :: d :: cs => (codePoint? [a, b, c, d]).map (·, cs)
  | 'U' :: a :: b :: c :: d :: e :: f :: g :: h :: cs =>
    (codePoint? [a, b, c, d, e, f, g, h]).map (·, cs)
  | c :: cs => (escape? c).map (·, cs)
  | [] => none

/-- Reads a text in double quotation marks behind the opening one; `done` is in reverse. -/
def basic : Nat → List Char → Rest → Option (String × Rest)
  | 0, _, _ => none
  | fuel + 1, done, cs =>
    match cs with
    | '"' :: cs => some (String.ofList done.reverse, cs)
    | '\\' :: cs => (escaped? cs).bind fun (c, cs) => basic fuel (c :: done) cs
    | c :: cs => if isPlain c then basic fuel (c :: done) cs else none
    | [] => none

/-- Reads a text in single quotation marks behind the opening one. -/
def literal (cs : Rest) : Option (String × Rest) :=
  match cs.span fun c => c != '\'' && isPlain c with
  | (done, '\'' :: rest) => some (String.ofList done, rest)
  | _ => none

/-- Passes over all blanks and line feeds. -/
def allBlanks : Rest → Rest
  | '\r' :: '\n' :: cs => allBlanks cs
  | c :: cs => if isBlank c || c = '\n' then allBlanks cs else c :: cs
  | [] => []

/-- Reads a text over several lines, in marks of the given kind, behind the opening ones; `done` is
in reverse.  In double marks a backslash at the end of a line drops the break and all blanks after
it. -/
def long (mark : Char) : Nat → List Char → Rest → Option (String × Rest)
  | 0, _, _ => none
  | fuel + 1, done, cs =>
    match lineFeed? cs with
    | some cs => long mark fuel ('\n' :: done) cs
    | none =>
      match cs with
      | [] => none
      | c :: rest =>
        if c = mark then
          let (marks, rest) := cs.span (· = mark)
          if marks.length < 3 then long mark fuel (marks ++ done) rest
          else if marks.length ≤ 5 then
            some (String.ofList (marks.drop 3 ++ done).reverse, rest)
          else none
        else if c = '\\' ∧ mark = '"' then
          match lineFeed? (blanks rest) with
          | some rest => long mark fuel done (allBlanks rest)
          | none => (escaped? rest).bind fun (c, rest) => long mark fuel (c :: done) rest
        else if isPlain c then long mark fuel (c :: done) rest
        else none

/-- Reads a text over several lines behind its three opening marks. -/
def longText (mark : Char) (cs : Rest) : Option (String × Rest) :=
  long mark (cs.length + 1) [] ((lineFeed? cs).getD cs)

/-- Reads a text on one line, if one begins here. -/
def shortText? (cs : Rest) : Option (String × Rest) :=
  match cs with
  | '"' :: cs => basic (cs.length + 1) [] cs
  | '\'' :: cs => literal cs
  | _ => none

/-- Reads a text of any kind, if one begins here. -/
def text? (cs : Rest) : Option (String × Rest) :=
  match cs with
  | '"' :: '"' :: '"' :: cs => longText '"' cs
  | '\'' :: '\'' :: '\'' :: cs => longText '\'' cs
  | cs => shortText? cs

end Toml.Reader

end Bitemporal
