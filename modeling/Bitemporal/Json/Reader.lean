/-
Bitemporal/Json/Reader.lean

Reading JSON text.

The whole text has to be one value, with blanks around it at most.  The
grammar is strict: no comments, no comma after the last item, no zeros before
a number, no control characters in texts.

Two flaws spoil the value they occur in, and not the text: half of a surrogate
pair in a text, and a nesting of more than `nestingLimit` arrays and objects.
Such a value is `unread`; it does no harm where a record passes it over.  What
lies below the limit is walked with a stack of its own, so that its depth costs
no recursion.
-/
import Bitemporal.Json

namespace Bitemporal

namespace Json

/-- How many arrays and objects may be nested in each other. -/
def nestingLimit : Nat := 127

namespace Reader

/-- What is left of the text. -/
abbrev Rest := List Char

/-- Passes over blanks. -/
def blanks : Rest → Rest
  | c :: cs => if c = ' ' || c = '\n' || c = '\t' || c = '\r' then blanks cs else c :: cs
  | [] => []

/-- The value of a hexadecimal digit. -/
def hexDigit? (c : Char) : Option Nat :=
  if '0' ≤ c ∧ c ≤ '9' then some (c.toNat - '0'.toNat)
  else if 'a' ≤ c ∧ c ≤ 'f' then some (c.toNat - 'a'.toNat + 10)
  else if 'A' ≤ c ∧ c ≤ 'F' then some (c.toNat - 'A'.toNat + 10)
  else none

/-- The value of hexadecimal digits, the first one the highest. -/
def hex? (digits : List Char) : Option Nat :=
  digits.foldlM (fun n c => (hexDigit? c).map fun d => 16 * n + d) 0

/-- The character of an escape with one letter. -/
def escape? (c : Char) : Option Char :=
  match c with
  | '"' => some '"'
  | '\\' => some '\\'
  | '/' => some '/'
  | 'b' => some '\x08'
  | 'f' => some '\x0c'
  | 'n' => some '\n'
  | 'r' => some '\r'
  | 't' => some '\t'
  | _ => none

/-- What has been read of a text: its characters in reverse, the first half of a surrogate pair that
waits for the second, and whether every pair was complete so far. -/
structure Partial where
  done : List Char := []
  half : Option Nat := none
  sound : Bool := true

namespace Partial

/-- Takes a character. -/
def push (p : Partial) (c : Char) : Partial :=
  { done := c :: p.done, half := none, sound := p.sound && p.half.isNone }

/-- Takes a unit of sixteen bits. -/
def pushUnit (p : Partial) (unit : Nat) : Partial :=
  if 0xD800 ≤ unit ∧ unit < 0xDC00 then
    { p with half := some unit, sound := p.sound && p.half.isNone }
  else if 0xDC00 ≤ unit ∧ unit < 0xE000 then
    match p.half with
    | some high =>
      { p with
        done := Char.ofNat (0x10000 + (high - 0xD800) * 0x400 + (unit - 0xDC00)) :: p.done
        half := none }
    | none => { p with sound := false }
  else p.push (Char.ofNat unit)

/-- The text, if every pair is complete. -/
def text? (p : Partial) : Option String :=
  if p.sound && p.half.isNone then some (String.ofList p.done.reverse) else none

end Partial

/-- Reads a text behind its opening quotation mark. -/
def text (p : Partial) : Rest → Option (Option String × Rest)
  | '"' :: cs => some (p.text?, cs)
  | '\\' :: 'u' :: a :: b :: c :: d :: cs =>
    match hex? [a, b, c, d] with
    | some unit => text (p.pushUnit unit) cs
    | none => none
  | '\\' :: c :: cs =>
    match escape? c with
    | some c => text (p.push c) cs
    | none => none
  | c :: cs => if c.toNat < 32 || c = '\\' then none else text (p.push c) cs
  | [] => none

/-- Reads one digit or more. -/
def digits? (cs : Rest) : Option (List Char × Rest) :=
  match cs.span Char.isDigit with
  | ([], _) => none
  | (ds, rest) => some (ds, rest)

/-- Reads a fraction, if there is one. -/
def fraction? : Rest → Option (List Char × Rest)
  | '.' :: cs => (digits? cs).map fun (ds, rest) => ('.' :: ds, rest)
  | cs => some ([], cs)

/-- Reads an exponent, if there is one. -/
def exponent? : Rest → Option (List Char × Rest)
  | c :: cs =>
    if c = 'e' || c = 'E' then
      match cs with
      | '+' :: cs => (digits? cs).map fun (ds, rest) => (c :: '+' :: ds, rest)
      | '-' :: cs => (digits? cs).map fun (ds, rest) => (c :: '-' :: ds, rest)
      | cs => (digits? cs).map fun (ds, rest) => (c :: ds, rest)
    else some ([], c :: cs)
  | [] => some ([], [])

/-- Reads a number. -/
def number (cs : Rest) : Option (Json × Rest) := do
  let (sign, cs) := match cs with
    | '-' :: cs => (['-'], cs)
    | cs => ([], cs)
  let (whole, cs) ← digits? cs
  if whole.head? = some '0' ∧ whole ≠ ['0'] then none
  let (fraction, cs) ← fraction? cs
  let (exponent, cs) ← exponent? cs
  if fraction.isEmpty && exponent.isEmpty && !(whole = ['0'] && !sign.isEmpty) then
    let n : Nat := whole.foldl (fun n c => 10 * n + (c.toNat - '0'.toNat)) 0
    some (integer (if sign.isEmpty then n else -n), cs)
  else some (decimal (String.ofList (sign ++ whole ++ fraction ++ exponent)), cs)

/-- Reads a value that is neither an array nor an object. -/
def scalar : Rest → Option (Json × Rest)
  | '"' :: cs => (text {} cs).map fun (s?, rest) => (s?.elim unread string, rest)
  | 't' :: 'r' :: 'u' :: 'e' :: cs => some (bool true, cs)
  | 'f' :: 'a' :: 'l' :: 's' :: 'e' :: cs => some (bool false, cs)
  | 'n' :: 'u' :: 'l' :: 'l' :: cs => some (null, cs)
  | cs => number cs

/-- Reads the name of a field and the colon behind it. -/
def name (cs : Rest) : Option (Option String × Rest) :=
  match blanks cs with
  | '"' :: cs => do
    let (name?, cs) ← text {} cs
    match blanks cs with
    | ':' :: cs => some (name?, cs)
    | _ => none
  | _ => none

/-- What is open around the place that is passed over. -/
inductive Enclosing
  | array | object

mutual

/-- Passes over a value and all that is open around it. -/
def pass : Nat → List Enclosing → Rest → Option Rest
  | 0, _, _ => none
  | fuel + 1, around, cs =>
    match blanks cs with
    | '[' :: cs =>
      match blanks cs with
      | ']' :: cs => passEnd fuel around cs
      | cs => pass fuel (.array :: around) cs
    | '\x7b' :: cs =>
      match blanks cs with
      | '\x7d' :: cs => passEnd fuel around cs
      | cs => passField fuel (.object :: around) cs
    | cs =>
      match scalar cs with
      | some (_, cs) => passEnd fuel around cs
      | none => none

/-- Passes over a field and all that is open around it. -/
def passField : Nat → List Enclosing → Rest → Option Rest
  | 0, _, _ => none
  | fuel + 1, around, cs =>
    match name cs with
    | some (_, cs) => pass fuel around cs
    | none => none

/-- Passes over what follows a value, to the end of all that is open around it. -/
def passEnd : Nat → List Enclosing → Rest → Option Rest
  | 0, _, _ => none
  | _ + 1, [], cs => some cs
  | fuel + 1, .array :: around, cs =>
    match blanks cs with
    | ',' :: cs => pass fuel (.array :: around) cs
    | ']' :: cs => passEnd fuel around cs
    | _ => none
  | fuel + 1, .object :: around, cs =>
    match blanks cs with
    | ',' :: cs => passField fuel (.object :: around) cs
    | '\x7d' :: cs => passEnd fuel around cs
    | _ => none

end

mutual

/-- Reads a value in which `depth` more arrays and objects may be nested. -/
def value : Nat → Nat → Rest → Option (Json × Rest)
  | 0, _, _ => none
  | fuel + 1, depth, cs =>
    match blanks cs, depth with
    | '[' :: cs, 0 => (pass fuel [] ('[' :: cs)).map fun rest => (unread, rest)
    | '\x7b' :: cs, 0 => (pass fuel [] ('\x7b' :: cs)).map fun rest => (unread, rest)
    | '[' :: cs, depth + 1 =>
      match blanks cs with
      | ']' :: cs => some (array [], cs)
      | cs => items fuel depth [] cs
    | '\x7b' :: cs, depth + 1 =>
      match blanks cs with
      | '\x7d' :: cs => some (object [], cs)
      | cs => fields fuel depth true [] cs
    | cs, _ => scalar cs

/-- Reads items up to the end of an array, behind those in `done`, which are in reverse. -/
def items : Nat → Nat → List Json → Rest → Option (Json × Rest)
  | 0, _, _, _ => none
  | fuel + 1, depth, done, cs =>
    match value fuel depth cs with
    | none => none
    | some (j, cs) =>
      match blanks cs with
      | ',' :: cs => items fuel depth (j :: done) cs
      | ']' :: cs => some (array (j :: done).reverse, cs)
      | _ => none

/-- Reads fields up to the end of an object, behind those in `done`, which are in reverse; `sound`
says whether every name could be read. -/
def fields : Nat → Nat → Bool → List (String × Json) → Rest → Option (Json × Rest)
  | 0, _, _, _, _ => none
  | fuel + 1, depth, sound, done, cs =>
    match name cs with
    | none => none
    | some (name?, cs) =>
      match value fuel depth cs with
      | none => none
      | some (j, cs) =>
        let sound := sound && name?.isSome
        let done := (name?.getD "", j) :: done
        match blanks cs with
        | ',' :: cs => fields fuel depth sound done cs
        | '\x7d' :: cs => some (if sound then object done.reverse else unread, cs)
        | _ => none

end

end Reader

/-- The value that a text writes. -/
def parse? (s : String) : Option Json :=
  let cs := s.toList
  match Reader.value (4 * cs.length + 4) nestingLimit cs with
  | some (j, rest) => if (Reader.blanks rest).isEmpty then some j else none
  | none => none

end Json

end Bitemporal
