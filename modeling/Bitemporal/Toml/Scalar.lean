/-
Bitemporal/Toml/Scalar.lean

Reading TOML numbers, truth values, dates and times.

Such a value is a *word*: the longest run of the characters that can occur in
one.  A word is read as a whole or not at all.  Only a date may be followed by
a blank and a second word, its time.

Integers are decimal with an optional sign, or hexadecimal, octal or binary;
they have to fit 64 bits.  A single underscore may stand between digits.
-/
import Bitemporal.Toml.Text

namespace Bitemporal

namespace Toml.Reader

/-- Whether a character can occur in a word. -/
def isWordChar (c : Char) : Bool :=
  c.isAlphanum || c = '+' || c = '-' || c = '_' || c = '.' || c = ':'

/-- Reads the digits that follow a digit, where one underscore may stand before each.  The
underscores are dropped. -/
def moreDigits? (isDigit : Char → Bool) : Rest → Option (List Char × Rest)
  | ['_'] => none
  | '_' :: c :: cs =>
    if isDigit c then (moreDigits? isDigit cs).map fun (ds, rest) => (c :: ds, rest) else none
  | c :: cs =>
    if isDigit c then (moreDigits? isDigit cs).map fun (ds, rest) => (c :: ds, rest)
    else some ([], c :: cs)
  | [] => some ([], [])

/-- Reads digits, at least one. -/
def digits? (isDigit : Char → Bool) : Rest → Option (List Char × Rest)
  | c :: cs =>
    if isDigit c then (moreDigits? isDigit cs).map fun (ds, rest) => (c :: ds, rest) else none
  | [] => none

/-- Takes a sign off, if there is one; `true` means minus. -/
def sign : Rest → Bool × Rest
  | '-' :: cs => (true, cs)
  | '+' :: cs => (false, cs)
  | cs => (false, cs)

/-- The value of digits in a base. -/
def valueOf (base : Nat) (digits : List Char) : Nat :=
  digits.foldl (fun n c => base * n + (digit? base c).getD 0) 0

/-- Reads the digits before a decimal point: no zero before others. -/
def whole? (cs : Rest) : Option (List Char × Rest) :=
  match digits? Char.isDigit cs with
  | some (ds, rest) => if ds.head? = some '0' ∧ ds ≠ ['0'] then none else some (ds, rest)
  | none => none

/-- An integer that fits 64 bits with its sign. -/
def fitting (n : Int) : Option Toml :=
  if -9223372036854775808 ≤ n ∧ n ≤ 9223372036854775807 then some (integer n) else none

/-- Reads a word as an integer in a base other than ten. -/
def based? (base : Nat) (cs : Rest) : Option Toml :=
  match digits? (fun c => (digit? base c).isSome) cs with
  | some (ds, []) => fitting (valueOf base ds)
  | _ => none

/-- Reads a word as an integer. -/
def integer? (cs : Rest) : Option Toml :=
  match cs with
  | '0' :: 'x' :: cs => based? 16 cs
  | '0' :: 'o' :: cs => based? 8 cs
  | '0' :: 'b' :: cs => based? 2 cs
  | cs =>
    let (negative, cs) := sign cs
    match whole? cs with
    | some (ds, []) => fitting (if negative then -(valueOf 10 ds : Int) else valueOf 10 ds)
    | _ => none

/-- Whether `mantissa * 10 ^ exponent` rounds to more than the greatest double. -/
def overflows (mantissa : Nat) (exponent : Int) : Bool :=
  let size : Int := (Nat.toDigits 10 mantissa).length + exponent
  let limit := Nat.pow 2 1024 - Nat.pow 2 970
  if mantissa = 0 || size < 309 then false
  else if 309 < size then true
  else if 0 ≤ exponent then limit ≤ mantissa * Nat.pow 10 exponent.toNat
  else limit * Nat.pow 10 (-exponent).toNat ≤ mantissa

/-- Reads an exponent, if there is one. -/
def exponent? : Rest → Option (Int × Rest)
  | c :: cs =>
    if c = 'e' || c = 'E' then
      let (negative, cs) := sign cs
      (digits? Char.isDigit cs).map fun (ds, rest) =>
        (if negative then -(valueOf 10 ds : Int) else valueOf 10 ds, rest)
    else some (0, c :: cs)
  | [] => some (0, [])

/-- Reads a word as a float: with a fraction, an exponent or both.  Infinity can be written as such
only. -/
def float? (word : Rest) : Option Toml := do
  let (negative, cs) := sign word
  if cs = ['i', 'n', 'f'] || cs = ['n', 'a', 'n'] then return float (String.ofList word)
  let (ds, cs) ← whole? cs
  let (fraction, cs) ← match cs with
    | '.' :: cs => digits? Char.isDigit cs
    | cs => some ([], cs)
  if fraction.isEmpty && cs.isEmpty then none
  let (exponent, cs) ← exponent? cs
  if !cs.isEmpty then none
  if !negative && overflows (valueOf 10 (ds ++ fraction)) (exponent - fraction.length) then none
  return float (String.ofList word)

/-! ### Dates and times -/

/-- Reads a number of exactly `count` digits between two bounds. -/
def fixed? (count least greatest : Nat) (cs : Rest) : Option (Nat × Rest) :=
  let ds := cs.take count
  let n := valueOf 10 ds
  if ds.length = count ∧ ds.all Char.isDigit ∧ least ≤ n ∧ n ≤ greatest then
    some (n, cs.drop count)
  else none

/-- Passes over a character that has to stand here. -/
def expect? (c : Char) : Rest → Option Rest
  | d :: cs => if c = d then some cs else none
  | [] => none

/-- The number of days of a month. -/
def daysIn (year month : Nat) : Nat :=
  if month = 2 then
    if (year % 4 = 0 ∧ year % 100 ≠ 0) ∨ year % 400 = 0 then 29 else 28
  else if month = 4 ∨ month = 6 ∨ month = 9 ∨ month = 11 then 30
  else 31

/-- Reads a date. -/
def date? (cs : Rest) : Option Rest := do
  let (year, cs) ← fixed? 4 0 9999 cs
  let cs ← expect? '-' cs
  let (month, cs) ← fixed? 2 1 12 cs
  let cs ← expect? '-' cs
  let (_, cs) ← fixed? 2 1 (daysIn year month) cs
  return cs

/-- Reads a time of day, a leap second and fractions of a second included. -/
def time? (cs : Rest) : Option Rest := do
  let (_, cs) ← fixed? 2 0 23 cs
  let cs ← expect? ':' cs
  let (_, cs) ← fixed? 2 0 59 cs
  let cs ← expect? ':' cs
  let (_, cs) ← fixed? 2 0 60 cs
  match cs with
  | '.' :: cs => if (cs.head?.any Char.isDigit) then some (cs.dropWhile Char.isDigit) else none
  | cs => some cs

/-- Reads the offset of a time zone, if there is one. -/
def offset? (cs : Rest) : Option Rest :=
  match cs with
  | 'Z' :: cs => some cs
  | 'z' :: cs => some cs
  | c :: rest =>
    if c = '+' || c = '-' then do
      let (_, cs) ← fixed? 2 0 23 rest
      let cs ← expect? ':' cs
      let (_, cs) ← fixed? 2 0 59 cs
      return cs
    else some cs
  | [] => some []

/-- Reads a word, and behind a date a second one, as a date, a time or both. -/
def moment? (word rest : Rest) : Option (Toml × Rest) :=
  let whole (cs : Rest) : Bool := (time? cs).bind offset? = some []
  match date? word with
  | some [] =>
    match rest with
    | ' ' :: c :: more =>
      if c.isDigit then
        let (clock, rest) := (c :: more).span isWordChar
        if whole clock then some (moment (String.ofList (word ++ ' ' :: clock)), rest) else none
      else some (moment (String.ofList word), rest)
    | rest => some (moment (String.ofList word), rest)
  | some (c :: clock) =>
    if (c = 'T' || c = 't') && whole clock then some (moment (String.ofList word), rest) else none
  | none => if time? word = some [] then some (moment (String.ofList word), rest) else none

/-- Reads a number, a truth value, a date or a time. -/
def scalar? (cs : Rest) : Option (Toml × Rest) :=
  let (word, rest) := cs.span isWordChar
  match String.ofList word with
  | "true" => some (boolean true, rest)
  | "false" => some (boolean false, rest)
  | _ =>
    match moment? word rest with
    | some r => some r
    | none => ((float? word) <|> integer? word).map fun v => (v, rest)

end Toml.Reader

end Bitemporal
