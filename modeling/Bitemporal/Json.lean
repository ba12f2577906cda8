/-
Bitemporal/Json.lean

JSON values, as far as models need them.

Objects keep the order of their fields, and a name may come twice: what is
made of that is for the reader of the object to say (`fields?`).  Numbers that
are not written as integers keep their text.  `unread` stands for a value that
can only be passed over.
-/

namespace Bitemporal

/-- A JSON value. -/
inductive Json
  | null
  | bool (value : Bool)
  | integer (value : Int)
  /-- A number with a fraction, an exponent, or a sign before zero, as it is written. -/
  | decimal (written : String)
  | string (text : String)
  | array (items : List Json)
  | object (fields : List (String × Json))
  /-- A value that is well formed and yet cannot be taken in: a text with half of a surrogate pair,
  an object with such a name, or a value nested too deep. -/
  | unread

namespace Json

mutual

/-- How deep a value is nested; a value without parts has height one. -/
def height : Json → Nat
  | array items => heightItems items + 1
  | object fields => heightFields fields + 1
  | _ => 1

/-- The greatest height among items. -/
def heightItems : List Json → Nat
  | [] => 0
  | j :: js => max (height j) (heightItems js)

/-- The greatest height among the values of fields. -/
def heightFields : List (String × Json) → Nat
  | [] => 0
  | (_, j) :: fs => max (height j) (heightFields fs)

end

/-- The value of an object's field. -/
def field? (name : String) : Json → Option Json
  | object fields => fields.lookup name
  | _ => none

/-! ### Records

A record is written as an object of its fields.  It may also be written as an
array of the fields' values in their order, where the last ones may be left
out. -/

/-- The values of a record's fields, `none` for one that is not there.  Other fields of an object
are passed over; a field that comes twice, or an item too many, spoils the record. -/
def fields? (names : List String) : Json → Option (List (Option Json))
  | object fields => names.mapM fun name =>
    match fields.filter fun f => f.1 == name with
    | [] => some none
    | [(_, j)] => some (some j)
    | _ => none
  | array items =>
    if items.length ≤ names.length then
      some (items.map some ++ List.replicate (names.length - items.length) none)
    else none
  | _ => none

/-! ### Variants

A variant is written as an object whose one field is named by the variant and
holds its content.  A variant without content may be written by its name
alone. -/

/-- The name of a variant, and its content unless the name stands alone. -/
def variant? : Json → Option (String × Option Json)
  | string tag => some (tag, none)
  | object [(tag, content)] => some (tag, some content)
  | _ => none

/-- The name of a variant without content. -/
def bare? (j : Json) : Option String :=
  match j.variant? with
  | some (tag, none) => some tag
  | some (tag, some null) => some tag
  | _ => none

/-- A variant with content. -/
def variant (tag : String) (content : Json) : Json :=
  object [(tag, content)]

/-! ### Parts -/

/-- A text. -/
def string? : Json → Option String
  | string s => some s
  | _ => none

/-- A truth value. -/
def bool? : Json → Option Bool
  | bool b => some b
  | _ => none

/-- An integer from `least` up to `greatest`. -/
def integer? (least greatest : Int) : Json → Option Int
  | integer n => if least ≤ n ∧ n ≤ greatest then some n else none
  | _ => none

/-- A number that fits 32 bits. -/
def uint32? (j : Json) : Option UInt32 :=
  (j.integer? 0 4294967295).map fun n => UInt32.ofNat n.toNat

/-- A number that fits 64 bits. -/
def uint64? (j : Json) : Option UInt64 :=
  (j.integer? 0 18446744073709551615).map fun n => UInt64.ofNat n.toNat

/-- A signed number that fits 64 bits. -/
def int64? (j : Json) : Option Int64 :=
  (j.integer? (-9223372036854775808) 9223372036854775807).map Int64.ofInt

/-- A list. -/
def list? {α : Type} (item? : Json → Option α) : Json → Option (List α)
  | array items => items.mapM item?
  | _ => none

/-- Null, or a value. -/
def nullable? {α : Type} (value? : Json → Option α) : Json → Option (Option α)
  | null => some none
  | j => (value? j).map some

/-- The value of a field that has to be there. -/
def required {α : Type} (value? : Json → Option α) (field : Option Json) : Option α :=
  field.bind value?

/-- The value of a field that may be missing. -/
def defaulted {α : Type} (default : α) (value? : Json → Option α) : Option Json → Option α
  | none => some default
  | some j => value? j

/-- Null for `none`. -/
def ofOption {α : Type} (toJson : α → Json) : Option α → Json
  | none => null
  | some a => toJson a

/-- An array of values. -/
def ofList {α : Type} (toJson : α → Json) (as : List α) : Json :=
  array (as.map toJson)

/-- A number. -/
def ofNat (n : Nat) : Json :=
  integer n

/-- An array of texts. -/
def ofStrings (ss : List String) : Json :=
  ofList string ss

end Json

end Bitemporal
