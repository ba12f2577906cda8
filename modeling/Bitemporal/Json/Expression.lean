/-
Bitemporal/Json/Expression.lean

The JSON form of types and expressions.

Records are objects of their fields, variants are objects of one field (see
`Json.fields?` and `Json.variant?`).  What is written has every field, in a
fixed order, and null where an optional one is absent.
-/
import Bitemporal.Json
import Bitemporal.Expression

namespace Bitemporal

open Json

/-! ### Types -/

namespace Span

def toJson (s : Span) : Json :=
  object [("source_id", string s.source), ("start_line", ofNat s.startLine.toNat),
    ("start_column", ofNat s.startColumn.toNat), ("end_line", ofNat s.endLine.toNat),
    ("end_column", ofNat s.endColumn.toNat)]

def ofJson? (j : Json) : Option Span := do
  let [source, startLine, startColumn, endLine, endColumn] ←
    j.fields? ["source_id", "start_line", "start_column", "end_line", "end_column"] | none
  return {
    source := ← required string? source
    startLine := ← required uint32? startLine
    startColumn := ← required uint32? startColumn
    endLine := ← required uint32? endLine
    endColumn := ← required uint32? endColumn }

end Span

namespace Multiplicity

def toJson (m : Multiplicity) : Json :=
  object [("lower", ofNat m.lower.toNat), ("upper", ofOption (fun u => ofNat u.toNat) m.upper)]

/-- The upper bound may be missing from an object, not from an array. -/
def ofJson? (j : Json) : Option Multiplicity := do
  if let array [_] := j then none
  let [lower, upper] ← j.fields? ["lower", "upper"] | none
  return {
    lower := ← required uint32? lower
    upper := ← defaulted none (nullable? uint32?) upper }

end Multiplicity

namespace Primitive

def toJson (p : Primitive) : Json :=
  Json.string p.name

def ofJson? (j : Json) : Option Primitive :=
  j.bare?.bind ofName?

end Primitive

namespace TypeRef

def toJson : TypeRef → Json
  | primitive p => variant "Primitive" p.toJson
  | ofClass path => variant "Class" (string path)
  | abbreviated path => variant "Stub" (string path)

def ofJson? (j : Json) : Option TypeRef :=
  match j.variant? with
  | some ("Primitive", some j) => (Primitive.ofJson? j).map primitive
  | some ("Class", some j) => j.string?.map ofClass
  | some ("Stub", some j) => j.string?.map abbreviated
  | _ => none

end TypeRef

namespace Variable

def toJson (v : Variable) : Json :=
  object [("name", string v.name), ("generic_type", v.type.toJson),
    ("multiplicity", v.multiplicity.toJson)]

def ofJson? (j : Json) : Option Variable := do
  let [name, type, multiplicity] ← j.fields? ["name", "generic_type", "multiplicity"] | none
  return {
    name := ← required string? name
    type := ← required TypeRef.ofJson? type
    multiplicity := ← required Multiplicity.ofJson? multiplicity }

end Variable

namespace Signature

def toJson (s : Signature) : Json :=
  object [("parameters", ofList Variable.toJson s.parameters),
    ("return_type", s.result.type.toJson),
    ("return_multiplicity", s.result.multiplicity.toJson)]

def ofJson? (j : Json) : Option Signature := do
  let [parameters, type, multiplicity] ←
    j.fields? ["parameters", "return_type", "return_multiplicity"] | none
  return {
    parameters := ← required (list? Variable.ofJson?) parameters
    result := {
      type := ← required TypeRef.ofJson? type
      multiplicity := ← required Multiplicity.ofJson? multiplicity } }

end Signature

/-! ### Leaves of expressions -/

namespace FunctionRef

def toJson (f : FunctionRef) : Json :=
  object [("path", string f.path), ("name", string f.name)]

def ofJson? (j : Json) : Option FunctionRef := do
  let [path, name] ← j.fields? ["path", "name"] | none
  return { path := ← required string? path, name := ← required string? name }

end FunctionRef

namespace Literal

def toJson : Literal → Json
  | date text => variant "Date" (Json.string text)
  | string text => variant "String" (Json.string text)
  | integer n => variant "Integer" (Json.integer n.toInt)
  | boolean b => variant "Boolean" (Json.bool b)

def ofJson? (j : Json) : Option Literal :=
  match j.variant? with
  | some ("Date", some j) => j.string?.map date
  | some ("String", some j) => j.string?.map string
  | some ("Integer", some j) => j.int64?.map integer
  | some ("Boolean", some j) => j.bool?.map boolean
  | _ => none

end Literal

namespace Comparison

def toJson : Comparison → Json
  | lessThan => string "LessThan"
  | lessThanEqual => string "LessThanEqual"

def ofJson? (j : Json) : Option Comparison :=
  match j.bare? with
  | some "LessThan" => some lessThan
  | some "LessThanEqual" => some lessThanEqual
  | _ => none

end Comparison

namespace Access

def toJson : Access → Json
  | property => string "Property"
  | qualified n => variant "Qualified" (object [("parameter_count", ofNat n.toNat)])

def ofJson? (j : Json) : Option Access :=
  if j.bare? = some "Property" then some property
  else
    match j.variant? with
    | some ("Qualified", some j) => do
      let [count] ← j.fields? ["parameter_count"] | none
      return qualified (← required uint64? count)
    | _ => none

end Access

/-! ### Expressions -/

namespace Expression

/-- The record of a node, from the variant that says what the node is. -/
def nodeToJson (kind : Json) (t : Typing) : Json :=
  object [("kind", kind), ("generic_type", t.type.toJson), ("multiplicity", t.multiplicity.toJson)]

/-- The record of a navigation, from the forms of its arguments. -/
def siteToJson (s : Site) (arguments written : Json) : Json :=
  object [("owner", string s.owner), ("property", string s.property),
    ("accessor", s.access.toJson), ("arguments", arguments), ("original_arguments", written),
    ("source_information", ofOption Span.toJson s.span)]

/-- The record of a lambda, from the form of its body. -/
def lambdaToJson (b : Binder) (body : Json) : Json :=
  object [("parameter", b.parameter.toJson), ("open_variables", ofStrings b.openVariables),
    ("body", body), ("signature", b.signature.toJson)]

mutual

def toJson : Expression → Json
  | reference name t => nodeToJson (variant "Variable" (string name)) t
  | literal v t => nodeToJson (variant "Literal" v.toJson) t
  | equal f l r t =>
    nodeToJson (variant "Equal"
      (object [("function", f.toJson), ("left", toJson l), ("right", toJson r)])) t
  | compare f o l r t =>
    nodeToJson (variant "Compare"
      (object [("function", f.toJson), ("op", o.toJson), ("left", toJson l),
        ("right", toJson r)])) t
  | conjunction f os t =>
    nodeToJson (variant "And" (object [("function", f.toJson), ("operands", array (toJsons os))])) t
  | filter f s b e t =>
    nodeToJson (variant "Filter"
      (object [("function", f.toJson), ("source", toJson s),
        ("predicate", lambdaToJson b (toJson e))])) t
  | navigate s as w t =>
    nodeToJson (variant "Navigate" (siteToJson s (array (toJsons as)) (writtenToJson w))) t

def toJsons : List Expression → List Json
  | [] => []
  | e :: es => toJson e :: toJsons es

def writtenToJson : Option (List Expression) → Json
  | none => null
  | some as => array (toJsons as)

end

/-- Reads a navigation, given how to read its arguments. -/
def navigationOfJson? (expression? : Json → Option Expression) (j : Json) : Option Navigation := do
  let [owner, property, access, arguments, written, span] ←
    j.fields? ["owner", "property", "accessor", "arguments", "original_arguments",
      "source_information"] | none
  return {
    owner := ← required string? owner
    property := ← required string? property
    access := ← required Access.ofJson? access
    arguments := ← required (list? expression?) arguments
    written := ← defaulted none (nullable? (list? expression?)) written
    span := ← defaulted none (nullable? Span.ofJson?) span }

/-- Reads what a node is, given how to read the expressions in it. -/
def kindOfJson? (expression? : Json → Option Expression) (t : Typing) (j : Json) :
    Option Expression :=
  match j.variant? with
  | some ("Variable", some j) => j.string?.map fun name => reference name t
  | some ("Literal", some j) => (Literal.ofJson? j).map fun v => literal v t
  | some ("Equal", some j) => do
    let [function, left, right] ← j.fields? ["function", "left", "right"] | none
    return equal (← required FunctionRef.ofJson? function) (← required expression? left)
      (← required expression? right) t
  | some ("Compare", some j) => do
    let [function, op, left, right] ← j.fields? ["function", "op", "left", "right"] | none
    return compare (← required FunctionRef.ofJson? function) (← required Comparison.ofJson? op)
      (← required expression? left) (← required expression? right) t
  | some ("And", some j) => do
    let [function, operands] ← j.fields? ["function", "operands"] | none
    return conjunction (← required FunctionRef.ofJson? function)
      (← required (list? expression?) operands) t
  | some ("Filter", some j) => do
    let [function, source, predicate] ← j.fields? ["function", "source", "predicate"] | none
    let function ← required FunctionRef.ofJson? function
    let source ← required expression? source
    let [parameter, openVariables, body, signature] ←
      (← predicate).fields? ["parameter", "open_variables", "body", "signature"] | none
    let binder : Binder :=
      { parameter := ← required Variable.ofJson? parameter
        openVariables := ← required (list? string?) openVariables
        signature := ← required Signature.ofJson? signature }
    return filter function source binder (← required expression? body) t
  | some ("Navigate", some j) =>
    (navigationOfJson? expression? j).map fun n => n.toExpression t
  | _ => none

/-- Reads an expression that is nested at most `depth` times. -/
def ofJsonWithin? : Nat → Json → Option Expression
  | 0, _ => none
  | depth + 1, j => do
    let [kind, type, multiplicity] ← j.fields? ["kind", "generic_type", "multiplicity"] | none
    let typing : Typing :=
      { type := ← required TypeRef.ofJson? type
        multiplicity := ← required Multiplicity.ofJson? multiplicity }
    required (kindOfJson? (ofJsonWithin? depth) typing) kind

def ofJson? (j : Json) : Option Expression :=
  ofJsonWithin? j.height j

end Expression

namespace Navigation

def toJson (n : Navigation) : Json :=
  Expression.siteToJson n.toSite (array (Expression.toJsons n.arguments))
    (Expression.writtenToJson n.written)

def ofJson? (j : Json) : Option Navigation :=
  Expression.navigationOfJson? Expression.ofJson? j

end Navigation

end Bitemporal
