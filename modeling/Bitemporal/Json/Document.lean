/-
Bitemporal/Json/Document.lean

The JSON form of documents: classes and associations with their members.

In a class or association, lists that are empty may be missing, and so may the
place in the source text; so may the annotations of a member.
-/
import Bitemporal.Json.Expression
import Bitemporal.Json.Reader
import Bitemporal.Model

namespace Bitemporal

open Json

/-! ### Annotations -/

namespace Stereotype

def toJson : Stereotype → Json
  | resolved profile value =>
    variant "Resolved" (object [("profile", string profile), ("value", string value)])
  | abbreviated written => variant "Stub" (string written)

def ofJson? (j : Json) : Option Stereotype :=
  match j.variant? with
  | some ("Resolved", some j) => do
    let [profile, value] ← j.fields? ["profile", "value"] | none
    return resolved (← required string? profile) (← required string? value)
  | some ("Stub", some j) => j.string?.map abbreviated
  | _ => none

end Stereotype

namespace TaggedValue

def toJson (t : TaggedValue) : Json :=
  object [("profile", string t.profile), ("tag", string t.tag), ("value", string t.value)]

def ofJson? (j : Json) : Option TaggedValue := do
  let [profile, tag, value] ← j.fields? ["profile", "tag", "value"] | none
  return {
    profile := ← required string? profile
    tag := ← required string? tag
    value := ← required string? value }

end TaggedValue

namespace Annotations

/-- The fields of an element's annotations. -/
def toFields (a : Annotations) : List (String × Json) :=
  [("stereotypes", ofList Stereotype.toJson a.stereotypes),
   ("tagged_values", ofList TaggedValue.toJson a.taggedValues)]

/-- Annotations from the fields of an element. -/
def ofFields? (stereotypes taggedValues : Option Json) : Option Annotations := do
  return {
    stereotypes := ← defaulted [] (list? Stereotype.ofJson?) stereotypes
    taggedValues := ← defaulted [] (list? TaggedValue.ofJson?) taggedValues }

end Annotations

/-! ### Members -/

namespace Owner

def toJson : Owner → Json
  | ofClass path => variant "Class" (string path)
  | ofAssociation path => variant "Association" (string path)

def ofJson? (j : Json) : Option Owner :=
  match j.variant? with
  | some ("Class", some j) => j.string?.map ofClass
  | some ("Association", some j) => j.string?.map ofAssociation
  | _ => none

end Owner

/-- The field for a place in the source text. -/
def spanField (s : Option Span) : String × Json :=
  ("source_information", ofOption Span.toJson s)

/-- A place in the source text from its field. -/
def spanOfField? (field : Option Json) : Option (Option Span) :=
  defaulted none (nullable? Span.ofJson?) field

namespace Property

def toJson (p : Property) : Json :=
  object <| [("name", string p.name), ("generic_type", p.type.toJson),
    ("multiplicity", p.multiplicity.toJson)] ++ p.toAnnotations.toFields ++
    [("owner", p.owner.toJson), spanField p.span]

def ofJson? (j : Json) : Option Property := do
  let [name, type, multiplicity, stereotypes, taggedValues, owner, span] ←
    j.fields? ["name", "generic_type", "multiplicity", "stereotypes", "tagged_values", "owner",
      "source_information"] | none
  return {
    name := ← required string? name
    type := ← required TypeRef.ofJson? type
    multiplicity := ← required Multiplicity.ofJson? multiplicity
    toAnnotations := ← Annotations.ofFields? stereotypes taggedValues
    owner := ← required Owner.ofJson? owner
    span := ← spanOfField? span }

end Property

namespace QualifiedProperty

def toJson (q : QualifiedProperty) : Json :=
  object <| [("name", string q.name), ("generic_type", q.type.toJson),
    ("multiplicity", q.multiplicity.toJson)] ++ q.toAnnotations.toFields ++
    [("owner", q.owner.toJson), ("signature", q.signature.toJson),
     ("expression_sequence", ofList Expression.toJson q.body)]

def ofJson? (j : Json) : Option QualifiedProperty := do
  let [name, type, multiplicity, stereotypes, taggedValues, owner, signature, body] ←
    j.fields? ["name", "generic_type", "multiplicity", "stereotypes", "tagged_values", "owner",
      "signature", "expression_sequence"] | none
  return {
    name := ← required string? name
    type := ← required TypeRef.ofJson? type
    multiplicity := ← required Multiplicity.ofJson? multiplicity
    toAnnotations := ← Annotations.ofFields? stereotypes taggedValues
    owner := ← required Owner.ofJson? owner
    signature := ← required Signature.ofJson? signature
    body := ← defaulted [] (list? Expression.ofJson?) body }

end QualifiedProperty

/-! ### Elements -/

/-- Properties from the field of an element. -/
def propertiesOfField? (field : Option Json) : Option (List Property) :=
  defaulted [] (list? Property.ofJson?) field

/-- Qualified properties from the field of an element. -/
def qualifiedOfField? (field : Option Json) : Option (List QualifiedProperty) :=
  defaulted [] (list? QualifiedProperty.ofJson?) field

namespace Class

def toJson (c : Class) : Json :=
  object <| [("path", string c.path)] ++ c.toAnnotations.toFields ++
    [("properties", ofList Property.toJson c.properties),
     ("qualified_properties", ofList QualifiedProperty.toJson c.qualified),
     ("properties_from_associations", ofList Property.toJson c.exposed),
     ("qualified_properties_from_associations",
       ofList QualifiedProperty.toJson c.exposedQualified),
     ("original_milestoned_properties", ofList Property.toJson c.replaced),
     spanField c.span]

def ofJson? (j : Json) : Option Class := do
  let [path, stereotypes, taggedValues, properties, qualified, exposed, exposedQualified,
      replaced, span] ←
    j.fields? ["path", "stereotypes", "tagged_values", "properties", "qualified_properties",
      "properties_from_associations", "qualified_properties_from_associations",
      "original_milestoned_properties", "source_information"] | none
  return {
    path := ← required string? path
    toAnnotations := ← Annotations.ofFields? stereotypes taggedValues
    properties := ← propertiesOfField? properties
    qualified := ← qualifiedOfField? qualified
    exposed := ← propertiesOfField? exposed
    exposedQualified := ← qualifiedOfField? exposedQualified
    replaced := ← propertiesOfField? replaced
    span := ← spanOfField? span }

end Class

namespace Association

def toJson (a : Association) : Json :=
  object [("path", string a.path), ("properties", ofList Property.toJson a.properties),
    ("qualified_properties", ofList QualifiedProperty.toJson a.qualified),
    ("original_milestoned_properties", ofList Property.toJson a.replaced),
    spanField a.span]

/-- The ends of an association have to be there. -/
def ofJson? (j : Json) : Option Association := do
  let [path, properties, qualified, replaced, span] ←
    j.fields? ["path", "properties", "qualified_properties", "original_milestoned_properties",
      "source_information"] | none
  return {
    path := ← required string? path
    properties := ← required (list? Property.ofJson?) properties
    qualified := ← qualifiedOfField? qualified
    replaced := ← propertiesOfField? replaced
    span := ← spanOfField? span }

end Association

namespace Document

def toJson (d : Document) : Json :=
  object [("classes", ofList Class.toJson d.classes),
    ("associations", ofList Association.toJson d.associations)]

def ofJson? (j : Json) : Option Document := do
  let [classes, associations] ← j.fields? ["classes", "associations"] | none
  return {
    classes := ← defaulted [] (list? Class.ofJson?) classes
    associations := ← defaulted [] (list? Association.ofJson?) associations }

end Document

namespace Model

/-- The model whose document has this JSON form. -/
def ofJson? (j : Json) : Option Model :=
  (Document.ofJson? j).map ofDocument

/-- The model whose document is written in a text. -/
def parse? (text : String) : Option Model :=
  (Json.parse? text).bind ofJson?

end Model

end Bitemporal
