/-
Bitemporal/Listing.lean

The listing of a model: its text in the grammar that models are written in,
generated members included.

A listing is a list of lines.  Blank lines at its end are dropped, so that its
text ends in one line feed.  A class shows its declared members, then what
associations expose on it, then the names of its replaced properties; an
association shows only what it declares.
-/
import Bitemporal.Model
import Bitemporal.Expression.Text

namespace Bitemporal

namespace Listing

/-- The lines of a heading: each line of `heading` as a comment, and a blank line. -/
def comment (heading : String) : List String :=
  if heading.isEmpty then []
  else (Text.lines heading).map (fun l => if l.isEmpty then "//" else "// " ++ l) ++ [""]

/-- A line inside an element. -/
def indented (line : String) : String :=
  "  " ++ line

/-- The text of some lines, each with a line feed. -/
def text (lines : List String) : String :=
  String.join (lines.map fun l => l ++ "\n")

/-- A text with its line feeds at the end cut down to one. -/
def trimmed (s : String) : String :=
  match s.toList.reverse with
  | '\n' :: r => String.ofList ('\n' :: r.dropWhile (· == '\n')).reverse
  | _ => s

/-- The text of a whole listing. -/
def finished (lines : List String) : String :=
  trimmed (text lines)

/-- The stereotypes in front of a name. -/
def stereotypes (ss : List Stereotype) : String :=
  if ss.isEmpty then "" else "<<" ++ Text.join ", " (ss.map Stereotype.text) ++ ">> "

/-- The line of a property. -/
def property (p : Property) : String :=
  stereotypes p.stereotypes ++ p.name ++ ": " ++ p.toTyping.text ++ ";"

/-- The line of a qualified property. -/
def qualified (q : QualifiedProperty) : String :=
  let parameters := q.explicitParameters.map fun v => v.name ++ ": " ++ v.toTyping.text
  let body := q.body.map Expression.text
  stereotypes q.stereotypes ++ q.name ++ "(" ++ Text.join ", " parameters ++ ") \x7b" ++
    Text.join "; " body ++ "\x7d: " ++ q.toTyping.text ++ ";"

/-- The lines of properties and qualified properties. -/
def members (ps : List Property) (qs : List QualifiedProperty) : List String :=
  ps.map (indented ∘ property) ++ qs.map (indented ∘ qualified)

/-- The lines of a class. -/
def ofClass (c : Class) : List String :=
  let views :=
    if c.exposed.isEmpty && c.exposedQualified.isEmpty then []
    else indented "// from associations" :: members c.exposed c.exposedQualified
  let replaced :=
    if c.replaced.isEmpty then []
    else [indented ("// original milestoned: " ++ Text.join ", " (c.replaced.map (·.name)))]
  ["Class " ++ stereotypes c.stereotypes ++ c.path, "\x7b"] ++
    members c.properties c.qualified ++ views ++ replaced ++ ["\x7d"]

/-- The lines of an association. -/
def ofAssociation (a : Association) : List String :=
  ["Association " ++ a.path, "\x7b"] ++ members a.properties a.qualified ++ ["\x7d"]

/-- The lines of a model: each element and a blank line, classes first, both by path. -/
def ofModel (m : Model) : List String :=
  m.classes.entries.flatMap (fun c => ofClass c ++ [""]) ++
    m.associations.entries.flatMap (fun a => ofAssociation a ++ [""])

end Listing

/-- The listing of one class. -/
def Class.listing (c : Class) : String :=
  Listing.finished (Listing.ofClass c)

/-- The listing of a model. -/
def Model.listing (m : Model) : String :=
  Listing.finished (Listing.ofModel m)

end Bitemporal
