/-
Bitemporal/Expression/Text.lean

The text of an expression.

Operators stand between their operands without parentheses: trees are built
from source text, and their text is for reading, not for parsing again.  A
navigation shows its arguments in parentheses if it has explicit ones, or if
it is known to call a qualified property.
-/
import Bitemporal.Expression

namespace Bitemporal

/-- The text of a literal: a date after a percent sign, a string in single quotation marks. -/
def Literal.text : Literal → String
  | date d => "%" ++ d
  | string s => "'" ++ s ++ "'"
  | integer n => n.toInt.repr
  | boolean true => "true"
  | boolean false => "false"

/-- The sign of a comparison. -/
def Comparison.sign : Comparison → String
  | lessThan => "<"
  | lessThanEqual => "<="

/-- The types of the parameters, an arrow and the type of the result, in braces. -/
def Signature.text (s : Signature) : String :=
  "\x7b" ++ Text.join ", " (s.parameters.map fun p => p.toTyping.text) ++ "->" ++
    s.result.text ++ "\x7d"

namespace Expression

/-- The text of a call, from the texts of its arguments, the receiver first. -/
def callText (site : Site) (arguments : List String) : String :=
  let callee := match arguments with
    | [] => site.property
    | receiver :: _ => receiver ++ "." ++ site.property
  if arguments.tail.isEmpty && site.access == .property then callee
  else callee ++ "(" ++ Text.join ", " arguments.tail ++ ")"

mutual

/-- The text of an expression. -/
def text : Expression → String
  | reference n _ => "$" ++ n
  | literal v _ => v.text
  | equal _ l r _ => text l ++ " == " ++ text r
  | compare _ o l r _ => text l ++ " " ++ o.sign ++ " " ++ text r
  | conjunction _ os _ => Text.join " && " (texts os)
  | filter _ s b e _ => text s ++ "->filter(" ++ b.parameter.name ++ "|" ++ text e ++ ")"
  | navigate site as _ _ => callText site (texts as)

/-- The texts of the expressions of a list. -/
def texts : List Expression → List String
  | [] => []
  | e :: es => text e :: texts es

end

end Expression

end Bitemporal
