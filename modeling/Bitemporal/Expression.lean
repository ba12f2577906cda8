/-
Bitemporal/Expression.lean

Typed expression trees.

The body of a qualified property is a list of expressions.  Every node carries
its typing.  Two kinds of node need a word:

* `filter` binds a variable: its `Binder` holds what a lambda has besides its
  body, and `openVariables` lists the names the body takes from outside, the
  enclosing receiver first.
* `navigate` reads a property of its receiver.  The receiver is the first
  argument; the explicit arguments follow.  When dates have been supplied in
  the caller's stead, `written` keeps the arguments that stood there before.
  What a navigation is *called with* is set apart from what it *calls*, the
  `Site`.

`Navigation` is the same data as a structure of its own, for the operations
that concern one navigation.
-/
import Bitemporal.TypeRef
import Bitemporal.Span

namespace Bitemporal

/-- A typed name, as a parameter or as a reference. -/
structure Variable extends Typing where
  name : String
  deriving DecidableEq

/-- The types of a function's parameters and of its result. -/
structure Signature where
  parameters : List Variable
  result : Typing
  deriving DecidableEq

/-- A built-in function: its full descriptor and the name it is called by. -/
structure FunctionRef where
  path : String
  name : String
  deriving DecidableEq

/-- A literal value; a date keeps the form it was written in. -/
inductive Literal
  | date (text : String)
  | string (text : String)
  | integer (value : Int64)
  | boolean (value : Bool)
  deriving DecidableEq

/-- The order comparisons. -/
inductive Comparison
  | lessThan | lessThanEqual
  deriving DecidableEq

/-- The member a navigation calls: a plain property, or a qualified property by its number of
parameters, the receiver among them. -/
inductive Access
  | property
  | qualified (parameterCount : UInt64)
  deriving DecidableEq

/-- What a lambda has besides its body. -/
structure Binder where
  parameter : Variable
  openVariables : List String
  signature : Signature
  deriving DecidableEq

/-- What a navigation calls, and where it stands. -/
structure Site where
  owner : String
  property : String
  access : Access
  span : Option Span
  deriving DecidableEq

/-- A typed expression. -/
inductive Expression
  | reference (name : String) (typing : Typing)
  | literal (value : Literal) (typing : Typing)
  | equal (function : FunctionRef) (left right : Expression) (typing : Typing)
  | compare (function : FunctionRef) (op : Comparison) (left right : Expression) (typing : Typing)
  | conjunction (function : FunctionRef) (operands : List Expression) (typing : Typing)
  | filter (function : FunctionRef) (source : Expression) (binder : Binder) (body : Expression)
      (typing : Typing)
  | navigate (site : Site) (arguments : List Expression) (written : Option (List Expression))
      (typing : Typing)

/-! ### Equality of expressions is decidable -/

namespace Expression

mutual

/-- Whether two expressions are the same tree. -/
def same : Expression → Expression → Bool
  | reference n t, reference n' t' => n == n' && t == t'
  | literal v t, literal v' t' => v == v' && t == t'
  | equal f l r t, equal f' l' r' t' => f == f' && same l l' && same r r' && t == t'
  | compare f o l r t, compare f' o' l' r' t' =>
    f == f' && o == o' && same l l' && same r r' && t == t'
  | conjunction f os t, conjunction f' os' t' => f == f' && sameList os os' && t == t'
  | filter f s b e t, filter f' s' b' e' t' =>
    f == f' && same s s' && b == b' && same e e' && t == t'
  | navigate s as w t, navigate s' as' w' t' =>
    s == s' && sameList as as' && sameWritten w w' && t == t'
  | _, _ => false

/-- Whether two lists of expressions are the same. -/
def sameList : List Expression → List Expression → Bool
  | [], [] => true
  | a :: as, b :: bs => same a b && sameList as bs
  | _, _ => false

/-- Whether two records of written arguments are the same. -/
def sameWritten : Option (List Expression) → Option (List Expression) → Bool
  | none, none => true
  | some as, some bs => sameList as bs
  | _, _ => false

end

mutual

theorem same_iff : ∀ a b : Expression, same a b = true ↔ a = b
  | reference n t, b => by cases b <;> simp [same]
  | literal v t, b => by cases b <;> simp [same]
  | equal f l r t, b => by
    cases b <;> simp [same, same_iff l, same_iff r, and_assoc]
  | compare f o l r t, b => by
    cases b <;> simp [same, same_iff l, same_iff r, and_assoc]
  | conjunction f os t, b => by
    cases b <;> simp [same, sameList_iff os, and_assoc]
  | filter f s bd e t, b => by
    cases b <;> simp [same, same_iff s, same_iff e, and_assoc]
  | navigate s as w t, b => by
    cases b <;> simp [same, sameList_iff as, sameWritten_iff w, and_assoc]

theorem sameList_iff : ∀ as bs : List Expression, sameList as bs = true ↔ as = bs
  | [], bs => by cases bs <;> simp [sameList]
  | a :: as, bs => by
    cases bs <;> simp [sameList, same_iff a, sameList_iff as]

theorem sameWritten_iff : ∀ v w : Option (List Expression), sameWritten v w = true ↔ v = w
  | none, w => by cases w <;> simp [sameWritten]
  | some as, w => by cases w <;> simp [sameWritten, sameList_iff as]

end

instance : DecidableEq Expression := fun a b =>
  decidable_of_iff (same a b = true) (same_iff a b)

/-- The typing of an expression. -/
def typing : Expression → Typing
  | reference _ t => t
  | literal _ t => t
  | equal _ _ _ t => t
  | compare _ _ _ _ t => t
  | conjunction _ _ t => t
  | filter _ _ _ _ t => t
  | navigate _ _ _ t => t

/-- A date literal. -/
def date (text : String) : Expression :=
  literal (.date text) .date

end Expression

namespace Variable

/-- A variable that holds one date. -/
def date (name : String) : Variable :=
  { Typing.date with name := name }

/-- The expression that refers to a variable. -/
def reference (v : Variable) : Expression :=
  .reference v.name v.toTyping

end Variable

/-! ### Navigations -/

/-- One navigation: what it calls, what it is called with, and what it was called with as
written. -/
structure Navigation extends Site where
  arguments : List Expression
  written : Option (List Expression) := none
  deriving DecidableEq

namespace Navigation

/-- A call of a plain property. -/
def plain (owner property : String) (receiver : Expression) (explicit : List Expression) :
    Navigation :=
  { owner, property, access := .property, span := none, arguments := receiver :: explicit }

/-- The receiver. -/
def receiver? (n : Navigation) : Option Expression :=
  n.arguments.head?

/-- The arguments after the receiver. -/
def explicit (n : Navigation) : List Expression :=
  n.arguments.tail

/-- The navigation as an expression. -/
def toExpression (n : Navigation) (t : Typing) : Expression :=
  .navigate n.toSite n.arguments n.written t

end Navigation

namespace Expression

/-- The navigation that an expression is, if it is one. -/
def navigation? : Expression → Option Navigation
  | navigate s as w _ => some { toSite := s, arguments := as, written := w }
  | _ => none

@[simp] theorem navigation?_toExpression (n : Navigation) (t : Typing) :
    (n.toExpression t).navigation? = some n := rfl

end Expression

end Bitemporal
