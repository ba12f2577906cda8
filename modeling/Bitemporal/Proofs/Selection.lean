/-
Bitemporal/Proofs/Selection.lean

Which versions the generated accessors select.

The trees of this library have typings but no values.  Here they get values in
a *store*, which says what an object holds under a name: a variable has the
value its environment gives it, a plain navigation reads what its receiver
holds, and a filter keeps those elements of its source, in order, for which
its body is true with the binder's parameter bound to them.

A store holds an edge (`Edge.Stored`) if the receiver holds the versions under
the name of the edge point, and each of these holds its dates.  Nothing else is
assumed of the store, nor anything of the classes at the ends of the edge.
Over such a store `accessors_select` says what each form of accessor comes to.
Parameters are bound by position while the conditions refer to them by name, so
that the order of the parameters is part of the proof (`ofParameters_axis`); and
the binder of the filter captures none of them, which is where the names of
`Naming` are compared.
-/
import Bitemporal.Proofs.Builtin
import Mathlib.Order.Lattice

namespace Bitemporal

/-! ### Values -/

/-- What an expression can come to. -/
inductive Value (Obj Time : Type)
  | date (time : Time)
  | object (object : Obj)
  | collection (objects : List Obj)
  | truth (value : Bool)
  deriving DecidableEq

/-- What the objects hold, and what literals stand for. -/
structure Store (Obj Time : Type) where
  field : Obj → String → Option (Value Obj Time)
  literal : Literal → Option (Value Obj Time)

/-- The values of the variables in scope. -/
def Env (Obj Time : Type) : Type :=
  String → Option (Value Obj Time)

variable {Obj Time : Type}

namespace Value

/-- The truth value that a value is. -/
def truth? : Value Obj Time → Option Bool
  | truth b => some b
  | _ => none

/-- The collection that a value is. -/
def collection? : Value Obj Time → Option (List Obj)
  | collection os => some os
  | _ => none

end Value

namespace Env

/-- No variable is in scope. -/
def empty : Env Obj Time := fun _ => none

/-- Brings a variable into scope, in front of others of its name. -/
def bind (env : Env Obj Time) (name : String) (value : Value Obj Time) : Env Obj Time :=
  fun n => if n = name then some value else env n

/-- The scope of a body: each parameter with the value at its position. -/
def ofParameters (parameters : List Variable) (values : List (Value Obj Time)) : Env Obj Time :=
  (parameters.zip values).foldr (fun (v, value) env => env.bind v.name value) empty

@[simp] theorem bind_self (env : Env Obj Time) (name : String) (value : Value Obj Time) :
    env.bind name value name = some value := if_pos rfl

theorem bind_of_ne (env : Env Obj Time) {n name : String} (h : n ≠ name)
    (value : Value Obj Time) : env.bind name value n = env n := if_neg h

/-- Where the parameters have names of their own, each is found at its position. -/
theorem ofParameters_map {α : Type} {l : List α} {name : α → String} {type : α → Typing}
    {value : α → Value Obj Time} (hl : (l.map name).Nodup) {a : α} (ha : a ∈ l) :
    ofParameters (l.map fun a => { type a with name := name a }) (l.map value) (name a) =
      some (value a) := by
  induction l with
  | nil => cases ha
  | cons b l ih =>
    obtain ⟨hb, hl⟩ := List.nodup_cons.1 hl
    show (ofParameters _ _).bind (name b) (value b) (name a) = _
    rcases List.mem_cons.1 ha with rfl | ha
    · exact bind_self _ _ _
    · rw [bind_of_ne, ih hl ha]
      exact fun he => hb (he ▸ List.mem_map_of_mem ha)

end Env

/-! ### Evaluation -/

/-- The elements of a list that pass a test, in order, provided that the test has a result on
each. -/
def keep {α : Type} (test : α → Option Bool) : List α → Option (List α)
  | [] => some []
  | a :: rest => do
    let passes ← test a
    let kept ← keep test rest
    return if passes then a :: kept else kept

theorem keep_eq_filter {α : Type} {test : α → Option Bool} {p : α → Bool} {l : List α}
    (h : ∀ a ∈ l, test a = some (p a)) : keep test l = some (l.filter p) := by
  induction l with
  | nil => rfl
  | cons a l ih =>
    have hl := ih fun b hb => h b (List.mem_cons_of_mem a hb)
    rw [keep, h a List.mem_cons_self, hl]
    rcases hp : p a with - | -
    · rw [List.filter_cons_of_neg (by simp [hp])]
      rfl
    · rw [List.filter_cons_of_pos hp]
      rfl

/-- Whether two dates are in order. -/
def Comparison.holds [LinearOrder Time] : Comparison → Time → Time → Bool
  | .lessThan, a, b => a < b
  | .lessThanEqual, a, b => a ≤ b

/-- A comparison is one of dates. -/
def Comparison.apply [LinearOrder Time] (op : Comparison) :
    Value Obj Time → Value Obj Time → Option (Value Obj Time)
  | .date a, .date b => some (.truth (op.holds a b))
  | _, _ => none

namespace Store

/-- A plain navigation reads what its receiver, one object, holds under its name. -/
def read (s : Store Obj Time) (site : Site) : List (Value Obj Time) → Option (Value Obj Time)
  | [.object o] => if site.access = .property then s.field o site.property else none
  | _ => none

variable [DecidableEq Obj] [LinearOrder Time]

mutual

/-- The value of an expression. -/
def eval (s : Store Obj Time) (env : Env Obj Time) : Expression → Option (Value Obj Time)
  | .reference n _ => env n
  | .literal v _ => s.literal v
  | .equal _ l r _ => do
    let left ← s.eval env l
    let right ← s.eval env r
    return .truth (left = right)
  | .compare _ op l r _ => do
    let left ← s.eval env l
    let right ← s.eval env r
    op.apply left right
  | .conjunction _ os _ => do
    let values ← s.evalAll env os
    let truths ← values.mapM Value.truth?
    return .truth (truths.all id)
  | .filter _ source binder body _ => do
    let objects ← (← s.eval env source).collection?
    let kept ← keep (fun o => do
      (← s.eval (env.bind binder.parameter.name (.object o)) body).truth?) objects
    return .collection kept
  | .navigate site as _ _ => do
    s.read site (← s.evalAll env as)

/-- The values of the expressions of a list. -/
def evalAll (s : Store Obj Time) (env : Env Obj Time) :
    List Expression → Option (List (Value Obj Time))
  | [] => some []
  | e :: es => do
    let value ← s.eval env e
    let values ← s.evalAll env es
    return value :: values

end

/-- The value of a body: that of its last expression. -/
def evalBody (s : Store Obj Time) (env : Env Obj Time) (body : List Expression) :
    Option (Value Obj Time) :=
  body.getLast?.bind (s.eval env)

/-- The value of a qualified property for arguments, the receiver first.  Arguments are taken by
position, one for each parameter. -/
def call (s : Store Obj Time) (q : QualifiedProperty) (arguments : List (Value Obj Time)) :
    Option (Value Obj Time) :=
  if arguments.length = q.arity then
    s.evalBody (.ofParameters q.signature.parameters arguments) q.body
  else none

variable {s : Store Obj Time} {env : Env Obj Time}

theorem eval_equal {f : FunctionRef} {l r : Expression} {t : Typing} {a b : Value Obj Time}
    (hl : s.eval env l = some a) (hr : s.eval env r = some b) :
    s.eval env (.equal f l r t) = some (.truth (a = b)) := by
  rw [eval, hl, hr]
  rfl

theorem eval_compare {f : FunctionRef} {op : Comparison} {l r : Expression} {t : Typing}
    {a b : Time} (hl : s.eval env l = some (.date a)) (hr : s.eval env r = some (.date b)) :
    s.eval env (.compare f op l r t) = some (.truth (op.holds a b)) := by
  rw [eval, hl, hr]
  rfl

theorem eval_conjunction {f : FunctionRef} {t : Typing} {conditions : List Expression}
    {truths : List Bool}
    (h : List.Forall₂ (fun c b => s.eval env c = some (.truth b)) conditions truths) :
    s.eval env (.conjunction f conditions t) = some (.truth (truths.all id)) := by
  have hvalues : s.evalAll env conditions = some (truths.map .truth) := by
    induction h with
    | nil => rfl
    | cons hc _ ih =>
      rw [evalAll, hc, ih]
      rfl
  have htruths : (truths.map (@Value.truth Obj Time)).mapM Value.truth? =
      some truths := by
    clear h hvalues
    induction truths with
    | nil => rfl
    | cons b rest ih =>
      rw [List.map_cons, List.mapM_cons, ih]
      rfl
  rw [eval, hvalues, Option.bind_eq_bind, Option.bind_some, htruths]
  rfl

/-- Where every condition has a truth value, so has what they are joined to. -/
theorem eval_conjunctionOf {conditions : List Expression} {truths : List Bool}
    (h : List.Forall₂ (fun c b => s.eval env c = some (.truth b)) conditions truths) :
    s.eval env (Edge.conjunctionOf conditions) = some (.truth (truths.all id)) := by
  rcases h with - | ⟨hc, - | ⟨hd, h⟩⟩
  · exact eval_conjunction .nil
  · -- a single condition stands for itself
    rw [Edge.conjunctionOf, hc, List.all_cons, List.all_nil, Bool.and_true]
    rfl
  · exact eval_conjunction (.cons hc (.cons hd h))

end Store

/-- Whether a range filter selects a version of this date. -/
def RangeFilter.selects [LinearOrder Time] (start finish date : Time) : RangeFilter → Bool
  | .startEquality => date = start
  | .halfOpen => start ≤ date ∧ date < finish

/-! ### Edges in a store -/

namespace Axis

theorem name_injective : Function.Injective name := by
  intro x y h
  cases x <;> cases y <;> first | rfl | exact absurd h (by decide)

theorem name_ne_version (axis : Axis) : axis.name ≠ Naming.version := by
  cases axis <;> decide

theorem name_ne_this (axis : Axis) : axis.name ≠ Naming.this := by
  cases axis <;> decide

end Axis

namespace Edge

variable [DecidableEq Obj] [LinearOrder Time]

/-- The receiver holds the versions of an edge, and each of these its dates. -/
structure Stored (e : Edge) (s : Store Obj Time) (this : Obj) (versions : List Obj)
    (dateOf : Obj → Axis → Time) : Prop where
  edgePoint : s.field this (Naming.edgePoint e.property.name) = some (.collection versions)
  dates : ∀ v ∈ versions, ∀ axis ∈ e.shape.axes,
    s.field v axis.name = some (.date (dateOf v axis))

variable {e : Edge} {s : Store Obj Time} {env : Env Obj Time} {this : Obj} {versions : List Obj}
  {dateOf : Obj → Axis → Time}

namespace Stored

variable (stored : e.Stored s this versions dateOf)
include stored

theorem eval_versionsOf (hthis : env Naming.this = some (.object this)) :
    s.eval env e.versionsOf = some (.collection versions) := by
  show (do s.read _ (← s.evalAll env [(e.this .one).reference])) = _
  have hreceiver : s.eval env (e.this .one).reference = some (.object this) := hthis
  rw [Store.evalAll, hreceiver]
  exact stored.edgePoint

theorem eval_versionDateOf {v : Obj} (hv : v ∈ versions) {axis : Axis}
    (haxis : axis ∈ e.shape.axes) :
    s.eval (env.bind Naming.version (.object v)) (e.versionDateOf axis) =
      some (.date (dateOf v axis)) := by
  show (do s.read _ (← s.evalAll _ [e.version.reference])) = _
  have hversion : s.eval (env.bind Naming.version (.object v)) e.version.reference =
      some (.object v) := Env.bind_self env _ _
  rw [Store.evalAll, hversion]
  exact stored.dates v hv axis haxis

/-- An accessor keeps the versions for which its predicate is true. -/
theorem eval_bodyOf (hthis : env Naming.this = some (.object this)) {form : AccessorForm}
    {p : Obj → Bool} (hp : ∀ v ∈ versions,
      s.eval (env.bind Naming.version (.object v)) (e.predicateOf form) = some (.truth (p v))) :
    s.eval env (e.bodyOf form) = some (.collection (versions.filter p)) := by
  have hkept : keep (fun o => do
      (← s.eval (env.bind Naming.version (.object o)) (e.predicateOf form)).truth?) versions =
        some (versions.filter p) := by
    refine keep_eq_filter fun v hv => ?_
    rw [hp v hv]
    rfl
  rw [bodyOf, Store.eval, stored.eval_versionsOf hthis]
  show (do return Value.collection (← keep (fun o => do
    (← s.eval (env.bind Naming.version (.object o)) (e.predicateOf form)).truth?) versions)) = _
  rw [hkept]
  rfl

/-- The predicate of the date accessors, where the variables named after the axes hold dates. -/
theorem eval_dateEqualsOf {v : Obj} (hv : v ∈ versions) {axis : Axis} (haxis : axis ∈ e.shape.axes)
    {name : String} (hname : name ≠ Naming.version) {date : Time}
    (hdate : env name = some (.date date)) :
    s.eval (env.bind Naming.version (.object v)) (e.dateEqualsOf axis (.date name)) =
      some (.truth (dateOf v axis = date)) := by
  have hright : s.eval (env.bind Naming.version (.object v)) (Variable.date name).reference =
      some (.date date) := by
    show env.bind Naming.version (.object v) name = _
    rw [Env.bind_of_ne env hname, hdate]
  rw [dateEqualsOf, Store.eval_equal (stored.eval_versionDateOf hv haxis) hright]
  simp only [Value.date.injEq]

/-- The dates of a version on every axis, each against the variable named after the axis. -/
theorem eval_dateConditions {v : Obj} (hv : v ∈ versions) {given : Axis → Time}
    (hgiven : ∀ axis ∈ e.shape.axes, env axis.name = some (.date (given axis))) :
    s.eval (env.bind Naming.version (.object v)) (conjunctionOf
        (e.shape.axes.map fun axis => e.dateEqualsOf axis (.date axis.name))) =
      some (.truth (∀ axis ∈ e.shape.axes, dateOf v axis = given axis : Bool)) := by
  have hconditions : List.Forall₂
      (fun c b => s.eval (env.bind Naming.version (.object v)) c = some (.truth b))
      (e.shape.axes.map fun axis => e.dateEqualsOf axis (.date axis.name))
      (e.shape.axes.map fun axis => decide (dateOf v axis = given axis)) := by
    rw [List.forall₂_map_left_iff, List.forall₂_map_right_iff]
    refine List.forall₂_same.2 fun axis haxis => ?_
    exact stored.eval_dateEqualsOf hv haxis axis.name_ne_version (hgiven axis haxis)
  rw [Store.eval_conjunctionOf hconditions, List.all_map, List.all_eq]
  simp only [Function.comp, id, decide_eq_true_eq]

end Stored

/-- Both forms of date accessors compare the date on an axis with the variable named after it. -/
theorem conditionsOf_allDates (e : Edge) : e.conditionsOf .allDates =
    e.shape.axes.map fun axis => e.dateEqualsOf axis (.date axis.name) := by
  obtain ⟨source, target, shape, property⟩ := e
  cases shape <;> rfl

theorem conditionsOf_noDates (e : Edge) : e.conditionsOf .noDates =
    e.shape.axes.map fun axis => e.dateEqualsOf axis (.date axis.name) :=
  e.conditionsOf_allDates

namespace Stored

variable (stored : e.Stored s this versions dateOf)
include stored

/-- The dates accessors, in a scope where the receiver and the dates are in place. -/
theorem eval_bodyOf_dates (hthis : env Naming.this = some (.object this)) {given : Axis → Time}
    (hgiven : ∀ axis ∈ e.shape.axes, env axis.name = some (.date (given axis)))
    {form : AccessorForm} (hform : e.conditionsOf form =
      e.shape.axes.map fun axis => e.dateEqualsOf axis (.date axis.name)) :
    s.eval env (e.bodyOf form) = some (.collection
      (versions.filter fun v => ∀ axis ∈ e.shape.axes, dateOf v axis = given axis)) := by
  refine stored.eval_bodyOf hthis fun v hv => ?_
  rw [predicateOf, hform]
  exact stored.eval_dateConditions hv hgiven

/-- A range accessor, in a scope where the receiver and both dates are in place. -/
theorem eval_bodyOf_range (hthis : env Naming.this = some (.object this)) {start finish : Time}
    (hstart : env Naming.rangeStart = some (.date start))
    (hfinish : env Naming.rangeEnd = some (.date finish)) (filter : RangeFilter) :
    s.eval env (e.bodyOf (.range filter)) = some (.collection
      (versions.filter fun v => filter.selects start finish (dateOf v e.shape.primary))) := by
  have hprimary : e.shape.primary ∈ e.shape.axes := List.mem_of_mem_head? e.shape.axes_head
  refine stored.eval_bodyOf hthis fun v hv => ?_
  rcases filter with - | -
  · exact stored.eval_dateEqualsOf hv hprimary (by decide) hstart
  · -- neither date is captured by the binder
    have hdate : s.eval (env.bind Naming.version (.object v)) (e.versionDateOf e.shape.primary) =
        some (.date (dateOf v e.shape.primary)) := stored.eval_versionDateOf hv hprimary
    have hsince : s.eval (env.bind Naming.version (.object v))
        (Variable.date Naming.rangeStart).reference = some (.date start) := by
      show env.bind Naming.version (.object v) Naming.rangeStart = _
      rw [Env.bind_of_ne env (by decide), hstart]
    have hbefore : s.eval (env.bind Naming.version (.object v))
        (Variable.date Naming.rangeEnd).reference = some (.date finish) := by
      show env.bind Naming.version (.object v) Naming.rangeEnd = _
      rw [Env.bind_of_ne env (by decide), hfinish]
    have hboth : List.Forall₂
        (fun c b => s.eval (env.bind Naming.version (.object v)) c = some (.truth b))
        (e.conditionsOf (.range .halfOpen))
        [decide (start ≤ dateOf v e.shape.primary), decide (dateOf v e.shape.primary < finish)] :=
      .cons (Store.eval_compare hsince hdate) (.cons (Store.eval_compare hdate hbefore) .nil)
    rw [predicateOf, Store.eval_conjunctionOf hboth, RangeFilter.selects, Bool.decide_and]
    simp only [List.all_cons, List.all_nil, id, Bool.and_true]

end Stored

/-! ### Calls -/

theorem call_accessorOf {form : AccessorForm} {arguments : List (Value Obj Time)}
    (h : arguments.length = e.accessorArity form) : s.call (e.accessorOf form) arguments =
      s.eval (.ofParameters (e.accessorParameters form) arguments) (e.bodyOf form) := by
  rw [Store.call, if_pos (h.trans (e.accessorOf_arity form).symm)]
  rfl

omit [DecidableEq Obj] [LinearOrder Time] in
/-- The parameters of the accessor that takes all dates are its receiver and one for each axis,
under the name of the axis; called by position, each date comes under its own. -/
theorem ofParameters_axis (e : Edge) (this : Obj) (given : Axis → Time) {axis : Axis}
    (haxis : axis ∈ e.shape.axes) :
    Env.ofParameters (e.accessorParameters .allDates)
      (.object this :: e.shape.axes.map fun axis => .date (given axis)) axis.name =
        some (.date (given axis)) := by
  have hnames : (e.shape.axes.map Axis.name).Nodup :=
    e.shape.axes_nodup.map Axis.name_injective
  have hdates : e.datesOf .allDates =
      e.shape.axes.map fun axis => { Typing.date with name := axis.name } := by
    show (e.shape.axes.map Axis.name).map Variable.date = _
    rw [List.map_map]
    rfl
  show (Env.ofParameters (e.datesOf .allDates) _).bind Naming.this (.object this) axis.name = _
  rw [Env.bind_of_ne _ axis.name_ne_this, hdates, Env.ofParameters_map hnames haxis]

/-- **What the generated accessors select.**  Over a store that holds an edge, the accessor that
takes all dates, called by position, and the one that takes none, where the dates of the shape are
in scope, come to the versions whose date on every axis is the given one.  The range accessor comes
to the versions whose first date is the start, whatever the end, or lies from the start, included,
to the end, excluded. -/
theorem accessors_select {e : Edge} {s : Store Obj Time} {this : Obj} {versions : List Obj}
    {dateOf : Obj → Axis → Time} (stored : e.Stored s this versions dateOf) :
    (∀ given : Axis → Time, ∃ q, e.accessor .builtin .allDates = .ok q ∧
      s.call q (.object this :: e.shape.axes.map fun axis => .date (given axis)) =
        some (.collection
          (versions.filter fun v => ∀ axis ∈ e.shape.axes, dateOf v axis = given axis))) ∧
    (∀ (given : Axis → Time) (env : Env Obj Time), env Naming.this = some (.object this) →
      (∀ axis ∈ e.shape.axes, env axis.name = some (.date (given axis))) →
        ∃ q, e.accessor .builtin .noDates = .ok q ∧ s.evalBody env q.body =
          some (.collection
            (versions.filter fun v => ∀ axis ∈ e.shape.axes, dateOf v axis = given axis))) ∧
    (∀ start finish : Time, ∃ q, e.accessor .builtin (.range .startEquality) = .ok q ∧
      s.call q [.object this, .date start, .date finish] =
        some (.collection (versions.filter fun v => dateOf v e.shape.primary = start))) ∧
    ∀ start finish : Time, ∃ q, e.accessor .builtin (.range .halfOpen) = .ok q ∧
      s.call q [.object this, .date start, .date finish] =
        some (.collection (versions.filter fun v =>
          start ≤ dateOf v e.shape.primary ∧ dateOf v e.shape.primary < finish)) := by
  have hrange : ∀ (filter : RangeFilter) (start finish : Time),
      s.call (e.accessorOf (.range filter)) [.object this, .date start, .date finish] =
        some (.collection
          (versions.filter fun v => filter.selects start finish (dateOf v e.shape.primary))) := by
    intro filter start finish
    rw [call_accessorOf rfl]
    exact stored.eval_bodyOf_range rfl rfl rfl filter
  refine ⟨?_, ?_, ?_, ?_⟩
  · intro given
    refine ⟨_, e.accessor_builtin _, ?_⟩
    rw [call_accessorOf (by simp [accessorArity, Nat.add_comm])]
    exact stored.eval_bodyOf_dates rfl (fun axis haxis => e.ofParameters_axis this given haxis)
      e.conditionsOf_allDates
  · intro given env hthis hgiven
    exact ⟨_, e.accessor_builtin _, stored.eval_bodyOf_dates hthis hgiven e.conditionsOf_noDates⟩
  · intro start finish
    exact ⟨_, e.accessor_builtin _, hrange .startEquality start finish⟩
  · intro start finish
    exact ⟨_, e.accessor_builtin _, hrange .halfOpen start finish⟩

/-- The addresses of a person, along both axes. -/
def residence : Edge where
  source := "registry::Person"
  target := "registry::Address"
  shape := .bitemporal
  property := {
    type := .ofClass "registry::Address"
    multiplicity := .one
    name := "address"
    owner := .ofClass "registry::Person" }

/-- Three versions of an address, in force from one date on and recorded at another. -/
def residenceDate (version : Nat) : Axis → Nat
  | .processing => 10 * version
  | .business => version % 2

/-- The store of one person with these versions. -/
def registry : Store Nat Nat where
  field o name :=
    if name = "addressAllVersions" then some (.collection [1, 2, 3])
    else (Axis.ofName? name).map fun axis => .date (residenceDate o axis)
  literal _ := none

/-- The versions that each form selects from the registry. -/
theorem accessors_select_residence :
    residence.Stored registry 0 [1, 2, 3] residenceDate ∧
    (∃ q, residence.accessor .builtin .allDates = .ok q ∧
      registry.call q [.object 0, .date 30, .date 1] = some (.collection [3])) ∧
    (∃ q, residence.accessor .builtin .noDates = .ok q ∧
      registry.evalBody
          (((Env.empty.bind "businessDate" (.date 0)).bind "processingDate" (.date 20)).bind
            "this" (.object 0)) q.body =
        some (.collection [2])) ∧
    (∃ q, residence.accessor .builtin (.range .startEquality) = .ok q ∧
      registry.call q [.object 0, .date 10, .date 30] = some (.collection [1])) ∧
    ∃ q, residence.accessor .builtin (.range .halfOpen) = .ok q ∧
      registry.call q [.object 0, .date 10, .date 30] = some (.collection [1, 2]) := by
  have stored : residence.Stored registry 0 [1, 2, 3] residenceDate :=
    ⟨rfl, by decide⟩
  obtain ⟨hall, hnone, hstart, hopen⟩ := accessors_select stored
  refine ⟨stored, hall (residenceDate 3), ?_, hstart 10 30, hopen 10 30⟩
  refine hnone (residenceDate 2) _ rfl fun axis haxis => ?_
  cases axis <;> rfl

end Edge

end Bitemporal
