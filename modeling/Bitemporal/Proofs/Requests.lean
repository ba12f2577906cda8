/-
Bitemporal/Proofs/Requests.lean

Tables that know less.

Everything that is generated is made of symbols, and a compilation asks its
table for each of them when it is needed: for dates, for every part of every
accessor, for what is in force at the start of a body.  It looks at the table in
no other way.  So of two tables of which one knows less (`Symbols.PartOf`) it
gets the same answers, or it stops at the first request that only the larger one
can serve (`Stops`).

One step is a request (`Stops.type` and its like); a computation that goes from
request to request stops if one of its steps does (`Stops.bind`), and so does a
run of such computations (`Stops.forEach`).  Main statement: a table that lacks
some of the built-in symbols makes no difference, or it stops a compilation, and
then the model is left as it was (`Model.incomplete_of_compile`).  What it must
know is the short list `Symbol.requested`.
-/
import Bitemporal.Proofs.Table

namespace Bitemporal

/-! ### Symbols and tables -/

/-- What a table can be asked for. -/
inductive Symbol
  | type (name : String)
  | multiplicity (name : String)
  | function (path : String)
  | stereotype (profile value : String)
  deriving DecidableEq

/-- The fault that a table does not know a symbol. -/
def Symbol.unknown : Symbol → Fault
  | type name => .unknownSymbol .type name
  | multiplicity name => .unknownSymbol .multiplicity name
  | function path => .unknownSymbol .function path
  | stereotype profile value => .unknownSymbol .stereotype (Symbols.stereotypeName profile value)

/-- The symbols that compilations ask for. -/
def Symbol.requested : List Symbol :=
  [.type "Date", .type "Boolean",
    .multiplicity "one", .multiplicity "zeroone", .multiplicity "zeromany",
    .function Builtin.equal, .function Builtin.conjunction, .function Builtin.filter,
    .function Builtin.lessThan, .function Builtin.lessThanEqual,
    .stereotype Naming.milestoningProfile Naming.generatedTag,
    .stereotype Naming.milestoningProfile Naming.generatedDateTag]

namespace Symbols

/-- Whether a table knows a symbol. -/
def Knows (s : Symbols) : Symbol → Prop
  | .type name => (s.type? name).isSome
  | .multiplicity name => (s.multiplicity? name).isSome
  | .function path => (s.function? path).isSome
  | .stereotype profile value => (s.stereotype? profile value).isSome

instance (s : Symbols) : DecidablePred s.Knows := fun symbol => by
  cases symbol <;> exact inferInstanceAs (Decidable (_ = true))

/-- A table that answers every request as another one does, or not at all. -/
structure PartOf (s t : Symbols) : Prop where
  type? : ∀ name, s.type? name = t.type? name ∨ s.type? name = none
  multiplicity? : ∀ name, s.multiplicity? name = t.multiplicity? name ∨ s.multiplicity? name = none
  function? : ∀ path, s.function? path = t.function? path ∨ s.function? path = none
  stereotype? : ∀ profile value,
    s.stereotype? profile value = t.stereotype? profile value ∨ s.stereotype? profile value = none

/-- Hiding symbols leaves a part of a table. -/
theorem partOf_without (s : Symbols) (hidden : List (SymbolKind × String)) :
    (s.without hidden).PartOf s where
  type? _ := (ite_eq_or_eq _ _ _).symm
  multiplicity? _ := (ite_eq_or_eq _ _ _).symm
  function? _ := (ite_eq_or_eq _ _ _).symm
  stereotype? _ _ := (ite_eq_or_eq _ _ _).symm

/-- A symbol that compilations ask for, that `t` knows and that `s` does not. -/
def Misses (s t : Symbols) (symbol : Symbol) : Prop :=
  symbol ∈ Symbol.requested ∧ t.Knows symbol ∧ ¬ s.Knows symbol

end Symbols

/-! ### Stopping -/

/-- A computation with the table `s` comes to what it comes to with `t`, or stops at a symbol that `s`
misses. -/
inductive Stops (s t : Symbols) {α : Type} : Except Fault α → Except Fault α → Prop
  | same (x : Except Fault α) : Stops s t x x
  | missing {symbol : Symbol} (h : s.Misses t symbol) (y : Except Fault α) :
    Stops s t (.error symbol.unknown) y

namespace Stops

variable {s t : Symbols} {α β : Type}

/-- One computation after another stops where the first or the second does. -/
theorem bind {x y : Except Fault α} {f g : α → Except Fault β} (h : Stops s t x y)
    (hfg : ∀ a, Stops s t (f a) (g a)) : Stops s t (x >>= f) (y >>= g) := by
  cases h with
  | missing hmisses => exact .missing hmisses _
  | same =>
    rcases x with fault | a
    · exact .same _
    · exact hfg a

theorem mapM {f g : α → Except Fault β} (l : List α) (h : ∀ a ∈ l, Stops s t (f a) (g a)) :
    Stops s t (l.mapM f) (l.mapM g) := by
  induction l with
  | nil => exact .same _
  | cons a l ih =>
    rw [List.mapM_cons, List.mapM_cons]
    refine (h a List.mem_cons_self).bind fun b => ?_
    exact (ih fun a ha => h a (List.mem_cons_of_mem _ ha)).bind fun bs => .same _

/-- A run over items stops where one of its steps does. -/
theorem forEach {ι : Type} {f g : Model → ι → Except Fault (Model × Nat)}
    (h : ∀ m item, Stops s t (f m item) (g m item)) (m : Model) (items : List ι) :
    Stops s t (Model.forEach f m items) (Model.forEach g m items) := by
  -- the fold is generalised over what it starts from
  have aux : ∀ start : Model × Nat, Stops s t (items.foldlM (Model.countingStep f) start)
      (items.foldlM (Model.countingStep g) start) := by
    induction items with
    | nil => exact fun start => .same _
    | cons item items ih =>
      intro start
      rw [List.foldlM_cons, List.foldlM_cons]
      exact ((h start.1 item).bind fun _ => .same _).bind ih
  rw [Model.forEach_eq, Model.forEach_eq]
  exact aux (m, 0)

/-! ### Requests -/

/-- **One request** is answered as by the other table, or it is the one that is not served. -/
theorem answer {symbol : Symbol} {kind : SymbolKind} {name : String} {x y : Option α}
    (hrequested : symbol ∈ Symbol.requested) (hunknown : symbol.unknown = .unknownSymbol kind name)
    (hs : s.Knows symbol ↔ x.isSome = true) (ht : t.Knows symbol ↔ y.isSome = true)
    (h : x = y ∨ x = none) :
    Stops s t (Symbols.answer kind name x) (Symbols.answer kind name y) := by
  rcases h with rfl | rfl
  · exact .same _
  · rcases y with - | a
    · exact .same _
    · have hmisses : s.Misses t symbol := ⟨hrequested, ht.2 rfl, fun hknown => by cases hs.1 hknown⟩
      have hstops := Stops.missing hmisses (Symbols.answer kind name (some a))
      rw [hunknown] at hstops
      exact hstops

variable (h : s.PartOf t)

include h

theorem type {name : String} (hname : .type name ∈ Symbol.requested) :
    Stops s t (s.type name) (t.type name) :=
  answer hname rfl .rfl .rfl (h.type? name)

theorem multiplicity {name : String} (hname : .multiplicity name ∈ Symbol.requested) :
    Stops s t (s.multiplicity name) (t.multiplicity name) :=
  answer hname rfl .rfl .rfl (h.multiplicity? name)

theorem function {path : String} (hpath : .function path ∈ Symbol.requested) :
    Stops s t (s.function path) (t.function path) :=
  answer hpath rfl .rfl .rfl (h.function? path)

theorem stereotype {profile value : String} (hvalue : .stereotype profile value ∈ Symbol.requested) :
    Stops s t (s.stereotype profile value) (t.stereotype profile value) :=
  answer hvalue rfl .rfl .rfl (h.stereotype? profile value)

theorem dateType : Stops s t s.dateType t.dateType :=
  type h (by decide)

theorem one : Stops s t s.one t.one :=
  multiplicity h (by decide)

end Stops

/-! ### Accessors -/

namespace Edge

variable {s t : Symbols} (h : s.PartOf t) (e : Edge)

include h

theorem stops_versionDate (version : Variable) (axis : Axis) :
    Stops s t (e.versionDate s version axis) (e.versionDate t version axis) :=
  (Stops.dateType h).bind fun _ => (Stops.one h).bind fun _ => .same _

omit e in
theorem stops_truth : Stops s t (truth s) (truth t) :=
  (Stops.type h (by decide)).bind fun _ => (Stops.one h).bind fun _ => .same _

theorem stops_dateEquals (version : Variable) (axis : Axis) (date : Variable) :
    Stops s t (e.dateEquals s version axis date) (e.dateEquals t version axis date) := by
  refine (Stops.function h (by decide)).bind fun _ => ?_
  refine (e.stops_versionDate h version axis).bind fun _ => ?_
  exact (stops_truth h).bind fun _ => .same _

omit e in
theorem stops_inOrder (op : Comparison) (left right : Expression) :
    Stops s t (inOrder s op left right) (inOrder t op left right) := by
  cases op with
  | lessThan =>
    exact (Stops.function h (by decide)).bind fun _ => (stops_truth h).bind fun _ => .same _
  | lessThanEqual =>
    exact (Stops.function h (by decide)).bind fun _ => (stops_truth h).bind fun _ => .same _

theorem stops_conditions (version : Variable) (dates : List Variable) (form : AccessorForm) :
    Stops s t (e.conditions s version dates form) (e.conditions t version dates form) := by
  have hequals : Stops s t
      ((e.shape.axes.zip dates).mapM fun x => e.dateEquals s version x.1 x.2)
      ((e.shape.axes.zip dates).mapM fun x => e.dateEquals t version x.1 x.2) :=
    Stops.mapM _ fun x _ => e.stops_dateEquals h version x.1 x.2
  rcases form with - | - | (- | -)
  · exact hequals
  · exact hequals
  · refine (Stops.dateType h).bind fun _ => ?_
    exact (e.stops_dateEquals h version _ _).bind fun _ => .same _
  · refine (Stops.dateType h).bind fun _ => ?_
    refine (e.stops_versionDate h version _).bind fun _ => ?_
    refine (stops_inOrder h _ _ _).bind fun _ => ?_
    refine (e.stops_versionDate h version _).bind fun _ => ?_
    exact (stops_inOrder h _ _ _).bind fun _ => .same _

omit e in
theorem stops_conjunction (conditions : List Expression) :
    Stops s t (conjunction s conditions) (conjunction t conditions) := by
  have hseveral : Stops s t
      (do
        let function ← s.function Builtin.conjunction
        return Expression.conjunction function conditions (← truth s))
      (do
        let function ← t.function Builtin.conjunction
        return Expression.conjunction function conditions (← truth t)) :=
    (Stops.function h (by decide)).bind fun _ => (stops_truth h).bind fun _ => .same _
  rcases conditions with - | ⟨condition, - | ⟨next, rest⟩⟩
  · exact hseveral
  · exact .same _
  · exact hseveral

theorem stops_body (this : Variable) (dates : List Variable) (form : AccessorForm) :
    Stops s t (e.body s this dates form) (e.body t this dates form) := by
  refine (Stops.one h).bind fun one => ?_
  refine (Stops.multiplicity h (by decide)).bind fun many => ?_
  refine (Stops.type h (by decide)).bind fun boolean => ?_
  refine (e.stops_conditions h _ dates form).bind fun conditions => ?_
  refine (stops_conjunction h conditions).bind fun predicate => ?_
  exact (Stops.function h (by decide)).bind fun _ => .same _

/-- **Building an accessor.** -/
theorem stops_accessor (form : AccessorForm) : Stops s t (e.accessor s form) (e.accessor t form) := by
  refine (Stops.dateType h).bind fun dateType => ?_
  refine (Stops.one h).bind fun one => ?_
  -- what follows name and multiplicity is the same for all forms
  have hrest : ∀ (this : Variable) (dates : List Variable)
      (f : Expression → Stereotype → QualifiedProperty),
      Stops s t
        (do
          let body ← e.body s this dates form
          let tag ← s.stereotype Naming.milestoningProfile Naming.generatedTag
          return f body tag)
        (do
          let body ← e.body t this dates form
          let tag ← t.stereotype Naming.milestoningProfile Naming.generatedTag
          return f body tag) := fun this dates f =>
    (e.stops_body h this dates form).bind fun _ =>
      (Stops.stereotype h (by decide)).bind fun _ => .same _
  rcases form with - | - | filter
  · exact hrest _ _ _
  · exact hrest _ _ _
  · exact (Stops.multiplicity h (by decide)).bind fun many => hrest _ _ _

end Edge

/-! ### Stages -/

namespace Model

variable {s t : Symbols} (h : s.PartOf t)

include h

theorem stops_milestone (m : Model) (filter : RangeFilter) (members : Members)
    (sourceOf : Property → Option String) :
    Stops s t (m.milestone s filter members sourceOf) (m.milestone t filter members sourceOf) := by
  refine (Stops.stereotype h (by decide)).bind fun tag => ?_
  refine (Stops.mapM _ fun e _ => ?_).bind fun accessors => .same _
  exact Stops.mapM _ fun form _ => e.stops_accessor h form

theorem stops_milestoneClass (m : Model) (filter : RangeFilter) (path : String) :
    Stops s t (m.milestoneClass s filter path) (m.milestoneClass t filter path) := by
  rw [milestoneClass, milestoneClass]
  rcases m.class? path with - | c
  · exact .same _
  · exact (m.stops_milestone h filter c.toMembers _).bind fun done => .same _

theorem stops_milestoneAssociation (m : Model) (filter : RangeFilter) (path : String) :
    Stops s t (m.milestoneAssociation s filter path) (m.milestoneAssociation t filter path) := by
  rw [milestoneAssociation, milestoneAssociation]
  rcases m.association? path with - | a
  · exact .same _
  · exact (m.stops_milestone h filter a.toMembers _).bind fun done => .same _

theorem stops_synthesizeAt (m : Model) (recorded : String × Shape) :
    Stops s t (synthesizeAt s m recorded) (synthesizeAt t m recorded) := by
  obtain ⟨path, shape⟩ := recorded
  rw [synthesizeAt, synthesizeAt]
  rcases m.class? path with - | c
  · exact .same _
  have hproperties : Stops s t (c.dateProperties s shape) (c.dateProperties t shape) := by
    refine (Stops.stereotype h (by decide)).bind fun tag => ?_
    refine (Stops.dateType h).bind fun dateType => ?_
    refine (Stops.one h).bind fun one => ?_
    exact (Stops.multiplicity h (by decide)).bind fun zeroOne => .same _
  exact (hproperties.bind fun properties => .same _).bind fun added => .same _

theorem stops_dateBody (m : Model) (q : QualifiedProperty) :
    Stops s t (m.dateBody s q) (m.dateBody t q) := by
  have hambient : Stops s t (m.receiverAmbient s q) (m.receiverAmbient t q) := by
    rw [receiverAmbient, receiverAmbient]
    rcases q.signature.parameters.head? with - | this
    · exact .same _
    dsimp only
    rcases m.resolve? this.type with - | c
    · exact .same _
    dsimp only
    rcases c.shape? with - | shape
    · exact .same _
    exact (Stops.dateType h).bind fun _ => (Stops.one h).bind fun _ => .same _
  rw [dateBody, dateBody]
  split
  · exact .same _
  · exact hambient.bind fun ambient => .same _

theorem stops_dateBodies (m : Model) (qs : List QualifiedProperty) :
    Stops s t (m.dateBodies s qs) (m.dateBodies t qs) :=
  (Stops.mapM qs fun q _ => m.stops_dateBody h q).bind fun _ => .same _

theorem stops_dateClass (m : Model) (path : String) :
    Stops s t (dateClass s m path) (dateClass t m path) := by
  rw [dateClass, dateClass]
  rcases m.class? path with - | c
  · exact .same _
  · exact (m.stops_dateBodies h c.qualified).bind fun dated => .same _

theorem stops_dateAssociation (m : Model) (path : String) :
    Stops s t (dateAssociation s m path) (dateAssociation t m path) := by
  rw [dateAssociation, dateAssociation]
  rcases m.association? path with - | a
  · exact .same _
  · exact (m.stops_dateBodies h a.qualified).bind fun dated => .same _

/-- **A compilation** with a table that knows less. -/
theorem stops_compile (m : Model) (settings : Settings) :
    Stops s t (m.compile s settings) (m.compile t settings) := by
  rw [compile, compile]
  refine (Stops.same (m.classify settings.strictShapes)).bind fun classes => ?_
  refine (Stops.forEach (stops_synthesizeAt h) m _).bind fun (m, _) => ?_
  refine (Stops.forEach (fun m path => m.stops_milestoneClass h _ path) m _).bind fun (m, _) => ?_
  refine (Stops.forEach (fun m path => m.stops_milestoneAssociation h _ path) m _).bind
    fun (m, _) => ?_
  refine (Stops.forEach (stops_dateClass h) m _).bind fun (m, _) => ?_
  exact (Stops.forEach (stops_dateAssociation h) m _).bind fun (m, _) => .same _

omit h

/-- **Symbols that are missing stop a compilation or make no difference.**  With a table that answers
every request as the table of all built-in symbols does, or not at all, a compilation has the same
fault, or the same report and the same model; or else it stops at a symbol that the table does not
know, one of the few that compilations ask for, and leaves the model as it was. -/
theorem incomplete_of_compile {s : Symbols} (h : s.PartOf .builtin) (m : Model) (settings : Settings) :
    (m.compile s settings = m.compile .builtin settings ∧
      (compileInPlace s settings).on m = (compileInPlace .builtin settings).on m) ∨
    ∃ symbol, s.Misses .builtin symbol ∧ m.compile s settings = .error symbol.unknown ∧
      (compileInPlace s settings).on m = (.error symbol.unknown, m) := by
  have hstops := m.stops_compile h settings
  rw [compileInPlace_on, compileInPlace_on]
  generalize m.compile s settings = x at hstops ⊢
  cases hstops with
  | same => exact .inl ⟨rfl, rfl⟩
  | missing hmisses => exact .inr ⟨_, hmisses, rfl, rfl⟩

/-- A class of items with their parents, both in their versions of business time. -/
def catalogue : Model :=
  ofDocument { classes := [{
    path := "m::Item"
    stereotypes := [.resolved temporalProfile Shape.business.name]
    properties := [{
      name := "parent", type := .ofClass "m::Item", multiplicity := .zeroOne
      owner := .ofClass "m::Item" }] }] }

/-- Without the strict order of dates the model compiles as with all symbols, unless ranges are to be
half-open: then it is left as it was. -/
theorem catalogue_incomplete :
    let s := Symbols.builtin.without [(.function, Builtin.lessThan)]
    s.PartOf .builtin ∧ catalogue.compile s {} = catalogue.compile .builtin {} ∧
      catalogue.compile s { rangeFilter := .halfOpen } =
        .error (.unknownSymbol .function Builtin.lessThan) ∧
      (compileInPlace s { rangeFilter := .halfOpen }).on catalogue =
        (.error (.unknownSymbol .function Builtin.lessThan), catalogue) := by
  intro s
  have hpart : s.PartOf .builtin := Symbols.builtin.partOf_without _
  have hcompiles : (catalogue.compile s {}).toBool = true := by decide +kernel
  have hstops : (catalogue.compile s { rangeFilter := .halfOpen }).toBool = false := by
    decide +kernel
  have hbuiltin : (catalogue.compile .builtin { rangeFilter := .halfOpen }).toBool = true := by
    decide +kernel
  refine ⟨hpart, ?_, ?_⟩
  · rcases incomplete_of_compile hpart catalogue {} with ⟨hsame, -⟩ | ⟨symbol, -, herror, -⟩
    · exact hsame
    · rw [herror] at hcompiles
      cases hcompiles
  · rcases incomplete_of_compile hpart catalogue { rangeFilter := .halfOpen } with
      ⟨hsame, -⟩ | ⟨symbol, ⟨hrequested, -, hunknown⟩, herror, hleft⟩
    · rw [hsame, hbuiltin] at hstops
      cases hstops
    · have honly : ∀ symbol ∈ Symbol.requested, ¬ s.Knows symbol →
          symbol = .function Builtin.lessThan := by decide
      obtain rfl := honly symbol hrequested hunknown
      exact ⟨herror, hleft⟩

end Model

end Bitemporal
