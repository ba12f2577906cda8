/-
Bitemporal/Proofs/Builtin.lean

The table of all built-in symbols answers every request of a compilation.

With `Symbols.builtin` nothing that builds generated members can fail, and
what it builds is written down here without the requests: the accessor of an
edge (`Edge.accessorOf`), the date properties of a class (`Class.withDates`)
and the milestoned members of an element (`Model.milestonedMembers`).
-/
import Bitemporal.Proofs.Frame
import Bitemporal.Proofs.Fresh

namespace Bitemporal

/-- The stereotype on edge points and generated accessors. -/
def Stereotype.generated : Stereotype :=
  .resolved Naming.milestoningProfile Naming.generatedTag

/-- The stereotype on generated date properties. -/
def Stereotype.generatedDate : Stereotype :=
  .resolved Naming.milestoningProfile Naming.generatedDateTag

/-- One truth value. -/
def Typing.truth : Typing :=
  ⟨.primitive .boolean, .one⟩

namespace Symbols

@[simp] theorem builtin_dateType : builtin.dateType = .ok .date := rfl

@[simp] theorem builtin_one : builtin.one = .ok .one := rfl

@[simp] theorem builtin_zeroOne : builtin.multiplicity "zeroone" = .ok .zeroOne := rfl

@[simp] theorem builtin_generated :
    builtin.stereotype Naming.milestoningProfile Naming.generatedTag = .ok .generated := rfl

@[simp] theorem builtin_generatedDate :
    builtin.stereotype Naming.milestoningProfile Naming.generatedDateTag = .ok .generatedDate := rfl

end Symbols

/-! ### Accessors -/

namespace Edge

/-- The version that a generated filter looks at. -/
def version (e : Edge) : Variable :=
  { name := Naming.version, type := e.property.type, multiplicity := .one }

/-- The date of that version on an axis. -/
def versionDateOf (e : Edge) (axis : Axis) : Expression :=
  (Navigation.plain e.target axis.name e.version.reference []).toExpression .date

/-- The condition that this date equals a variable. -/
def dateEqualsOf (e : Edge) (axis : Axis) (date : Variable) : Expression :=
  .equal ⟨Builtin.equal, "eq"⟩ (e.versionDateOf axis) date.reference .truth

/-- The variables that the predicate of an accessor may refer to. -/
def datesOf (e : Edge) (form : AccessorForm) : List Variable :=
  (e.dateNames form).map .date

/-- The conditions that select versions. -/
def conditionsOf (e : Edge) : AccessorForm → List Expression
  | .range .startEquality => [e.dateEqualsOf e.shape.primary (.date Naming.rangeStart)]
  | .range .halfOpen =>
    [.compare ⟨Builtin.lessThanEqual, "lessThanEqual"⟩ .lessThanEqual
        (Variable.date Naming.rangeStart).reference (e.versionDateOf e.shape.primary) .truth,
      .compare ⟨Builtin.lessThan, "lessThan"⟩ .lessThan
        (e.versionDateOf e.shape.primary) (Variable.date Naming.rangeEnd).reference .truth]
  | form => (e.shape.axes.zip (e.datesOf form)).map fun (axis, date) => e.dateEqualsOf axis date

/-- The conjunction of conditions; a single one stands for itself. -/
def conjunctionOf : List Expression → Expression
  | [condition] => condition
  | conditions => .conjunction ⟨Builtin.conjunction, "and"⟩ conditions .truth

/-- The predicate of an accessor. -/
def predicateOf (e : Edge) (form : AccessorForm) : Expression :=
  conjunctionOf (e.conditionsOf form)

/-- What an accessor's filter binds. -/
def binderOf (e : Edge) (form : AccessorForm) : Binder where
  parameter := e.version
  openVariables :=
    Naming.this :: ((e.datesOf form).map (·.name)).filter (e.predicateOf form).freeVariables.contains
  signature := { parameters := [e.version], result := .truth }

/-- The versions that an accessor filters. -/
def versionsOf (e : Edge) : Expression :=
  (Navigation.plain e.source (Naming.edgePoint e.property.name)
    (e.this .one).reference []).toExpression ⟨e.property.type, e.property.multiplicity.widened⟩

/-- The body of an accessor. -/
def bodyOf (e : Edge) (form : AccessorForm) : Expression :=
  .filter ⟨Builtin.filter, "filter"⟩ e.versionsOf (e.binderOf form) (e.predicateOf form)
    ⟨e.property.type, .zeroMany⟩

/-- The name of an accessor. -/
def accessorName (e : Edge) : AccessorForm → String
  | .range _ => Naming.range e.property.name
  | _ => e.property.name

/-- The typing of an accessor. -/
def accessorTyping (e : Edge) : AccessorForm → Typing
  | .range _ => ⟨e.property.type, .zeroMany⟩
  | _ => e.property.toTyping

/-- The parameters of an accessor. -/
def accessorParameters (e : Edge) : AccessorForm → List Variable
  | .noDates => [e.this .one]
  | form => e.this .one :: e.datesOf form

/-- The accessor of a form. -/
def accessorOf (e : Edge) (form : AccessorForm) : QualifiedProperty where
  toTyping := e.accessorTyping form
  toAnnotations := e.property.toAnnotations.tagged .generated
  name := e.accessorName form
  owner := e.property.owner
  signature := { parameters := e.accessorParameters form, result := e.accessorTyping form }
  body := [e.bodyOf form]

/-- A condition compares the date of a version on an axis with a date of the accessor. -/
theorem mem_conditionsOf {e : Edge} {form : AccessorForm} {condition : Expression}
    (h : condition ∈ e.conditionsOf form) : ∃ axis ∈ e.shape.axes, ∃ date ∈ e.datesOf form,
      condition = e.dateEqualsOf axis date ∨
      condition = .compare ⟨Builtin.lessThanEqual, "lessThanEqual"⟩ .lessThanEqual date.reference
        (e.versionDateOf axis) .truth ∨
      condition = .compare ⟨Builtin.lessThan, "lessThan"⟩ .lessThan (e.versionDateOf axis)
        date.reference .truth := by
  have hprimary : e.shape.primary ∈ e.shape.axes := List.mem_of_mem_head? e.shape.axes_head
  have hequals : ∀ dates : List Variable,
      condition ∈ (e.shape.axes.zip dates).map (fun (axis, date) => e.dateEqualsOf axis date) →
        ∃ axis ∈ e.shape.axes, ∃ date ∈ dates, condition = e.dateEqualsOf axis date := by
    intro dates hmem
    obtain ⟨⟨axis, date⟩, hzip, rfl⟩ := List.mem_map.1 hmem
    exact ⟨axis, (List.of_mem_zip hzip).1, date, (List.of_mem_zip hzip).2, rfl⟩
  rcases form with - | - | (- | -)
  · obtain ⟨axis, haxis, date, hdate, rfl⟩ := hequals _ h
    exact ⟨axis, haxis, date, hdate, .inl rfl⟩
  · obtain ⟨axis, haxis, date, hdate, rfl⟩ := hequals _ h
    exact ⟨axis, haxis, date, hdate, .inl rfl⟩
  · obtain rfl := List.mem_singleton.1 h
    exact ⟨_, hprimary, _, List.mem_cons_self, .inl rfl⟩
  · rcases List.mem_pair.1 h with rfl | rfl
    · exact ⟨_, hprimary, _, List.mem_cons_self, .inr (.inl rfl)⟩
    · exact ⟨_, hprimary, _, List.mem_cons_of_mem _ List.mem_cons_self, .inr (.inr rfl)⟩

/-- With all built-in symbols an accessor can always be built. -/
theorem accessor_builtin (e : Edge) (form : AccessorForm) :
    e.accessor .builtin form = .ok (e.accessorOf form) := by
  obtain ⟨source, target, shape, property⟩ := e
  rcases form with - | - | filter
  · cases shape <;> rfl
  · cases shape <;> rfl
  · cases filter <;> rfl

variable (e : Edge) (form : AccessorForm)

@[simp] theorem accessorOf_name : (e.accessorOf form).name = e.accessorName form := rfl

@[simp] theorem accessorOf_owner : (e.accessorOf form).owner = e.property.owner := rfl

@[simp] theorem accessorOf_type : (e.accessorOf form).type = e.property.type := by
  rcases form with - | - | filter <;> rfl

@[simp] theorem isGenerated_accessorOf : (e.accessorOf form).isGenerated = true := by
  show (e.property.toAnnotations.tagged .generated).hasStereotype Naming.generatedTag = true
  rw [Annotations.hasStereotype_tagged, Bool.or_eq_true]
  exact .inr rfl

/-- The number of parameters of a form: the receiver, and its dates. -/
def accessorArity (e : Edge) : AccessorForm → Nat
  | .allDates => 1 + e.shape.axes.length
  | .noDates => 1
  | .range _ => 3

@[simp] theorem accessorOf_arity : (e.accessorOf form).arity = e.accessorArity form := by
  rcases form with - | - | filter
  · show (e.this .one :: (e.shape.dateNames.map .date)).length = _
    rw [List.length_cons, List.length_map, Shape.dateNames, List.length_map, Nat.add_comm]
    rfl
  · rfl
  · rfl

/-! ### Edge points -/

variable (p : Property)

@[simp] theorem edgePoint_type (t : Stereotype) : (edgePoint p t).type = p.type := rfl

@[simp] theorem edgePoint_owner (t : Stereotype) : (edgePoint p t).owner = p.owner := rfl

@[simp] theorem edgePoint_name (t : Stereotype) :
    (edgePoint p t).name = Naming.edgePoint p.name := rfl

@[simp] theorem isEdgePoint_edgePoint : (edgePoint p .generated).isEdgePoint = true := by
  show (p.toAnnotations.tagged .generated).hasStereotype Naming.generatedTag = true
  rw [Annotations.hasStereotype_tagged, Bool.or_eq_true]
  exact .inr rfl

@[simp] theorem isGenerated_edgePoint : (edgePoint p .generated).isGenerated = true := by
  rw [Property.isGenerated, isEdgePoint_edgePoint, Bool.true_or]

end Edge

/-! ### Date properties -/

namespace Class

/-- The date properties of a class of the given shape. -/
def datePropertiesOf (c : Class) (shape : Shape) : List Property :=
  shape.dateNames.map (fun name => c.dateProperty .generatedDate name .date) ++
    [c.dateProperty .generatedDate Naming.rangeProperty ⟨.ofClass shape.rangeClass, .zeroOne⟩]

/-- The class with the date properties its shape asks for. -/
def withDates (c : Class) : Class :=
  match c.shape? with
  | none => c
  | some shape => { c with properties := (c.datePropertiesOf shape).foldl Property.addNamed c.properties }

theorem addDateProperties_builtin {c : Class} {shape : Shape} (h : c.shape? = some shape) :
    c.addDateProperties .builtin shape =
      .ok (c.withDates, c.withDates.properties.length - c.properties.length) := by
  obtain ⟨new, hnamed, hcounted⟩ :=
    foldl_addNewCounted Property.sameName (c.datePropertiesOf shape) c.properties 0
  rw [Nat.zero_add] at hcounted
  have hdates : c.withDates = { c with properties := c.properties ++ new } := by
    rw [withDates, h, ← hnamed]
    rfl
  have hgenerated : c.dateProperties .builtin shape = .ok (c.datePropertiesOf shape) := rfl
  rw [addDateProperties, hgenerated, hdates, List.length_append, Nat.add_sub_cancel_left]
  show Except.ok _ = _
  rw [hcounted]

@[simp] theorem withDates_frame (c : Class) : c.withDates.frame = c.frame := by
  rw [withDates]
  split <;> rfl

@[simp] theorem withDates_path (c : Class) : c.withDates.path = c.path :=
  congrArg Prod.fst c.withDates_frame

@[simp] theorem withDates_qualified (c : Class) : c.withDates.qualified = c.qualified := by
  rw [withDates]
  split <;> rfl

@[simp] theorem withDates_replaced (c : Class) : c.withDates.replaced = c.replaced := by
  rw [withDates]
  split <;> rfl

@[simp] theorem withDates_exposed (c : Class) : c.withDates.exposed = c.exposed := by
  rw [withDates]
  split <;> rfl

@[simp] theorem withDates_exposedQualified (c : Class) :
    c.withDates.exposedQualified = c.exposedQualified := by
  rw [withDates]
  split <;> rfl

@[simp] theorem withDates_span (c : Class) : c.withDates.span = c.span := by
  rw [withDates]
  split <;> rfl

theorem withDates_of_shape {c : Class} {shape : Shape} (h : c.shape? = some shape) :
    c.withDates =
      { c with properties := (c.datePropertiesOf shape).foldl Property.addNamed c.properties } := by
  rw [withDates, h]

theorem withDates_of_none {c : Class} (h : c.shape? = none) : c.withDates = c := by
  rw [withDates, h]

end Class

/-! ### Milestoned members -/

namespace Model

/-- The edges among some members. -/
def edgesOf (m : Model) (sourceOf : Property → Option String) (members : Members) : List Edge :=
  members.properties.filterMap (m.edge? sourceOf)

theorem edgesOf_frame {m m' : Model} (h : m'.frame = m.frame) (sourceOf : Property → Option String)
    (members : Members) : m'.edgesOf sourceOf members = m.edgesOf sourceOf members :=
  List.filterMap_congr fun p _ => edge?_frame h sourceOf p

/-- The accessors of an edge, in the order of their forms. -/
def accessorsOf (m : Model) (filter : RangeFilter) (e : Edge) : List QualifiedProperty :=
  (accessorForms (m.shapeAt? e.source) e.shape filter).map e.accessorOf

/-- What milestoning makes of some members. -/
def milestonedMembers (m : Model) (filter : RangeFilter) (sourceOf : Property → Option String)
    (members : Members) : Members where
  properties := members.properties.map fun p =>
    if (m.edge? sourceOf p).isSome then Edge.edgePoint p .generated else p
  qualified :=
    ((m.edgesOf sourceOf members).flatMap (m.accessorsOf filter)).foldl
      (addNew QualifiedProperty.sameKey) members.qualified
  replaced :=
    ((m.edgesOf sourceOf members).map (·.property)).foldl Property.addNamed members.replaced

/-- With all built-in symbols milestoning cannot fail. -/
theorem milestone_builtin (m : Model) (filter : RangeFilter) (members : Members)
    (sourceOf : Property → Option String) :
    ∃ done, m.milestone .builtin filter members sourceOf = .ok done ∧
      done.members = m.milestonedMembers filter sourceOf members ∧
      done.names = (m.edgesOf sourceOf members).map (·.property.name) := by
  have hforms : ∀ e ∈ m.edgesOf sourceOf members,
      m.accessors .builtin filter e = .ok (m.accessorsOf filter e) :=
    fun e _ => mapM_eq_ok fun form _ => e.accessor_builtin form
  have hall := mapM_eq_ok hforms
  rw [edgesOf] at hall
  obtain ⟨added, hadded, hcounted⟩ := foldl_addNewCounted QualifiedProperty.sameKey
    ((m.edgesOf sourceOf members).flatMap (m.accessorsOf filter)) members.qualified 0
  rw [milestone, Symbols.builtin_generated]
  refine ⟨_, bind_eq_ok.2 ⟨_, rfl, bind_eq_ok.2 ⟨_, hall, rfl⟩⟩, ?_, rfl⟩
  dsimp only
  rw [← edgesOf, ← List.flatMap_def, hcounted, milestonedMembers, hadded]

/-- Where there are no edges, milestoning changes nothing. -/
theorem milestonedMembers_of_edgesOf_eq_nil {m : Model} {filter : RangeFilter}
    {sourceOf : Property → Option String} {members : Members}
    (h : m.edgesOf sourceOf members = []) : m.milestonedMembers filter sourceOf members = members := by
  have hnone := List.filterMap_eq_nil_iff.1 h
  obtain ⟨properties, qualified, replaced⟩ := members
  have hproperties : properties.map (fun p =>
      if (m.edge? sourceOf p).isSome then Edge.edgePoint p .generated else p) = properties := by
    have hid : ∀ p ∈ properties,
        (if (m.edge? sourceOf p).isSome then Edge.edgePoint p .generated else p) = p := by
      intro p hp
      rw [hnone p hp]
      rfl
    rw [List.map_congr_left hid, List.map_id']
  rw [milestonedMembers, h]
  simp only [hproperties]
  rfl

/-- Milestoning depends on the frame only. -/
theorem milestonedMembers_frame {m m' : Model} (h : m'.frame = m.frame) (filter : RangeFilter)
    (sourceOf : Property → Option String) (members : Members) :
    m'.milestonedMembers filter sourceOf members = m.milestonedMembers filter sourceOf members := by
  have he : m'.edge? sourceOf = m.edge? sourceOf := funext fun p => edge?_frame h sourceOf p
  have hs : m'.shapeAt? = m.shapeAt? := funext fun p => shapeAt?_frame h p
  have ha : m'.accessorsOf filter = m.accessorsOf filter := by
    funext e
    rw [accessorsOf, accessorsOf, hs]
  rw [milestonedMembers, milestonedMembers, edgesOf, edgesOf, he, ha]

end Model

end Bitemporal
