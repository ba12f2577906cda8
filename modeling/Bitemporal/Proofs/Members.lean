/-
Bitemporal/Proofs/Members.lean

What milestoning makes of the members of an element.

Every edge among the properties becomes an edge point in its place, so that no
edge is left (`edgesOf_milestonedMembers`).  Behind the qualified properties
and the replaced properties stand those accessors and those edges whose keys
were not taken, of equal keys the first (`milestonedMembers_qualified`,
`milestonedMembers_replaced`).
-/
import Bitemporal.Proofs.Fresh
import Bitemporal.Proofs.Stages

namespace Bitemporal

namespace Model

variable {m : Model} {filter : RangeFilter} {sourceOf : Property → Option String} {members : Members}

/-! ### Edges -/

theorem mem_edgesOf {e : Edge} :
    e ∈ m.edgesOf sourceOf members ↔ ∃ p ∈ members.properties, m.edge? sourceOf p = some e :=
  List.mem_filterMap

theorem property_of_edge? {p : Property} {e : Edge} (h : m.edge? sourceOf p = some e) :
    e.property = p :=
  (edge?_eq_some_iff.1 h).2.2.2

theorem mem_properties_of_mem_edgesOf {e : Edge} (h : e ∈ m.edgesOf sourceOf members) :
    e.property ∈ members.properties := by
  obtain ⟨p, hp, he⟩ := mem_edgesOf.1 h
  rw [property_of_edge? he]
  exact hp

/-- The properties that are edges. -/
theorem map_property_edgesOf : (m.edgesOf sourceOf members).map (·.property) =
    members.properties.filter fun p => (m.edge? sourceOf p).isSome := by
  rw [edgesOf, List.map_filterMap, ← List.filterMap_eq_filter]
  refine List.filterMap_congr fun p _ => ?_
  rcases he : m.edge? sourceOf p with - | e
  · simp [Option.guard, he]
  · simp [Option.guard, he, property_of_edge? he]

/-- An edge leads to the shape of its property's type. -/
theorem shapeOf?_of_mem_edgesOf {e : Edge} (h : e ∈ m.edgesOf sourceOf members) :
    m.shapeOf? e.property.type = some e.shape := by
  obtain ⟨p, -, he⟩ := mem_edgesOf.1 h
  obtain ⟨-, ⟨c, hc, hs, -⟩, -, rfl⟩ := edge?_eq_some_iff.1 he
  rw [shapeOf?, hc]
  exact hs

theorem sourceOf_of_mem_edgesOf {e : Edge} (h : e ∈ m.edgesOf sourceOf members) :
    sourceOf e.property = some e.source := by
  obtain ⟨p, -, he⟩ := mem_edgesOf.1 h
  obtain ⟨-, -, hs, rfl⟩ := edge?_eq_some_iff.1 he
  exact hs

theorem edge?_of_isGenerated {p : Property} (h : p.isGenerated = true) : m.edge? sourceOf p = none := by
  rw [edge?, temporalTarget?, if_pos h]
  rfl

/-! ### Properties -/

theorem mem_milestonedMembers_properties {p' : Property} :
    p' ∈ (m.milestonedMembers filter sourceOf members).properties ↔
      ∃ p ∈ members.properties,
        (if (m.edge? sourceOf p).isSome then Edge.edgePoint p .generated else p) = p' :=
  List.mem_map

/-- A property that milestoning leaves is no edge. -/
theorem edge?_of_mem_milestonedMembers {p : Property}
    (h : p ∈ (m.milestonedMembers filter sourceOf members).properties) : m.edge? sourceOf p = none := by
  obtain ⟨p₀, -, rfl⟩ := mem_milestonedMembers_properties.1 h
  split
  · exact edge?_of_isGenerated (Edge.isGenerated_edgePoint p₀)
  · rename_i hnone
    simpa using hnone

/-- Milestoning leaves no edge. -/
theorem edgesOf_milestonedMembers :
    m.edgesOf sourceOf (m.milestonedMembers filter sourceOf members) = [] := by
  rw [edgesOf, List.filterMap_eq_nil_iff]
  exact fun p hp => edge?_of_mem_milestonedMembers hp

/-- Milestoned members are left as they are by milestoning. -/
theorem milestonedMembers_milestonedMembers {filter' : RangeFilter} :
    m.milestonedMembers filter' sourceOf (m.milestonedMembers filter sourceOf members) =
      m.milestonedMembers filter sourceOf members :=
  milestonedMembers_of_edgesOf_eq_nil edgesOf_milestonedMembers

/-- Milestoning keeps the types and owners of properties. -/
theorem map_milestonedMembers_properties {α : Type} (g : TypeRef → Owner → α) :
    (m.milestonedMembers filter sourceOf members).properties.map (fun p => g p.type p.owner) =
      members.properties.map fun p => g p.type p.owner := by
  rw [milestonedMembers, List.map_map]
  refine List.map_congr_left fun p _ => ?_
  rw [Function.comp_apply]
  split <;> rfl

/-! ### Qualified and replaced properties -/

theorem milestonedMembers_qualified :
    (m.milestonedMembers filter sourceOf members).qualified =
      members.qualified ++ news QualifiedProperty.key (members.qualified.map QualifiedProperty.key)
        ((m.edgesOf sourceOf members).flatMap (m.accessorsOf filter)) := by
  rw [milestonedMembers, QualifiedProperty.addNew_sameKey, foldl_putNew]

theorem milestonedMembers_replaced :
    (m.milestonedMembers filter sourceOf members).replaced =
      members.replaced ++ news Property.name (members.replaced.map Property.name)
        ((m.edgesOf sourceOf members).map (·.property)) := by
  rw [milestonedMembers, Property.addNamed_eq, foldl_putNew]

theorem mem_accessorsOf {e : Edge} {q : QualifiedProperty} :
    q ∈ m.accessorsOf filter e ↔
      ∃ form ∈ accessorForms (m.shapeAt? e.source) e.shape filter, e.accessorOf form = q :=
  List.mem_map

/-- What is new among the qualified properties are accessors of edges. -/
theorem mem_milestonedMembers_qualified {q : QualifiedProperty}
    (h : q ∈ (m.milestonedMembers filter sourceOf members).qualified) :
    q ∈ members.qualified ∨ ∃ e ∈ m.edgesOf sourceOf members, q ∈ m.accessorsOf filter e := by
  rw [milestonedMembers_qualified] at h
  refine (List.mem_append.1 h).imp id fun hq => ?_
  exact List.mem_flatMap.1 (mem_of_mem_news hq).1

/-- What is new among the replaced properties are edges. -/
theorem mem_milestonedMembers_replaced {p : Property}
    (h : p ∈ (m.milestonedMembers filter sourceOf members).replaced) :
    p ∈ members.replaced ∨ ∃ e ∈ m.edgesOf sourceOf members, e.property = p := by
  rw [milestonedMembers_replaced] at h
  refine (List.mem_append.1 h).imp id fun hp => ?_
  exact List.mem_map.1 (mem_of_mem_news hp).1

/-- Generated accessors of an edge bear its name or the name of its range accessor, and lead where it
leads. -/
theorem of_mem_accessorsOf {e : Edge} {q : QualifiedProperty} (h : q ∈ m.accessorsOf filter e) :
    q.isGenerated = true ∧ q.type = e.property.type ∧ q.owner = e.property.owner ∧
      (q.name = e.property.name ∨ q.name = Naming.range e.property.name) := by
  obtain ⟨form, -, rfl⟩ := mem_accessorsOf.1 h
  refine ⟨e.isGenerated_accessorOf form, e.accessorOf_type form, rfl, ?_⟩
  rcases form with - | - | filter
  · exact .inl rfl
  · exact .inl rfl
  · exact .inr rfl

end Model

/-! ### Elements -/

section Elements

variable {m : Model} {filter filter' : RangeFilter}

theorem Model.classEdges_milestoned (c : Class) : m.classEdges (c.milestoned m filter) = [] :=
  edgesOf_milestonedMembers

theorem Class.milestoned_milestoned (c : Class) :
    (c.milestoned m filter).milestoned m filter' = c.milestoned m filter :=
  congrArg (fun ms => { c with toMembers := ms }) Model.milestonedMembers_milestonedMembers

/-- Milestoning an association leaves its ends where they lead. -/
theorem Association.memberPaths_milestoned {a : Association} :
    (a.milestoned m filter).memberPaths = a.memberPaths := by
  have hpaths : ∀ ps : List Property,
      (ps.filterMap fun p => p.type.path?) = (ps.map fun p => p.type.path?).filterMap id := by
    intro ps
    rw [List.filterMap_map]
    rfl
  rw [memberPaths, memberPaths, hpaths, hpaths]
  exact congrArg _ (Model.map_milestonedMembers_properties fun t _ => t.path?)

/-- The ends of a milestoned association are exposed on the classes that they were exposed on. -/
theorem Model.exposingClass?_milestoned (a : Association) :
    m.exposingClass? (a.milestoned m filter) = m.exposingClass? a :=
  funext (exposingClass?_of_memberPaths Association.memberPaths_milestoned)

theorem Model.associationEdges_milestoned (a : Association) :
    m.associationEdges (a.milestoned m filter) = [] := by
  rw [associationEdges, exposingClass?_milestoned]
  exact edgesOf_milestonedMembers

/-- The accessors that are new are those of the edges among the ends. -/
theorem Association.milestoned_qualified (m : Model) (filter : RangeFilter) (a : Association) :
    (a.milestoned m filter).qualified =
      a.qualified ++ news QualifiedProperty.key (a.qualified.map QualifiedProperty.key)
        ((m.associationEdges a).flatMap (m.accessorsOf filter)) :=
  Model.milestonedMembers_qualified

theorem Association.milestoned_milestoned (a : Association) :
    (a.milestoned m filter).milestoned m filter' = a.milestoned m filter := by
  rw [milestoned, Model.exposingClass?_milestoned]
  exact congrArg (fun ms => { a with toMembers := ms }) Model.milestonedMembers_milestonedMembers

end Elements

end Bitemporal
