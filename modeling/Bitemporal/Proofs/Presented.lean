/-
Bitemporal/Proofs/Presented.lean

Models as they are written.

A model that no compilation has touched is *pristine*: it has no generated
members and no replaced properties.  In an *owned* model every member names the
element that declares it.  What a class *presents* are the properties it
declares and the ends that associations expose on it; most of what is said of a
compilation asks that their names can be told apart.

The associations of a later model are *forms* of those that were written: their
edges are replaced, and their bodies may have been dated.
-/
import Bitemporal.Proofs.Recompilation
import Mathlib.Data.List.Pairwise

namespace Bitemporal

/-! ### Pristine and owned models -/

/-- Members of which none was generated or replaced. -/
structure Members.Pristine (ms : Members) : Prop where
  properties : ∀ p ∈ ms.properties, p.isGenerated = false
  qualified : ∀ q ∈ ms.qualified, q.isGenerated = false
  replaced : ms.replaced = []

/-- A class with pristine members that shows no generated ones. -/
structure Class.Pristine (c : Class) : Prop where
  members : c.toMembers.Pristine
  exposed : ∀ p ∈ c.exposed, p.isGenerated = false
  exposedQualified : ∀ q ∈ c.exposedQualified, q.isGenerated = false

/-- A model without generated members. -/
structure Model.Pristine (m : Model) : Prop where
  classes : ∀ c ∈ m.classes.entries, c.Pristine
  associations : ∀ a ∈ m.associations.entries, a.toMembers.Pristine

/-- Properties and qualified properties that all name this owner. -/
structure Members.OwnedBy (ms : Members) (o : Owner) : Prop where
  properties : ∀ p ∈ ms.properties, p.owner = o
  qualified : ∀ q ∈ ms.qualified, q.owner = o

/-- A model whose elements own what they declare. -/
structure Model.Owned (m : Model) : Prop where
  classes : ∀ c ∈ m.classes.entries, c.toMembers.OwnedBy (.ofClass c.path)
  associations : ∀ a ∈ m.associations.entries, a.toMembers.OwnedBy (.ofAssociation a.path)

section Decidability

instance : DecidablePred Members.Pristine := fun ms =>
  decidable_of_iff ((∀ p ∈ ms.properties, p.isGenerated = false) ∧
    (∀ q ∈ ms.qualified, q.isGenerated = false) ∧ ms.replaced = [])
    ⟨fun ⟨hp, hq, hr⟩ => ⟨hp, hq, hr⟩, fun ⟨hp, hq, hr⟩ => ⟨hp, hq, hr⟩⟩

instance : DecidablePred Class.Pristine := fun c =>
  decidable_of_iff (c.toMembers.Pristine ∧ (∀ p ∈ c.exposed, p.isGenerated = false) ∧
    ∀ q ∈ c.exposedQualified, q.isGenerated = false)
    ⟨fun ⟨hm, hp, hq⟩ => ⟨hm, hp, hq⟩, fun ⟨hm, hp, hq⟩ => ⟨hm, hp, hq⟩⟩

instance : DecidablePred Model.Pristine := fun m =>
  decidable_of_iff ((∀ c ∈ m.classes.entries, c.Pristine) ∧
    ∀ a ∈ m.associations.entries, a.toMembers.Pristine)
    ⟨fun ⟨hc, ha⟩ => ⟨hc, ha⟩, fun ⟨hc, ha⟩ => ⟨hc, ha⟩⟩

instance (ms : Members) (o : Owner) : Decidable (ms.OwnedBy o) :=
  decidable_of_iff ((∀ p ∈ ms.properties, p.owner = o) ∧ ∀ q ∈ ms.qualified, q.owner = o)
    ⟨fun ⟨hp, hq⟩ => ⟨hp, hq⟩, fun ⟨hp, hq⟩ => ⟨hp, hq⟩⟩

instance : DecidablePred Model.Owned := fun m =>
  decidable_of_iff ((∀ c ∈ m.classes.entries, c.toMembers.OwnedBy (.ofClass c.path)) ∧
    ∀ a ∈ m.associations.entries, a.toMembers.OwnedBy (.ofAssociation a.path))
    ⟨fun ⟨hc, ha⟩ => ⟨hc, ha⟩, fun ⟨hc, ha⟩ => ⟨hc, ha⟩⟩

end Decidability

/-- What milestoning puts in names the owner of the edge that it is made of. -/
theorem Members.OwnedBy.milestoned {m : Model} {filter : RangeFilter}
    {sourceOf : Property → Option String} {ms : Members} {o : Owner} (h : ms.OwnedBy o) :
    (m.milestonedMembers filter sourceOf ms).OwnedBy o where
  properties := by
    intro p hp
    obtain ⟨p₀, hp₀, rfl⟩ := Model.mem_milestonedMembers_properties.1 hp
    split
    · exact h.properties p₀ hp₀
    · exact h.properties p₀ hp₀
  qualified := by
    intro q hq
    rcases Model.mem_milestonedMembers_qualified hq with hq | ⟨e, he, hq⟩
    · exact h.qualified q hq
    · rw [(Model.of_mem_accessorsOf hq).2.2.1]
      exact h.properties _ (Model.mem_properties_of_mem_edgesOf he)

section Generated

variable {q : QualifiedProperty} (hgenerated : q.isGenerated = true)

include hgenerated

theorem Members.Pristine.notMem_qualified {ms : Members} (h : ms.Pristine) : q ∉ ms.qualified := by
  intro hq
  rw [h.qualified q hq] at hgenerated
  cases hgenerated

theorem Class.Pristine.notMem_exposedQualified {c : Class} (h : c.Pristine) :
    q ∉ c.exposedQualified := by
  intro hq
  rw [h.exposedQualified q hq] at hgenerated
  cases hgenerated

/-- The qualified properties that a pristine class has generated are accessors of its edges. -/
theorem Class.Pristine.exists_edge_of_mem_equipped {m : Model} {filter : RangeFilter} {c : Class}
    (h : c.Pristine) (hq : q ∈ (c.equipped m filter).qualified) :
    ∃ e ∈ m.classEdges c, q ∈ m.accessorsOf filter e := by
  rw [Model.equipped_qualified] at hq
  rcases List.mem_append.1 hq with hq | hq
  · exact (h.members.notMem_qualified hgenerated hq).elim
  · exact List.mem_flatMap.1 (mem_of_mem_news hq).1

end Generated

/-! ### What a class presents -/

/-- The properties that a class declares, and the association ends exposed on it. -/
def Model.presented (m : Model) (c : Class) : List Property :=
  c.properties ++ m.associations.entries.flatMap (·.endsOn m c.path)

/-- On each class the names of what it presents are distinct. -/
def Model.NamesDistinct (m : Model) : Prop :=
  ∀ c ∈ m.classes.entries, ((m.presented c).map Property.name).Nodup

instance : DecidablePred Model.NamesDistinct := fun m =>
  inferInstanceAs (Decidable (∀ c ∈ m.classes.entries, ((m.presented c).map Property.name).Nodup))

/-- Names that are distinct, and of which none is the name that another's edge point or range
accessor would bear. -/
def Naming.Apart (names : List String) : Prop :=
  names.Pairwise fun a b => a ≠ b ∧ (a ≠ edgePoint b ∧ b ≠ edgePoint a) ∧ a ≠ range b ∧ b ≠ range a

instance : DecidablePred Naming.Apart := fun names =>
  inferInstanceAs (Decidable (names.Pairwise fun a b =>
    a ≠ b ∧ (a ≠ Naming.edgePoint b ∧ b ≠ Naming.edgePoint a) ∧
      a ≠ Naming.range b ∧ b ≠ Naming.range a))

/-- On each class the names of what it presents are apart. -/
def Model.NamesApart (m : Model) : Prop :=
  ∀ c ∈ m.classes.entries, Naming.Apart ((m.presented c).map Property.name)

instance : DecidablePred Model.NamesApart := fun m =>
  inferInstanceAs
    (Decidable (∀ c ∈ m.classes.entries, Naming.Apart ((m.presented c).map Property.name)))

namespace Naming

/-- The name of a range accessor determines the name it belongs to. -/
theorem range_injective {a b : String} (h : range a = range b) : a = b :=
  (String.append_left_inj rangeEnding).1 h

theorem ne_range (name : String) : name ≠ range name :=
  fun h => absurd (String.append_eq_left_iff.1 h.symm) (by decide)

/-- The name of an edge point determines the name it stands for. -/
theorem edgePoint_injective {a b : String} (h : edgePoint a = edgePoint b) : a = b :=
  (String.append_left_inj edgePointEnding).1 h

theorem ne_edgePoint (name : String) : name ≠ edgePoint name :=
  fun h => absurd (String.append_eq_left_iff.1 h.symm) (by decide)

namespace Apart

variable {names : List String} {a b : String}

theorem nodup (h : Apart names) : names.Nodup :=
  h.imp And.left

theorem ne (h : Apart names) (ha : a ∈ names) (hb : b ∈ names) : a ≠ edgePoint b ∧ a ≠ range b := by
  by_cases hab : a = b
  · rw [hab]
    exact ⟨ne_edgePoint b, ne_range b⟩
  · have hsymm : Std.Symm fun a b : String => a ≠ b ∧ (a ≠ edgePoint b ∧ b ≠ edgePoint a) ∧
        a ≠ range b ∧ b ≠ range a :=
      ⟨fun _ _ h => ⟨h.1.symm, h.2.1.symm, h.2.2.symm⟩⟩
    obtain ⟨-, hedgePoint, hrange⟩ := List.Pairwise.forall h ha hb hab
    exact ⟨hedgePoint.1, hrange.1⟩

/-- The name of an accessor tells which of the names it belongs to. -/
theorem eq_of_accessor (h : Apart names) (ha : a ∈ names) (hb : b ∈ names) {name : String}
    (hname : name = a ∨ name = range a) (hname' : name = b ∨ name = range b) : a = b := by
  rcases hname with rfl | rfl
  · exact hname'.elim id fun he => ((h.ne ha hb).2 he).elim
  · rcases hname' with he | he
    · exact ((h.ne hb ha).2 he.symm).elim
    · exact range_injective he

end Apart

end Naming

theorem Model.NamesApart.distinct {m : Model} (h : m.NamesApart) : m.NamesDistinct :=
  fun c hc => (h c hc).nodup

/-! ### Forms of an association -/

/-- `b` is the association `a` with its edges replaced, and maybe with other bodies. -/
structure Association.IsForm (m : Model) (filter : RangeFilter) (a b : Association) : Prop where
  eq_milestoned : b = { a.milestoned m filter with qualified := b.qualified }
  headers : b.qualified.map QualifiedProperty.header =
    (a.milestoned m filter).qualified.map QualifiedProperty.header

namespace Association

variable {m : Model} {filter : RangeFilter} {as : List Association} {a b : Association}

theorem isForm_milestoned (m : Model) (filter : RangeFilter) (a : Association) :
    a.IsForm m filter (a.milestoned m filter) :=
  ⟨rfl, rfl⟩

theorem Compiled.isForm (h : a.Compiled m filter as b) : a.IsForm m filter b :=
  ⟨h.eq_milestoned, h.headers⟩

namespace IsForm

theorem path (h : a.IsForm m filter b) : b.path = a.path := by
  rw [h.eq_milestoned]
  rfl

theorem memberPaths (h : a.IsForm m filter b) : b.memberPaths = a.memberPaths := by
  have hmilestoned : (a.milestoned m filter).memberPaths = a.memberPaths := memberPaths_milestoned
  rw [← hmilestoned, h.eq_milestoned]
  rfl

theorem exposingClass? (h : a.IsForm m filter b) (t : TypeRef) :
    m.exposingClass? b t = m.exposingClass? a t :=
  Model.exposingClass?_of_memberPaths h.memberPaths t

theorem memberClasses (h : a.IsForm m filter b) : m.memberClasses b = m.memberClasses a :=
  Model.memberClasses_of_memberPaths h.memberPaths

theorem properties (h : a.IsForm m filter b) : b.properties = (a.milestoned m filter).properties := by
  rw [h.eq_milestoned]

theorem replaced (h : a.IsForm m filter b) : b.replaced = (a.milestoned m filter).replaced := by
  rw [h.eq_milestoned]

/-- What is true of headers is true of a form's qualified properties. -/
theorem exists_header (h : a.IsForm m filter b) {q : QualifiedProperty} (hq : q ∈ b.qualified) :
    ∃ q₀ ∈ (a.milestoned m filter).qualified, q₀.header = q.header := by
  have hmem := List.mem_map_of_mem (f := QualifiedProperty.header) hq
  rw [h.headers] at hmem
  exact List.mem_map.1 hmem

/-- An edge of an association is one of the ends that its source exposes. -/
theorem mem_endsOn_of_edge {e : Edge} (he : e ∈ m.associationEdges a) :
    e.property ∈ a.endsOn m e.source :=
  mem_endsOn.2 ⟨Model.mem_properties_of_mem_edgesOf he, Model.sourceOf_of_mem_edgesOf he⟩

variable (hpristine : a.toMembers.Pristine)

include hpristine in
theorem mem_replaced (h : a.IsForm m filter b) {p : Property} (hp : p ∈ b.replaced) :
    ∃ e ∈ m.associationEdges a, e.property = p := by
  rw [h.replaced] at hp
  rcases Model.mem_milestonedMembers_replaced hp with hp | he
  · rw [hpristine.replaced] at hp
    cases hp
  · exact he

include hpristine in
theorem nodup_replaced (h : a.IsForm m filter b) : (b.replaced.map Property.name).Nodup := by
  rw [h.replaced]
  show ((m.milestonedMembers filter _ a.toMembers).replaced.map Property.name).Nodup
  rw [Model.milestonedMembers_replaced, hpristine.replaced]
  exact nodup_news _ _

include hpristine in
/-- The replaced ends that a class records are among those it presents. -/
theorem mem_endsOn_of_mem_replacedOn (h : a.IsForm m filter b) {path : String} {p : Property}
    (hp : p ∈ b.replacedOn m path) : p ∈ a.endsOn m path := by
  obtain ⟨hp, hexposing⟩ := mem_replacedOn.1 hp
  obtain ⟨e, he, rfl⟩ := h.mem_replaced hpristine hp
  rw [h.exposingClass?] at hexposing
  exact mem_endsOn.2 ⟨Model.mem_properties_of_mem_edgesOf he, hexposing⟩

include hpristine in
/-- What was generated of the qualified properties that a class exposes are accessors of edges from
it, up to their bodies. -/
theorem exists_edge_of_mem_qualifiedOn (h : a.IsForm m filter b) {path : String}
    {q : QualifiedProperty} (hq : q ∈ b.qualifiedOn m path) (hgenerated : q.isGenerated = true) :
    ∃ e ∈ m.associationEdges a, e.source = path ∧
      ∃ q₀ ∈ m.accessorsOf filter e, q₀.header = q.header := by
  obtain ⟨hq, hexposing⟩ := mem_qualifiedOn.1 hq
  obtain ⟨q₀, hq₀, hheader⟩ := h.exists_header hq
  have hgenerated₀ : q₀.isGenerated = true :=
    (congrArg QualifiedProperty.isGenerated hheader).trans hgenerated
  obtain ⟨e, he, hq₀⟩ := (Model.mem_milestonedMembers_qualified hq₀).resolve_left
    (hpristine.notMem_qualified hgenerated₀)
  -- the accessor leads where its edge does, and is exposed where that starts
  have htype : q₀.header.type = q.header.type := by rw [hheader]
  change q₀.type = q.type at htype
  have hsource : m.exposingClass? a e.property.type = some e.source :=
    Model.sourceOf_of_mem_edgesOf he
  rw [h.exposingClass?, ← htype, (Model.of_mem_accessorsOf hq₀).2.1, hsource] at hexposing
  exact ⟨e, he, Option.some.inj hexposing, q₀, hq₀, hheader⟩

variable (howned : a.toMembers.OwnedBy (.ofAssociation a.path))

include howned in
theorem owner_of_mem_properties (h : a.IsForm m filter b) {p : Property} (hp : p ∈ b.properties) :
    p.owner = .ofAssociation b.path := by
  rw [h.properties] at hp
  rw [h.path]
  exact howned.milestoned.properties p hp

include howned in
theorem owner_of_mem_qualified (h : a.IsForm m filter b) {q : QualifiedProperty}
    (hq : q ∈ b.qualified) : q.owner = .ofAssociation b.path := by
  obtain ⟨q₀, hq₀, hheader⟩ := h.exists_header hq
  have howner := congrArg QualifiedProperty.owner hheader
  rw [← show q₀.owner = q.owner from howner, h.path]
  exact howned.milestoned.qualified q₀ hq₀

include hpristine howned in
theorem owner_of_mem_replaced (h : a.IsForm m filter b) {p : Property} (hp : p ∈ b.replaced) :
    p.owner = .ofAssociation b.path := by
  obtain ⟨e, he, rfl⟩ := h.mem_replaced hpristine hp
  rw [h.path]
  exact howned.properties _ (Model.mem_properties_of_mem_edgesOf he)

end IsForm

end Association

end Bitemporal
