/-
Bitemporal/Proofs/Repetition.lean

Milestoning what has been milestoned.

An edge point bears the tag of generated properties, and what bears it is no
edge.  So milestoned members have no edges, whichever range filter their
accessors were built with, and milestoning them again gives them back
(`Class.milestoned_milestoned`, `Association.milestoned_milestoned`).  Nor does
an end that was skipped become an edge: the class that exposes it is found by
where the ends lead, and this stays (`Association.memberPaths_milestoned`).

An association renews its views whether it has edges or not.  That the second
renewal does nothing asks that the association owns all its entries
(`Model.renewViewsOf_renewViewsOf`), and what milestoning adds to owned members
is owned (`Members.WhollyOwnedBy.milestoned`).
-/
import Bitemporal.Proofs.Footprint

namespace Bitemporal

/-! ### What milestoning does to members -/

/-- The members `ms'` come of the members `ms`, of which no generated one was touched: those that are
generated stay where they are, and what is added bears keys that nothing before it bears. -/
structure Members.GrowsTo (ms ms' : Members) : Prop where
  generated : ∀ (i : Nat) (p : Property), ms.properties[i]? = some p → p.isGenerated = true →
    ms'.properties[i]? = some p
  qualified : ∃ added, ms'.qualified = ms.qualified ++ added ∧
    EachNew QualifiedProperty.key ms.qualified added
  replaced : ∃ added, ms'.replaced = ms.replaced ++ added ∧ EachNew Property.name ms.replaced added

namespace Model

variable {m : Model} {filter : RangeFilter} {sourceOf : Property → Option String} {members : Members}

theorem growsTo_milestonedMembers :
    members.GrowsTo (m.milestonedMembers filter sourceOf members) where
  generated := by
    intro i p hp hgenerated
    show (members.properties.map _)[i]? = some p
    rw [List.getElem?_map, hp, Option.map_some, edge?_of_isGenerated hgenerated]
    rfl
  qualified := ⟨_, milestonedMembers_qualified, eachNew_news _ _⟩
  replaced := ⟨_, milestonedMembers_replaced, eachNew_news _ _⟩

end Model

/-- What milestoning replaces was among the members. -/
theorem Members.WhollyOwnedBy.milestoned {m : Model} {filter : RangeFilter}
    {sourceOf : Property → Option String} {ms : Members} {o : Owner} (h : ms.WhollyOwnedBy o) :
    (m.milestonedMembers filter sourceOf ms).WhollyOwnedBy o where
  toOwnedBy := h.toOwnedBy.milestoned
  replaced := by
    intro p hp
    rcases Model.mem_milestonedMembers_replaced hp with hp | ⟨e, he, rfl⟩
    · exact h.replaced p hp
    · exact h.properties _ (Model.mem_properties_of_mem_edgesOf he)

/-! ### Runs -/

namespace Model

variable {m m₁ : Model} {filter filter' : RangeFilter} {path : String} {n : Nat}

/-- Milestoning a class succeeds where the class is there, counts its edges and leaves it milestoned. -/
theorem of_milestoneClass (h : m.milestoneClass .builtin filter path = .ok (m₁, n)) :
    m₁.frame = m.frame ∧
      ∃ c, c.path = path ∧ m.class? path = some c ∧ n = (m.classEdges c).length ∧
        m₁.class? path = some (c.milestoned m filter) := by
  rcases hclass : m.class? path with - | c
  · rw [milestoneClass, hclass] at h
    cases h
  · obtain ⟨-, rfl⟩ := class?_eq_some_iff.1 hclass
    rw [milestoneClass_run filter rfl hclass] at h
    cases h
    constructor
    · exact modifyClass_frame (Class.milestoned_frame m filter)
    · have hpath : ∀ d, (Class.milestoned m filter d).path = d.path := fun _ => rfl
      refine ⟨c, rfl, rfl, rfl, ?_⟩
      rw [class?_modifyClass hpath, hclass, Option.map_some, if_pos rfl]

/-- Milestoning a class once more finds no edges and writes nothing. -/
theorem milestoneClass_again (h : m.milestoneClass .builtin filter path = .ok (m₁, n)) :
    m₁.milestoneClass .builtin filter' path = .ok (m₁, 0) := by
  obtain ⟨hframe, c, rfl, -, -, hthere⟩ := of_milestoneClass h
  have hrun : m₁.milestoneClass .builtin filter' c.path =
      .ok (m₁.modifyClass c.path (Class.milestoned m filter'),
        (m.classEdges (c.milestoned m filter)).length) :=
    milestoneClass_run (c := c.milestoned m filter) filter' hframe hthere
  rw [hrun, classEdges_milestoned, modifyClass_of_class? hthere, Class.milestoned_milestoned,
    addClass_self hthere]
  rfl

/-- Milestoning an association counts its edges and leaves it milestoned, in its place, and its views
renewed. -/
theorem of_milestoneAssociation {a : Association} (ha : a ∈ m.associations.entries)
    (h : m.milestoneAssociation .builtin filter a.path = .ok (m₁, n)) :
    m₁.frame = m.frame ∧ n = (m.associationEdges a).length ∧
      (∃ l₁ l₂, m₁.associations.entries = l₁ ++ a.milestoned m filter :: l₂) ∧
      m₁.classes.entries = m.classes.entries.map (Class.renewed m (a.milestoned m filter)) := by
  obtain ⟨l₁, l₂, hentries⟩ := List.append_of_mem ha
  obtain ⟨m₁', hrun, hassociations, hclasses⟩ := milestoneAssociation_run filter rfl hentries
  rw [h] at hrun
  cases hrun
  exact ⟨frame_of_map (Class.renewed_frame m _) hclasses, rfl, ⟨l₁, l₂, hassociations⟩, hclasses⟩

/-- Milestoning an association once more finds no edges and renews what is there already. -/
theorem milestoneAssociation_again {a : Association} (ha : a ∈ m.associations.entries)
    (howned : a.toMembers.WhollyOwnedBy (.ofAssociation a.path))
    (h : m.milestoneAssociation .builtin filter a.path = .ok (m₁, n)) :
    m₁.milestoneAssociation .builtin filter' a.path = .ok (m₁, 0) := by
  obtain ⟨hframe, -, ⟨l₁, l₂, hassociations⟩, hclasses⟩ := of_milestoneAssociation ha h
  obtain ⟨m₂, hrun, hassociations', hclasses'⟩ :=
    milestoneAssociation_run filter' hframe hassociations
  rw [Association.milestoned_milestoned] at hassociations' hclasses'
  have hsame : m₂ = m₁ := by
    refine ext_entries ?_ (hassociations'.trans hassociations.symm)
    rw [hclasses', hclasses, List.map_map]
    exact List.map_congr_left fun c _ => Class.renewed_renewed howned.milestoned c
  rw [associationEdges_milestoned, hsame] at hrun
  exact hrun

/-- **Milestoning twice is milestoning once**, whatever the range filters.  All edges of an element are
replaced at once; none is left and nothing of the element is written again.  For an association this
asks that it owns its entries, as its views are renewed in either case. -/
theorem milestone_again (m : Model) (filter filter' : RangeFilter) :
    (∀ path m₁ n, m.milestoneClass .builtin filter path = .ok (m₁, n) →
      m₁.milestoneClass .builtin filter' path = .ok (m₁, 0) ∧
        ∃ c c₁, m.class? path = some c ∧ m₁.class? path = some c₁ ∧
          n = (m.classEdges c).length ∧ m₁.classEdges c₁ = [] ∧
          c.toMembers.GrowsTo c₁.toMembers) ∧
    (∀ a ∈ m.associations.entries, a.toMembers.WhollyOwnedBy (.ofAssociation a.path) →
      ∀ m₁ n, m.milestoneAssociation .builtin filter a.path = .ok (m₁, n) →
        m₁.milestoneAssociation .builtin filter' a.path = .ok (m₁, 0) ∧
          ∃ a₁, m₁.association? a.path = some a₁ ∧
            n = (m.associationEdges a).length ∧ m₁.associationEdges a₁ = [] ∧
            a.toMembers.GrowsTo a₁.toMembers) := by
  constructor
  · intro path m₁ n h
    obtain ⟨hframe, c, -, hclass, hcount, hthere⟩ := of_milestoneClass h
    have hedges : m₁.classEdges (c.milestoned m filter) = [] := by
      rw [classEdges_frame hframe, classEdges_milestoned]
    exact ⟨milestoneClass_again h, c, _, hclass, hthere, hcount, hedges, growsTo_milestonedMembers⟩
  · intro a ha howned m₁ n h
    obtain ⟨hframe, hcount, ⟨l₁, l₂, hassociations⟩, -⟩ := of_milestoneAssociation ha h
    have hthere : m₁.association? a.path = some (a.milestoned m filter) :=
      association?_path (hassociations ▸ List.mem_append_cons_self)
    have hedges : m₁.associationEdges (a.milestoned m filter) = [] := by
      rw [associationEdges_frame hframe, associationEdges_milestoned]
    exact ⟨milestoneAssociation_again ha howned h, _, hthere, hcount, hedges,
      growsTo_milestonedMembers⟩

/-- An association whose end to the persons is recorded as replaced already. -/
def owning : Association :=
  let owner : Property :=
    { name := "owner", type := .ofClass "m::Person", multiplicity := .one
      owner := .ofAssociation "m::Owning" }
  { path := "m::Owning"
    properties := [
      owner,
      { name := "accounts", type := .abbreviated "Account", multiplicity := .zeroMany
        owner := .ofAssociation "m::Owning" }]
    replaced := [owner] }

/-- A class that has two properties of one name, one whose name ends like that of an edge point, an edge
point and an accessor. -/
def crowded : Model :=
  let person : Typing := ⟨.ofClass "m::Person", .zeroOne⟩
  ofDocument {
    classes := [
      { path := "m::Account"
        properties := [
          { person with name := "holder", owner := .ofClass "m::Account" },
          { person with name := "holder", owner := .ofClass "m::Account" },
          { person with name := "noteAllVersions", owner := .ofClass "m::Account" },
          { person with
            name := "agentAllVersions", owner := .ofClass "m::Account", stereotypes := [.generated] }]
        qualified := [
          { person with
            name := "holder", owner := .ofClass "m::Account", stereotypes := [.generated]
            signature := { parameters := [], result := person }
            body := [] }] },
      { path := "m::Person", stereotypes := [.resolved temporalProfile Shape.business.name] }]
    associations := [owning] }

/-- Three properties of the class and one end are replaced, and then there is nothing left to replace,
with the other range filter neither. -/
theorem crowded_again :
    (∃ m₁, crowded.milestoneClass .builtin .halfOpen "m::Account" = .ok (m₁, 3) ∧
      m₁.milestoneClass .builtin .startEquality "m::Account" = .ok (m₁, 0)) ∧
    owning ∈ crowded.associations.entries ∧
    owning.toMembers.WhollyOwnedBy (.ofAssociation owning.path) ∧
    ∃ m₁, crowded.milestoneAssociation .builtin .halfOpen owning.path = .ok (m₁, 1) ∧
      m₁.milestoneAssociation .builtin .startEquality owning.path = .ok (m₁, 0) := by
  have hmem : owning ∈ crowded.associations.entries := by decide +kernel
  have howned : owning.toMembers.WhollyOwnedBy (.ofAssociation owning.path) := by decide +kernel
  obtain ⟨hclasses, hassociations⟩ := milestone_again crowded .halfOpen .startEquality
  refine ⟨?_, hmem, howned, ?_⟩
  · have hcount : (crowded.milestoneClass .builtin .halfOpen "m::Account").toOption.map (·.2) =
        some 3 := by decide +kernel
    obtain ⟨m₁, hrun⟩ := exists_eq_ok_of_snd hcount
    exact ⟨m₁, hrun, (hclasses _ m₁ _ hrun).1⟩
  · have hcount : (crowded.milestoneAssociation .builtin .halfOpen owning.path).toOption.map (·.2) =
        some 1 := by decide +kernel
    obtain ⟨m₁, hrun⟩ := exists_eq_ok_of_snd hcount
    exact ⟨m₁, hrun, (hassociations owning hmem howned m₁ _ hrun).1⟩

end Model

end Bitemporal
