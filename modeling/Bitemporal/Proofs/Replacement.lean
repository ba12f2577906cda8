/-
Bitemporal/Proofs/Replacement.lean

What one milestoning makes of some members, entry by entry.

A property is replaced if nothing shows that it was generated, its type leads to
a shape and it has a class to start from (`Model.replaces`); each replaced one
becomes its edge point, in its place, and every other stays as it is.  The
qualified and the replaced properties of before stay in front.  Behind them
stand accessors and properties whose keys are new where they stand, so that no
key is there more often than it was; and whatever key was asked for is there,
as it is skipped only where it is taken (`exists_of_mem_map_append_news`).

Main statement: with all built-in symbols milestoning succeeds, and what it
yields accounts for every member (`milestone_accounts`).  The members may be any
lists, with names repeated and generated members among them.
-/
import Bitemporal.Proofs.Members

namespace Bitemporal

/-- After what was new has been put in, every key is taken. -/
theorem exists_of_mem_map_append_news {α κ : Type} [DecidableEq κ] {key : α → κ} {l xs : List α} {k : κ}
    (hk : k ∈ xs.map key) : ∃ x ∈ l ++ news key (l.map key) xs, key x = k := by
  by_cases hseen : k ∈ l.map key
  · obtain ⟨x, hx, hkey⟩ := List.mem_map.1 hseen
    exact ⟨x, List.mem_append_left _ hx, hkey⟩
  · obtain ⟨x, hx, hkey⟩ := exists_mem_news hk hseen
    exact ⟨x, List.mem_append_right _ hx, hkey⟩

/-! ### Replaced properties -/

namespace Model

variable {m : Model} {filter : RangeFilter} {sourceOf : Property → Option String} {members : Members}

/-- Whether milestoning replaces a property: it bears neither tag of generated properties, leads to a
class with a shape, and has a class to start from. -/
def replaces (m : Model) (sourceOf : Property → Option String) (p : Property) : Bool :=
  !p.hasStereotype Naming.generatedTag && !p.hasStereotype Naming.generatedDateTag &&
    (m.shapeOf? p.type).isSome && (sourceOf p).isSome

theorem isSome_edge? (p : Property) : (m.edge? sourceOf p).isSome = m.replaces sourceOf p := by
  rw [Bool.eq_iff_iff, Option.isSome_iff_exists]
  have hgenerated : p.isGenerated = false ↔
      p.hasStereotype Naming.generatedTag = false ∧ p.hasStereotype Naming.generatedDateTag = false := by
    rw [Property.isGenerated, Property.isEdgePoint, Property.isGeneratedDate, Bool.or_eq_false_iff]
  simp only [replaces, Bool.and_eq_true, Bool.not_eq_true', ← hgenerated]
  constructor
  · rintro ⟨e, he⟩
    obtain ⟨hg, ⟨c, hc, hshape, -⟩, hsource, -⟩ := edge?_eq_some_iff.1 he
    refine ⟨⟨hg, ?_⟩, ?_⟩
    · rw [shapeOf?, hc, Option.bind_some, hshape]
      rfl
    · rw [hsource]
      rfl
  · rintro ⟨⟨hg, hshape⟩, hsource⟩
    obtain ⟨shape, hshape⟩ := Option.isSome_iff_exists.1 hshape
    obtain ⟨source, hsource⟩ := Option.isSome_iff_exists.1 hsource
    obtain ⟨c, hc, hshape⟩ := Option.bind_eq_some_iff.1 hshape
    exact ⟨⟨source, c.path, shape, p⟩, edge?_eq_some_iff.2 ⟨hg, ⟨c, hc, hshape, rfl⟩, hsource, rfl⟩⟩

/-- The edges are those of the replaced properties. -/
theorem filter_replaces :
    members.properties.filter (m.replaces sourceOf) = (m.edgesOf sourceOf members).map (·.property) := by
  rw [map_property_edgesOf]
  exact List.filter_congr fun p _ => (isSome_edge? p).symm

end Model

/-! ### The account -/

/-- Milestoning accounts for every member: nothing is lost, and what is new has its reason and its
place. -/
structure Milestoned.Accounts (done : Milestoned) (m : Model) (filter : RangeFilter)
    (sourceOf : Property → Option String) (members : Members) : Prop where
  /-- Each property is there, or its edge point in its place. -/
  properties : List.Forall₂ (fun p p' => p' =
    if m.replaces sourceOf p then
      { p with
        name := Naming.edgePoint p.name
        multiplicity := { p.multiplicity with upper := none }
        stereotypes := p.stereotypes ++ [.generated] }
    else p) members.properties done.members.properties
  names : done.names = (members.properties.filter (m.replaces sourceOf)).map Property.name
  /-- The new qualified properties are generated and can be told from all before them. -/
  qualified : ∃ added, done.members.qualified = members.qualified ++ added ∧
    done.accessors = added.length ∧ (∀ q ∈ added, q.isGenerated = true) ∧
    EachNew QualifiedProperty.key members.qualified added
  /-- Each form of each replaced property can be called. -/
  forms : ∀ p ∈ members.properties, m.replaces sourceOf p = true →
    ∃ source target shape, sourceOf p = some source ∧ m.resolve? p.type = some target ∧
      target.shape? = some shape ∧
      ∀ form ∈ accessorForms (m.shapeAt? source) shape filter, ∃ q ∈ done.members.qualified,
        q.name = Edge.accessorName ⟨source, target.path, shape, p⟩ form ∧
        q.arity = Edge.accessorArity ⟨source, target.path, shape, p⟩ form
  /-- The new replaced properties stand in their order, without those of a name that is recorded. -/
  replaced : ∃ added, done.members.replaced = members.replaced ++ added ∧
    added.Sublist (members.properties.filter (m.replaces sourceOf)) ∧
    EachNew Property.name members.replaced added
  recorded : ∀ name ∈ done.names, name ∈ done.members.replaced.map Property.name

namespace Model

variable {m : Model} {filter : RangeFilter} {sourceOf : Property → Option String} {members : Members}

/-- The accessors that are counted are those that stand behind the qualified properties. -/
theorem accessors_of_milestone {s : Symbols} {done : Milestoned}
    (h : m.milestone s filter members sourceOf = .ok done) :
    ∃ added, done.members.qualified = members.qualified ++ added ∧ done.accessors = added.length := by
  obtain ⟨tag, -, h⟩ := bind_eq_ok.1 h
  obtain ⟨accessors, -, h⟩ := bind_eq_ok.1 h
  obtain ⟨added, -, hcounted⟩ := foldl_addNewCounted QualifiedProperty.sameKey
    accessors.flatten members.qualified 0
  rw [hcounted, Nat.zero_add] at h
  cases h
  exact ⟨added, rfl, rfl⟩

/-- The accessors of an edge are there, or others of their names and arities. -/
theorem exists_accessor_milestonedMembers {e : Edge} (he : e ∈ m.edgesOf sourceOf members)
    {form : AccessorForm} (hform : form ∈ accessorForms (m.shapeAt? e.source) e.shape filter) :
    ∃ q ∈ (m.milestonedMembers filter sourceOf members).qualified,
      q.name = e.accessorName form ∧ q.arity = e.accessorArity form := by
  have hkey : (e.accessorOf form).key ∈
      ((m.edgesOf sourceOf members).flatMap (m.accessorsOf filter)).map QualifiedProperty.key := by
    apply List.mem_map_of_mem
    exact List.mem_flatMap.2 ⟨e, he, mem_accessorsOf.2 ⟨form, hform, rfl⟩⟩
  rw [milestonedMembers_qualified]
  obtain ⟨q, hq, hqkey⟩ := exists_of_mem_map_append_news hkey
  obtain ⟨hname, harity⟩ := Prod.mk.inj hqkey
  exact ⟨q, hq, hname, harity.trans (e.accessorOf_arity form)⟩

/-- **One milestoning neither loses nor repeats a member.** -/
theorem milestone_accounts (m : Model) (filter : RangeFilter) (members : Members)
    (sourceOf : Property → Option String) :
    ∃ done, m.milestone .builtin filter members sourceOf = .ok done ∧
      done.Accounts m filter sourceOf members := by
  obtain ⟨done, hdone, hmembers, hnames⟩ := m.milestone_builtin filter members sourceOf
  obtain ⟨added, hadded, hcount⟩ := accessors_of_milestone hdone
  have hnames' : done.names = (members.properties.filter (m.replaces sourceOf)).map Property.name := by
    rw [hnames, filter_replaces, List.map_map]
    rfl
  refine ⟨done, hdone, ?_⟩
  rw [hmembers, milestonedMembers_qualified, List.append_cancel_left_eq] at hadded
  exact {
    properties := by
      rw [hmembers]
      show List.Forall₂ _ members.properties (members.properties.map _)
      rw [List.forall₂_map_right_iff, List.forall₂_same]
      intro p _
      rw [isSome_edge?]
      rfl
    names := hnames'
    qualified := by
      refine ⟨_, hmembers ▸ milestonedMembers_qualified, hadded ▸ hcount, ?_, eachNew_news _ _⟩
      intro q hq
      obtain ⟨e, -, hq⟩ := List.mem_flatMap.1 (mem_of_mem_news hq).1
      exact (of_mem_accessorsOf hq).1
    forms := by
      intro p hp hreplaces
      rw [← isSome_edge?, Option.isSome_iff_exists] at hreplaces
      obtain ⟨e, he⟩ := hreplaces
      obtain ⟨-, ⟨target, htarget, hshape, hpath⟩, hsource, hproperty⟩ := edge?_eq_some_iff.1 he
      have heq : (⟨e.source, target.path, e.shape, p⟩ : Edge) = e := by
        rw [← hpath, ← hproperty]
      refine ⟨e.source, target, e.shape, hsource, htarget, hshape, ?_⟩
      intro form hform
      rw [heq, hmembers]
      exact exists_accessor_milestonedMembers (mem_edgesOf.2 ⟨p, hp, he⟩) hform
    replaced := by
      refine ⟨_, hmembers ▸ milestonedMembers_replaced, ?_, eachNew_news _ _⟩
      rw [filter_replaces]
      exact news_sublist _ _
    recorded := by
      intro name hname
      rw [hmembers, milestonedMembers_replaced, ← filter_replaces, List.mem_map]
      exact exists_of_mem_map_append_news (hnames' ▸ hname) }

end Model

end Bitemporal
