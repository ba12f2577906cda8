/-
Bitemporal/Proofs/Unhindered.lean

Members that milestoning replaces without hindrance.

Where the names in a list of members keep clear of those that milestoning hands
out (`Model.Unhindered`), every edge is recorded and gets all of its accessors
(`Unhindered.replaced_eq`, `Unhindered.qualified_eq`).  There is then nothing
for the check of accessors to find (`Unhindered.propertyViolations_eq_nil`,
`Unhindered.unrecorded_eq_nil`).
-/
import Bitemporal.Conformance.Accessors
import Bitemporal.Proofs.EdgeAccessors

namespace Bitemporal

/-! ### Names of edge points -/

namespace Text

theorem dropHead?_append (l r : List Char) : dropHead? l (l ++ r) = some r := by
  induction l with
  | nil => rfl
  | cons c l ih =>
    rw [List.cons_append, dropHead?, if_pos rfl]
    exact ih

theorem dropEnding?_append (ending s : String) : dropEnding? ending (s ++ ending) = some s := by
  rw [dropEnding?, String.toList_append, List.reverse_append, dropHead?_append, Option.map_some,
    List.reverse_reverse, String.ofList_toList]

end Text

namespace Naming

/-- An edge point that has a name to stand for stands for the property of that name. -/
theorem eq_of_ofEdgePoint? {name name' : String} (h : ofEdgePoint? (edgePoint name) = some name') :
    name' = name := by
  rw [ofEdgePoint?, edgePoint, Text.dropEnding?_append] at h
  obtain ⟨h, -⟩ := Option.filter_eq_some_iff.1 h
  exact (Option.some.inj h).symm

/-- No date is named like an edge point. -/
theorem edgePoint_notMem_dateNames (name : String) : edgePoint name ∉ Model.dateNames := by
  intro hmem
  -- the last letters differ
  have hlast : (edgePoint name).toList.getLast? = some 's' := by
    rw [edgePoint, String.toList_append, List.getLast?_append]
    rfl
  have hdates : ∀ date ∈ Model.dateNames, date.toList.getLast? ≠ some 's' := by decide
  exact hdates _ hmem hlast

end Naming

/-! ### Sets of keys -/

namespace AccessorCheck

theorem Key.mem_insert {k a : Key} {keys : List Key} : k ∈ Key.insert a keys ↔ k = a ∨ k ∈ keys := by
  induction keys with
  | nil => rw [Key.insert, List.mem_singleton, or_iff_left List.not_mem_nil]
  | cons b keys ih =>
    rw [Key.insert]
    split
    · rw [List.mem_cons]
    · split
      · rename_i hab
        rw [List.mem_cons, hab, ← or_assoc, or_self_iff]
      · rw [List.mem_cons, ih, List.mem_cons]
        exact or_left_comm

theorem Key.mem_set {k : Key} {keys : List Key} : k ∈ Key.set keys ↔ k ∈ keys := by
  have hfold : ∀ (keys set : List Key),
      k ∈ keys.foldl (fun set a => a.insert set) set ↔ k ∈ set ∨ k ∈ keys := by
    intro keys
    induction keys with
    | nil => exact fun set => (or_iff_left List.not_mem_nil).symm
    | cons a keys ih =>
      intro set
      rw [List.foldl_cons, ih, Key.mem_insert, List.mem_cons, or_comm (a := k = a), or_assoc]
  exact (hfold keys []).trans (or_iff_right List.not_mem_nil)

end AccessorCheck

/-! ### Members without hindrance -/

/-- Nothing among some plain members bears a name that milestoning hands out. -/
structure Model.Unhindered (m : Model) (sourceOf : Property → Option String) (members : Members) :
    Prop where
  plain : ∀ p ∈ members.properties, p.isEdgePoint = false
  declared : ∀ q ∈ members.qualified, q.isGenerated = false
  replaced : members.replaced = []
  nodup : (members.properties.map Property.name).Nodup
  apart : Naming.Apart ((m.edgesOf sourceOf members).map (·.property.name))
  edgePoint : ∀ e ∈ m.edgesOf sourceOf members, ∀ p ∈ members.properties,
    p.name ≠ Naming.edgePoint e.property.name
  accessor : ∀ e ∈ m.edgesOf sourceOf members, ∀ q ∈ members.qualified,
    q.name ≠ e.property.name ∧ q.name ≠ Naming.range e.property.name

namespace Model

variable {m : Model} {filter : RangeFilter} {sourceOf : Property → Option String} {members : Members}
variable {e : Edge}

/-- The name of an accessor tells which of some edges with names apart it belongs to. -/
theorem eq_of_accessor (h : Naming.Apart ((m.edgesOf sourceOf members).map (·.property.name)))
    {e e' : Edge} (he : e ∈ m.edgesOf sourceOf members) (he' : e' ∈ m.edgesOf sourceOf members)
    {name : String} (hname : name = e.property.name ∨ name = Naming.range e.property.name)
    (hname' : name = e'.property.name ∨ name = Naming.range e'.property.name) : e = e' := by
  refine List.inj_on_of_nodup_map h.nodup he he' (h.eq_of_accessor ?_ ?_ hname hname')
  · exact List.mem_map_of_mem (f := fun e : Edge => e.property.name) he
  · exact List.mem_map_of_mem (f := fun e : Edge => e.property.name) he'

/-- An edge is replaced by its edge point. -/
theorem edgePoint_mem_milestonedMembers (he : e ∈ m.edgesOf sourceOf members) :
    Edge.edgePoint e.property .generated ∈
      (m.milestonedMembers filter sourceOf members).properties := by
  obtain ⟨p, hp, hedge⟩ := mem_edgesOf.1 he
  obtain rfl := property_of_edge? hedge
  refine mem_milestonedMembers_properties.2 ⟨e.property, hp, ?_⟩
  rw [hedge]
  rfl

/-- Edges whose names are distinct are all recorded. -/
theorem replaced_eq_of_nodup (hreplaced : members.replaced = [])
    (hnodup : (members.properties.map Property.name).Nodup) :
    (m.milestonedMembers filter sourceOf members).replaced =
      (m.edgesOf sourceOf members).map (·.property) := by
  have hedges : (((m.edgesOf sourceOf members).map (·.property)).map Property.name).Nodup := by
    rw [map_property_edgesOf]
    exact (List.filter_sublist.map Property.name).nodup hnodup
  rw [milestonedMembers_replaced, hreplaced, List.nil_append]
  exact news_eq_self hedges fun p _ => List.not_mem_nil

namespace Unhindered

variable (h : m.Unhindered sourceOf members)

include h

/-- Every edge is recorded. -/
theorem replaced_eq : (m.milestonedMembers filter sourceOf members).replaced =
    (m.edgesOf sourceOf members).map (·.property) :=
  replaced_eq_of_nodup h.replaced h.nodup

/-- Every edge gets all of its accessors. -/
theorem qualified_eq : (m.milestonedMembers filter sourceOf members).qualified =
    members.qualified ++ (m.edgesOf sourceOf members).flatMap (m.accessorsOf filter) := by
  rw [milestonedMembers_qualified, news_eq_self]
  · -- no two accessors have one key
    rw [List.map_flatMap, List.nodup_flatMap]
    refine ⟨fun e _ => m.nodup_keys_accessorsOf filter e, ?_⟩
    have hnodup := h.apart.nodup
    rw [List.Nodup, List.pairwise_map] at hnodup
    refine hnodup.imp_of_mem fun he he' hne => ?_
    intro k hk hk'
    obtain ⟨q, hq, rfl⟩ := List.mem_map.1 hk
    obtain ⟨q', hq', hkey⟩ := List.mem_map.1 hk'
    obtain ⟨-, -, -, hname⟩ := of_mem_accessorsOf hq
    obtain ⟨-, -, -, hname'⟩ := of_mem_accessorsOf hq'
    rw [show q'.name = q.name from congrArg Prod.fst hkey] at hname'
    exact hne (congrArg (·.property.name) (eq_of_accessor h.apart he he' hname hname'))
  · -- and none has that of a qualified property that was there
    intro q hq hmem
    obtain ⟨e, he, hq⟩ := List.mem_flatMap.1 hq
    obtain ⟨q₀, hq₀, hkey⟩ := List.mem_map.1 hmem
    have hother := h.accessor e he q₀ hq₀
    rw [show q₀.name = q.name from congrArg Prod.fst hkey] at hother
    obtain ⟨-, -, -, hname⟩ := of_mem_accessorsOf hq
    exact hname.elim hother.1 hother.2

/-- The names of milestoned properties are distinct. -/
theorem nodup_names :
    ((m.milestonedMembers filter sourceOf members).properties.map Property.name).Nodup := by
  rw [milestonedMembers, List.map_map]
  refine List.Nodup.map_on ?_ (List.Nodup.of_map _ h.nodup)
  intro p hp p' hp' hname
  have hedge : ∀ {p : Property}, p ∈ members.properties → (m.edge? sourceOf p).isSome = true →
      ∃ e ∈ m.edgesOf sourceOf members, e.property = p := by
    intro p hp hsome
    obtain ⟨e, he⟩ := Option.isSome_iff_exists.1 hsome
    exact ⟨e, mem_edgesOf.2 ⟨p, hp, he⟩, property_of_edge? he⟩
  rw [Function.comp_apply, Function.comp_apply] at hname
  -- an edge point can share its name with another edge point only
  split at hname
  · rename_i hsome
    obtain ⟨e, he, rfl⟩ := hedge hp hsome
    split at hname
    · exact List.inj_on_of_nodup_map h.nodup hp hp' (Naming.edgePoint_injective hname)
    · exact (h.edgePoint e he p' hp' hname.symm).elim
  · split at hname
    · rename_i hsome
      obtain ⟨e, he, rfl⟩ := hedge hp' hsome
      exact (h.edgePoint e he p hp hname).elim
    · exact List.inj_on_of_nodup_map h.nodup hp hp' hname

/-- No property bears the name of an edge any more. -/
theorem name_ne (he : e ∈ m.edgesOf sourceOf members) {p : Property}
    (hp : p ∈ (m.milestonedMembers filter sourceOf members).properties) : p.name ≠ e.property.name := by
  intro hname
  obtain ⟨p₀, hp₀, rfl⟩ := mem_milestonedMembers_properties.1 hp
  obtain ⟨p₁, hp₁, hedge⟩ := mem_edgesOf.1 he
  obtain rfl := property_of_edge? hedge
  split at hname
  · -- the edge point of one does not bear the name of another
    rename_i hsome
    obtain ⟨e₀, he₀⟩ := Option.isSome_iff_exists.1 hsome
    obtain rfl := property_of_edge? he₀
    exact h.edgePoint e₀ (mem_edgesOf.2 ⟨_, hp₀, he₀⟩) _ hp₁ hname.symm
  · -- a property of the name of an edge is the edge, and has been replaced
    rename_i hnone
    rw [List.inj_on_of_nodup_map h.nodup hp₀ hp₁ hname, hedge] at hnone
    exact hnone rfl

/-- The generated qualified properties that bear a name of an edge are its accessors. -/
theorem mem_accessorsOf_iff (he : e ∈ m.edgesOf sourceOf members) {q : QualifiedProperty} :
    (q ∈ (m.milestonedMembers filter sourceOf members).qualified ∧ q.isGenerated = true ∧
        (q.name = e.property.name ∨ q.name = Naming.range e.property.name)) ↔
      q ∈ m.accessorsOf filter e := by
  rw [h.qualified_eq]
  constructor
  · rintro ⟨hq, hgenerated, hname⟩
    rcases List.mem_append.1 hq with hq | hq
    · have hplain := h.declared q hq
      rw [hgenerated] at hplain
      cases hplain
    · obtain ⟨e', he', hq⟩ := List.mem_flatMap.1 hq
      obtain ⟨-, -, -, hname'⟩ := of_mem_accessorsOf hq
      rw [eq_of_accessor h.apart he he' hname hname']
      exact hq
  · intro hq
    obtain ⟨hgenerated, -, -, hname⟩ := of_mem_accessorsOf hq
    exact ⟨List.mem_append_right _ (List.mem_flatMap.2 ⟨e, he, hq⟩), hgenerated, hname⟩

end Unhindered

end Model

/-! ### Checking the accessors -/

namespace AccessorCheck

variable {m m' : Model} {filter : RangeFilter} {sourceOf : Property → Option String}
variable {members members' : Members} {e : Edge}

/-- The accessors that are expected of an edge are those it is given, whatever dates a range includes. -/
theorem mem_expected {k : Key} :
    k ∈ expected e.property (m.shapeAt? e.source) e.shape ↔
      k ∈ (m.accessorsOf filter e).map QualifiedProperty.key := by
  have hkeys : (m.accessorsOf filter e).map QualifiedProperty.key =
      (accessorForms (m.shapeAt? e.source) e.shape .startEquality).map fun form =>
        (e.accessorName form, e.accessorArity form) := by
    rw [Model.keys_accessorsOf, accessorForms, accessorForms]
    split <;> split <;> rfl
  rw [expected, Key.mem_set, hkeys]
  apply iff_of_eq
  congr 2
  funext form
  cases form <;> rfl

variable (h : m.Unhindered sourceOf members)
variable (hqualified : ∀ q : QualifiedProperty, q.isGenerated = true →
  (q ∈ members'.qualified ↔ q ∈ (m.milestonedMembers filter sourceOf members).qualified))

include h hqualified in
/-- The accessors that an edge actually has. -/
theorem mem_actual (he : e ∈ m.edgesOf sourceOf members) {k : Key} :
    k ∈ actual e.property members'.qualified ↔
      k ∈ (m.accessorsOf filter e).map QualifiedProperty.key := by
  rw [actual, Key.mem_set, List.mem_map, List.mem_map]
  refine exists_congr fun q => and_congr_left fun _ => ?_
  rw [← h.mem_accessorsOf_iff he, List.mem_filter, Bool.and_eq_true, Bool.or_eq_true, beq_iff_eq,
    beq_iff_eq]
  constructor
  · rintro ⟨hq, hgenerated, hname⟩
    exact ⟨(hqualified q hgenerated).1 hq, hgenerated, hname⟩
  · rintro ⟨hq, hgenerated, hname⟩
    exact ⟨(hqualified q hgenerated).2 hq, hgenerated, hname⟩

variable (hproperties : members'.properties =
  (m.milestonedMembers filter sourceOf members).properties)

include h hproperties in
theorem edgeViolations_eq_nil (owner : String) (he : e ∈ m.edgesOf sourceOf members) :
    edgeViolations owner members' e.property = [] := by
  have hone : (members'.properties.filter fun p => p.name == Naming.edgePoint e.property.name) =
      [Edge.edgePoint e.property .generated] := by
    rw [hproperties]
    exact filter_eq_singleton h.nodup_names (Model.edgePoint_mem_milestonedMembers he)
  have htag := Edge.isEdgePoint_edgePoint e.property
  have hwidened : (Edge.edgePoint e.property .generated).multiplicity.lower =
        e.property.multiplicity.lower ∧
      (Edge.edgePoint e.property .generated).multiplicity.isUnbounded = true := ⟨rfl, rfl⟩
  rw [edgeViolations]
  simp only [hone]
  rw [if_pos hwidened, if_pos htag]
  rfl

include h hqualified hproperties in
/-- **What milestoning makes of an edge** is what the check asks for. -/
theorem propertyViolations_eq_nil (hframe : m'.frame = m.frame) (owner : String)
    (he : e ∈ m.edgesOf sourceOf members) :
    propertyViolations m' owner (m.shapeAt? e.source) members' e.property = [] := by
  have hplain : (members'.properties.any fun p => p.name == e.property.name) = false := by
    rw [List.any_eq_false, hproperties]
    intro p hp hname
    exact h.name_ne he hp (beq_iff_eq.1 hname)
  have hshape : m'.shapeOf? e.property.type = some e.shape := by
    rw [Model.shapeOf?_frame hframe]
    exact Model.shapeOf?_of_mem_edgesOf he
  have hsame : ∀ k, k ∈ expected e.property (m.shapeAt? e.source) e.shape ↔
      k ∈ actual e.property members'.qualified := by
    intro k
    rw [mem_actual h hqualified he, mem_expected]
  have hlacking : (expected e.property (m.shapeAt? e.source) e.shape).filter
      (fun a => !(actual e.property members'.qualified).contains a) = [] := by
    rw [List.filter_eq_nil_iff]
    intro k hk
    simp [(hsame k).1 hk]
  have hunexpected : (actual e.property members'.qualified).filter
      (fun a => !(expected e.property (m.shapeAt? e.source) e.shape).contains a) = [] := by
    rw [List.filter_eq_nil_iff]
    intro k hk
    simp [(hsame k).2 hk]
  simp only [propertyViolations, hplain, hshape, hlacking, hunexpected,
    edgeViolations_eq_nil h hproperties owner he]
  rfl

include h hproperties in
/-- Every edge point stands for an edge that is recorded. -/
theorem unrecorded_eq_nil (owner : String) (hreplaced : ∀ p ∈ (m.milestonedMembers filter sourceOf
      members).replaced, p ∈ members'.replaced) : unrecorded owner members' = [] := by
  rw [unrecorded, List.flatMap_eq_nil_iff]
  intro p hp
  obtain ⟨hp, htag⟩ := List.mem_filter.1 hp
  rw [hproperties] at hp
  obtain ⟨p₀, hp₀, rfl⟩ := Model.mem_milestonedMembers_properties.1 hp
  split at htag
  · -- the edge that it replaces is recorded under the name that it stands for
    rename_i hsome
    obtain ⟨e, he⟩ := Option.isSome_iff_exists.1 hsome
    obtain rfl := Model.property_of_edge? he
    have hmem : e.property ∈ members'.replaced := by
      apply hreplaced
      rw [h.replaced_eq]
      exact List.mem_map_of_mem (Model.mem_edgesOf.2 ⟨_, hp₀, he⟩)
    rw [if_pos hsome]
    rcases hname : Naming.ofEdgePoint? (Naming.edgePoint e.property.name) with - | name
    · simp only [Edge.edgePoint_name, hname]
    · have hany : (members'.replaced.any fun p => p.name == name) = true := by
        rw [List.any_eq_true]
        exact ⟨e.property, hmem, beq_iff_eq.2 (Naming.eq_of_ofEdgePoint? hname).symm⟩
      simp only [Edge.edgePoint_name, hname, hany]
      rfl
  · -- and nothing else is an edge point
    rw [h.plain p₀ hp₀] at htag
    cases htag

end AccessorCheck

end Bitemporal
