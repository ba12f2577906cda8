/-
Bitemporal/Proofs/Conformity.lean

Compiled models pass the checks.

The date properties of a compiled class are those of its shape
(`ShapeCheck.violations_eq_nil`).  Members whose names are apart are replaced
without hindrance, so that each edge has one edge point and exactly its
accessors (`AccessorCheck.classViolations_eq_nil`,
`AccessorCheck.associationViolations_eq_nil`).  And a class shows of each
association what is exposed on it (`AssociationCheck.violations_eq_nil`).
Together these are all that the checks look at (`Model.conforms_of_compile`).
-/
import Bitemporal.Conformance
import Bitemporal.Proofs.Unhindered

namespace Bitemporal

/-! ### Date properties -/

/-- Milestoning makes no date property, and no property with the name of one. -/
theorem Model.of_mem_milestonedMembers_properties {m : Model} {filter : RangeFilter}
    {sourceOf : Property → Option String} {members : Members} (hpristine : members.Pristine)
    {p : Property} (hp : p ∈ (m.milestonedMembers filter sourceOf members).properties) :
    p.isGeneratedDate = false ∧ ((∀ p₀ ∈ members.properties, p₀.name ∉ dateNames) → p.name ∉ dateNames) := by
  obtain ⟨p₀, hp₀, rfl⟩ := mem_milestonedMembers_properties.1 hp
  have hplain : p₀.isGeneratedDate = false :=
    (Bool.or_eq_false_iff.1 (hpristine.properties p₀ hp₀)).2
  split
  · constructor
    · show (p₀.toAnnotations.tagged .generated).hasStereotype Naming.generatedDateTag = false
      rw [Annotations.hasStereotype_tagged, Bool.or_eq_false_iff]
      exact ⟨hplain, by decide⟩
    · exact fun _ => Naming.edgePoint_notMem_dateNames p₀.name
  · exact ⟨hplain, fun hnames => hnames p₀ hp₀⟩

/-- The dates of an equipped class stand behind its milestoned properties. -/
theorem Class.equipped_properties_of_shape {m : Model} {filter : RangeFilter} {c : Class}
    {shape : Shape} (hshape : c.shape? = some shape)
    (hnames : ∀ p ∈ c.properties, p.name ∉ Model.dateNames) :
    (c.equipped m filter).properties =
      (c.milestoned m filter).properties ++ c.datePropertiesOf shape := by
  have hdates : ∀ p ∈ c.datePropertiesOf shape,
      (if (m.edge? (fun _ => some c.path) p).isSome then Edge.edgePoint p .generated else p) = p := by
    intro p hp
    rw [edge?_of_mem_dates hp]
    rfl
  show c.withDates.properties.map _ = c.properties.map _ ++ _
  rw [c.withDates_path, withDates_properties hshape hnames, List.map_append, List.map_congr_left hdates,
    List.map_id']

namespace ShapeCheck

section Dates

variable {c c' : Class} {shape : Shape} {declared : List Property}
variable (hproperties : c'.properties = declared ++ c.datePropertiesOf shape)
variable (hdeclared : ∀ p ∈ declared, p.isGeneratedDate = false)
variable (hnames : ∀ p ∈ declared, p.name ∉ Model.dateNames)

include hproperties hnames in
/-- By name, only the generated dates are found. -/
theorem filter_name_eq {p : Property} (hp : p ∈ c.datePropertiesOf shape) :
    (c'.properties.filter fun q => q.name == p.name) = [p] := by
  have hnone : (declared.filter fun q => q.name == p.name) = [] := by
    rw [List.filter_eq_nil_iff]
    intro q hq hname
    exact hnames q hq (beq_iff_eq.1 hname ▸ Class.mem_dateNames_of_mem hp)
  rw [hproperties, List.filter_append, hnone, List.nil_append]
  exact filter_eq_singleton (c.nodup_names_datePropertiesOf shape) hp

include hproperties hnames in
theorem dateViolations_eq_nil {date : String} (hdate : date ∈ shape.dateNames) :
    dateViolations c' date = [] := by
  have hmem : c.dateProperty .generatedDate date .date ∈ c.datePropertiesOf shape :=
    List.mem_append_left _ (List.mem_map_of_mem hdate)
  have hone : (c'.properties.filter fun q => q.name == date) =
      [c.dateProperty .generatedDate date .date] := filter_name_eq hproperties hnames hmem
  rw [dateViolations, hone]
  rfl

include hproperties hnames in
theorem rangeViolations_eq_nil : rangeViolations c' shape = [] := by
  have hone := filter_name_eq hproperties hnames (List.mem_append_right _ List.mem_cons_self)
  have hfind := congrArg List.head? hone
  rw [List.head?_filter] at hfind
  rw [rangeViolations]
  rw [show c'.properties.find? (fun p => p.name == Naming.rangeProperty) = _ from hfind]
  cases shape <;> rfl

include hproperties hdeclared in
theorem strayViolations_eq_nil : strayViolations c' shape = [] := by
  rw [strayViolations, List.map_eq_nil_iff, List.filter_eq_nil_iff, hproperties]
  intro p hp
  rcases List.mem_append.1 hp with hp | hp
  · rw [hdeclared p hp]
    exact Bool.false_ne_true
  · have hname := List.mem_map_of_mem (f := Property.name) hp
    rw [Class.names_datePropertiesOf, List.mem_append, List.mem_singleton] at hname
    rcases hname with hname | hname
    · simp [hname]
    · simp [hname]

end Dates

variable {m : Model} {filter : RangeFilter} {c c' : Class}

/-- **The date properties of a compiled class** are those of its shape. -/
theorem violations_eq_nil (hpristine : c.Pristine)
    (hnames : ∀ shape, c.shape? = some shape → ∀ p ∈ c.properties, p.name ∉ Model.dateNames)
    (hframe : c'.frame = c.frame) (hproperties : c'.properties = (c.equipped m filter).properties) :
    violations c' = [] := by
  have hannotations : c'.toAnnotations = c.toAnnotations := congrArg Prod.snd hframe
  have hdeclared : ∀ p ∈ (c.milestoned m filter).properties, p.isGeneratedDate = false :=
    fun p hp => (Model.of_mem_milestonedMembers_properties hpristine.members hp).1
  rw [violations, hannotations]
  rcases hshape : c.shape? with - | shape
  · -- nothing was added
    rw [Class.equipped, Class.withDates_of_none hshape] at hproperties
    show (c'.properties.filter Property.isGeneratedDate).map _ = []
    rw [hproperties, List.map_eq_nil_iff, List.filter_eq_nil_iff]
    intro p hp
    rw [hdeclared p hp]
    exact Bool.false_ne_true
  · have hother : ∀ p ∈ (c.milestoned m filter).properties, p.name ∉ Model.dateNames := fun p hp =>
      (Model.of_mem_milestonedMembers_properties hpristine.members hp).2 (hnames shape hshape)
    rw [Class.equipped_properties_of_shape hshape (hnames shape hshape)] at hproperties
    have hdates : shape.dateNames.flatMap (dateViolations c') = [] := by
      rw [List.flatMap_eq_nil_iff]
      exact fun date hdate => dateViolations_eq_nil hproperties hother hdate
    show shape.dateNames.flatMap (dateViolations c') ++ rangeViolations c' shape ++
      strayViolations c' shape = []
    rw [hdates, rangeViolations_eq_nil hproperties hother, strayViolations_eq_nil hproperties hdeclared]
    rfl

end ShapeCheck

/-! ### Members whose names are apart -/

/-- The names of the properties are apart, and no qualified property bears one of them or the name of
the range accessor of one. -/
structure Members.Apart (ms : Members) : Prop where
  properties : Naming.Apart (ms.properties.map Property.name)
  qualified : ∀ q ∈ ms.qualified, ∀ p ∈ ms.properties, q.name ≠ p.name ∧ q.name ≠ Naming.range p.name

instance : DecidablePred Members.Apart := fun ms =>
  decidable_of_iff (Naming.Apart (ms.properties.map Property.name) ∧
    ∀ q ∈ ms.qualified, ∀ p ∈ ms.properties, q.name ≠ p.name ∧ q.name ≠ Naming.range p.name)
    ⟨fun ⟨hp, hq⟩ => ⟨hp, hq⟩, fun ⟨hp, hq⟩ => ⟨hp, hq⟩⟩

/-- The names in each list of members are apart. -/
def Model.ListsApart (m : Model) : Prop :=
  (∀ c ∈ m.classes.entries, c.toMembers.Apart) ∧ ∀ a ∈ m.associations.entries, a.toMembers.Apart

instance : DecidablePred Model.ListsApart := fun _ => inferInstanceAs (Decidable (_ ∧ _))

/-- No temporal class declares a property with the name of a date property. -/
def Model.DatesFree (m : Model) : Prop :=
  ∀ c ∈ m.classes.entries, c.shape?.isSome = true → ∀ p ∈ c.properties, p.name ∉ Model.dateNames

instance : DecidablePred Model.DatesFree := fun m =>
  inferInstanceAs (Decidable (∀ c ∈ m.classes.entries, c.shape?.isSome = true →
    ∀ p ∈ c.properties, p.name ∉ Model.dateNames))

section Unhindered

variable {m : Model} {sourceOf : Property → Option String} {members : Members} {c : Class}

theorem Members.Apart.unhindered (h : members.Apart) (hpristine : members.Pristine) :
    m.Unhindered sourceOf members where
  plain p hp := (Bool.or_eq_false_iff.1 (hpristine.properties p hp)).1
  declared := hpristine.qualified
  replaced := hpristine.replaced
  nodup := h.properties.nodup
  apart := by
    have hnames : (m.edgesOf sourceOf members).map (·.property.name) =
        ((m.edgesOf sourceOf members).map (·.property)).map Property.name := by
      rw [List.map_map]
      rfl
    rw [hnames, Model.map_property_edgesOf]
    exact h.properties.sublist (List.filter_sublist.map Property.name)
  edgePoint e he p hp := by
    have hmem := Model.mem_properties_of_mem_edgesOf he
    exact (h.properties.ne (List.mem_map_of_mem hp) (List.mem_map_of_mem hmem)).1
  accessor e he q hq := h.qualified q hq _ (Model.mem_properties_of_mem_edgesOf he)

/-- Dates do not hinder. -/
theorem Class.unhindered_withDates (hpristine : c.Pristine) (hapart : c.toMembers.Apart)
    (hdates : c.shape?.isSome = true → ∀ p ∈ c.properties, p.name ∉ Model.dateNames) :
    m.Unhindered (fun _ => some c.withDates.path) c.withDates.toMembers := by
  have h : m.Unhindered (fun _ => some c.path) c.toMembers := hapart.unhindered hpristine.members
  rcases hshape : c.shape? with - | shape
  · rw [withDates_of_none hshape]
    exact h
  rw [hshape] at hdates
  have hproperties := withDates_properties hshape (hdates rfl)
  have hedges : m.edgesOf (fun _ => some c.withDates.path) c.withDates.toMembers =
      m.edgesOf (fun _ => some c.path) c.toMembers := m.classEdges_withDates c
  -- dates are no edges, so that they can only be in the way by their names
  refine ⟨?_, ?_, ?_, ?_, ?_, ?_, ?_⟩
  · intro p hp
    rw [hproperties] at hp
    rcases List.mem_append.1 hp with hp | hp
    · exact h.plain p hp
    · rw [datePropertiesOf, List.mem_append, List.mem_map, List.mem_singleton] at hp
      rcases hp with ⟨name, -, rfl⟩ | rfl <;> rfl
  · rw [withDates_qualified]
    exact h.declared
  · rw [withDates_replaced]
    exact h.replaced
  · rw [hproperties, List.map_append, List.nodup_append]
    refine ⟨h.nodup, c.nodup_names_datePropertiesOf shape, ?_⟩
    rintro name hname name' hname' rfl
    obtain ⟨p, hp, rfl⟩ := List.mem_map.1 hname
    obtain ⟨p', hp', hsame⟩ := List.mem_map.1 hname'
    exact hdates rfl p hp (hsame ▸ mem_dateNames_of_mem hp')
  · rw [hedges]
    exact h.apart
  · rw [hedges, hproperties]
    intro e he p hp
    rcases List.mem_append.1 hp with hp | hp
    · exact h.edgePoint e he p hp
    · intro hname
      exact Naming.edgePoint_notMem_dateNames _ (hname ▸ mem_dateNames_of_mem hp)
  · rw [hedges, withDates_qualified]
    exact h.accessor

end Unhindered

/-! ### Checking compiled elements -/

section Checks

variable {m m' : Model} {settings : Settings} {report : Report} {c c' : Class} {a a' : Association}

namespace AccessorCheck

theorem classViolations_eq_nil (hpristine : m.Pristine) (howned : m.Owned) (hapart : m.ListsApart)
    (hdates : m.DatesFree) (h : m.Compiles settings report m') (hc : c ∈ m.classes.entries)
    (hcompiled : c.Compiled m settings.rangeFilter (m.milestonedAssociations settings.rangeFilter ++
      m.changedAssociations settings.rangeFilter m') c')
    (hprepared : c.Prepared m settings.rangeFilter (m.arrangement m') c') :
    classViolations m' c' = [] := by
  have hunhindered : m.Unhindered (fun _ => some c.withDates.path) c.withDates.toMembers :=
    Class.unhindered_withDates (hpristine.classes c hc) (hapart.1 c hc) (hdates c hc)
  have hreplaced : ∀ p ∈ (c.equipped m settings.rangeFilter).replaced, p.owner = .ofClass c.path := by
    intro p hp
    have hmem := Class.mem_properties_of_mem_replaced hpristine hc hp
    exact (howned.classes c hc).properties p hmem
  rw [classViolations, List.append_eq_nil_iff, List.flatMap_eq_nil_iff]
  constructor
  · apply unrecorded_eq_nil hunhindered hcompiled.properties
    intro p hp
    exact (Model.mem_replaced_of_class hpristine howned h hprepared (hreplaced p hp)).2 hp
  · intro p hp
    obtain ⟨hp, howner⟩ := List.mem_filter.1 hp
    rw [hcompiled.path, beq_iff_eq] at howner
    rw [Model.mem_replaced_of_class hpristine howned h hprepared howner] at hp
    have hrecorded : (c.equipped m settings.rangeFilter).replaced = _ := hunhindered.replaced_eq
    rw [hrecorded] at hp
    obtain ⟨e, he, rfl⟩ := List.mem_map.1 hp
    -- the shape at the source is that of the class
    have hsource : c'.shape? = m.shapeAt? e.source := by
      have hpath' : c.path = e.source := c.withDates_path ▸ Option.some.inj (Model.sourceOf_of_mem_edgesOf he)
      have hannotations : c'.toAnnotations = c.toAnnotations := congrArg Prod.snd hcompiled.frame
      rw [← hpath', Model.shapeAt?, Model.class?_path hc, hannotations]
      rfl
    rw [hsource]
    exact propertyViolations_eq_nil hunhindered (fun q hq => hcompiled.dates.mem_iff hq)
      hcompiled.properties h.frame c'.path he

theorem associationViolations_eq_nil (hpristine : m.Pristine) (hapart : m.ListsApart)
    (h : m.Compiles settings report m') (ha : a ∈ m.associations.entries)
    (hcompiled : a.Compiled m settings.rangeFilter
      (m.changedAssociations settings.rangeFilter m') a') :
    associationViolations m' a' = [] := by
  have hunhindered : m.Unhindered (fun p => m.exposingClass? a p.type) a.toMembers :=
    (hapart.2 a ha).unhindered (hpristine.associations a ha)
  have hform := hcompiled.isForm
  obtain ⟨n, -, hdates⟩ := hcompiled.dates
  rw [associationViolations, List.append_eq_nil_iff, List.flatMap_eq_nil_iff]
  constructor
  · apply unrecorded_eq_nil hunhindered hform.properties
    intro p hp
    rw [hform.replaced]
    exact hp
  · intro p hp
    have hrecorded : (a.milestoned m settings.rangeFilter).replaced = _ := hunhindered.replaced_eq
    rw [hform.replaced, hrecorded] at hp
    obtain ⟨e, he, rfl⟩ := List.mem_map.1 hp
    -- the check finds the same source class as the compilation did
    have hexposing : m'.exposingClass? a' e.property.type = some e.source := by
      rw [Model.exposingClass?_frame h.frame, hform.exposingClass?]
      exact Model.sourceOf_of_mem_edgesOf he
    obtain ⟨path, hpath, hexposing⟩ := Option.bind_eq_some_iff.1 hexposing
    obtain ⟨source, hsource, hexposing⟩ := Option.map_eq_some_iff.1 hexposing
    have hshape : source.shape? = m.shapeAt? e.source := by
      rw [← Model.shapeAt?_frame h.frame, Model.shapeAt?, ← hexposing,
        Model.class?_path (Model.mem_of_resolve? hsource)]
      rfl
    rw [hpath, Option.bind_some, hsource]
    show propertyViolations m' a'.path source.shape? a'.toMembers e.property = []
    rw [hshape]
    exact propertyViolations_eq_nil hunhindered (fun q hq => hdates.mem_iff hq) hform.properties
      h.frame a'.path he

end AccessorCheck

namespace AssociationCheck

theorem violations_eq_nil (hpristine : m.Pristine) (howned : m.Owned) (hdistinct : m.NamesDistinct)
    (h : m.Compiles settings report m') (ha' : a' ∈ m'.associations.entries)
    (hjoined : m.memberClasses a' ≠ []) : violations m' a' = [] := by
  rw [violations, Model.memberClasses_frame h.frame, if_neg (by rwa [List.isEmpty_iff]),
    List.flatMap_eq_nil_iff]
  intro member hmember
  rw [viewViolations]
  rcases hclass : m'.class? member with - | c'
  · rfl
  obtain ⟨hc', hpath⟩ := Model.class?_eq_some_iff.1 hclass
  obtain ⟨c, hc, hprepared⟩ := exists_of_forall₂_right (h.prepared hpristine howned hdistinct) hc'
  rw [← hpath, hprepared.path] at hmember ⊢
  have hexposes : ∀ t, exposes m' a' c.path t = (m.exposingClass? a' t == some c.path) := by
    intro t
    rw [exposes, Model.exposingClass?_frame h.frame]
  obtain ⟨hexposed, hqualified, hreplaced⟩ := h.shown hpristine howned hc hprepared ha' hmember
  simp only [exposedNames, shownNames, hexposes, hexposed, hqualified, hreplaced, Association.endsOn,
    Association.qualifiedOn, Association.replacedOn]
  simp

end AssociationCheck

end Checks

/-! ### Compiled models conform -/

/-- **Compiled models conform.**  Where the names that meet in one list or on one class are told apart,
and every association joins some class, no check finds anything in a compiled model. -/
theorem Model.conforms_of_compile {m m' : Model} {settings : Settings} {report : Report}
    (hcompile : m.compile .builtin settings = .ok (report, m')) (hpristine : m.Pristine)
    (howned : m.Owned) (hjoined : ∀ a ∈ m.associations.entries, m.memberClasses a ≠ [])
    (hapart : m.ListsApart) (hdistinct : m.NamesDistinct) (hdates : m.DatesFree) :
    (ShapeCheck.verdict m').passes = true ∧ (AccessorCheck.verdict m').passes = true ∧
      (AssociationCheck.verdict m').passes = true := by
  have h := compiles_of_compile hcompile
  have hshapes : m'.classes.entries.flatMap ShapeCheck.violations = [] := by
    rw [List.flatMap_eq_nil_iff]
    intro c' hc'
    obtain ⟨c, hc, hcompiled⟩ := exists_of_forall₂_right h.forall₂_classes hc'
    refine ShapeCheck.violations_eq_nil (hpristine.classes c hc) (fun shape hshape => ?_)
      hcompiled.frame hcompiled.properties
    exact hdates c hc (Option.isSome_iff_exists.2 ⟨shape, hshape⟩)
  have hclasses : m'.classes.entries.flatMap (AccessorCheck.classViolations m') = [] := by
    rw [List.flatMap_eq_nil_iff]
    intro c' hc'
    obtain ⟨c, hc, hmade⟩ := exists_of_forall₂_right h.forall₂_classes hc'
    obtain ⟨c'', hc'', hcompiled, hprepared⟩ := h.exists_class hpristine howned hdistinct hc
    rw [← hmade.path, class?_path hc'] at hc''
    obtain rfl := Option.some.inj hc''
    exact AccessorCheck.classViolations_eq_nil hpristine howned hapart hdates h hc hcompiled hprepared
  have hends : m'.associations.entries.flatMap (AccessorCheck.associationViolations m') = [] := by
    rw [List.flatMap_eq_nil_iff]
    intro a' ha'
    obtain ⟨a, ha, hcompiled⟩ := exists_of_forall₂_right h.forall₂_associations ha'
    exact AccessorCheck.associationViolations_eq_nil hpristine hapart h ha hcompiled
  have hviews : m'.associations.entries.flatMap (AssociationCheck.violations m') = [] := by
    rw [List.flatMap_eq_nil_iff]
    intro a' ha'
    obtain ⟨a, ha, hcompiled⟩ := exists_of_forall₂_right h.forall₂_associations ha'
    refine AssociationCheck.violations_eq_nil hpristine howned hdistinct h ha' ?_
    rw [hcompiled.isForm.memberClasses]
    exact hjoined a ha
  refine ⟨?_, ?_, ?_⟩
  · rw [ShapeCheck.verdict, hshapes]
    show Verdict.passes (Finding.ofViolations _ _ _ [] :: if _ then [] else [Finding.warning _ _ _]) = true
    split <;> rfl
  · rw [AccessorCheck.verdict, hclasses, hends]
    rfl
  · rw [AssociationCheck.verdict, hviews]
    rfl

/-- A class with a date property to add, an edge, and both ends of an association. -/
def Model.staff : Model :=
  ofDocument {
    classes := [
      { path := "m::Person"
        stereotypes := [.resolved temporalProfile Shape.bitemporal.name]
        properties := [
          { name := "site", type := .ofClass "m::Site", multiplicity := .oneMany
            owner := .ofClass "m::Person" }] },
      { path := "m::Site"
        stereotypes := [.resolved temporalProfile Shape.business.name] }]
    associations := [
      { path := "m::Reporting"
        properties := [
          { name := "manager", type := .ofClass "m::Person", multiplicity := .zeroOne
            owner := .ofAssociation "m::Reporting" },
          { name := "reports", type := .ofClass "m::Person", multiplicity := .zeroMany
            owner := .ofAssociation "m::Reporting" }] }] }

theorem Model.staff_conforms : (staff.compile .builtin {}).toBool = true ∧ ∀ report m',
    staff.compile .builtin {} = .ok (report, m') →
      (ShapeCheck.verdict m').passes = true ∧ (AccessorCheck.verdict m').passes = true ∧
        (AssociationCheck.verdict m').passes = true :=
  ⟨by decide +kernel, fun _ _ hcompile => conforms_of_compile hcompile (by decide +kernel)
    (by decide +kernel) (by decide +kernel) (by decide +kernel) (by decide +kernel)
    (by decide +kernel)⟩

end Bitemporal
