/-
Bitemporal/Proofs/Recompilation.lean

When a compiled model is left as it is by another compilation.

Milestoning tags what it replaces, so that a second compilation finds neither
edges nor lacking dates (`Compiles.prepared_eq`): it renews the views of all
associations and dates all bodies once more.  The model is left as it is exactly
if both do nothing (`Compiles.recompiles_iff`).
-/
import Bitemporal.Proofs.Members
import Bitemporal.Proofs.Settled

namespace Bitemporal

theorem Report.isUnchanged_iff {report : Report} : report.isUnchanged = true ↔
    report.synthesized = 0 ∧ report.milestoned = 0 ∧ report.dated = 0 := by
  simp only [isUnchanged, Bool.and_eq_true, beq_iff_eq, and_assoc]

namespace Model

/-- The names of the date properties of temporal classes. -/
def dateNames : List String :=
  [Axis.processing.name, Axis.business.name, Naming.rangeProperty]

/-- No property of a class or association bears the name of a date property. -/
def LeavesDateNames (m : Model) : Prop :=
  (∀ c ∈ m.classes.entries, ∀ p ∈ c.properties, p.name ∉ dateNames) ∧
    ∀ a ∈ m.associations.entries, ∀ p ∈ a.properties, p.name ∉ dateNames

/-- Every navigation in a body that is not generated has a receiver. -/
def Received (m : Model) : Prop :=
  (∀ c ∈ m.classes.entries, ∀ q ∈ c.qualified, q.Received) ∧
    ∀ a ∈ m.associations.entries, ∀ q ∈ a.qualified, q.Received

instance : DecidablePred LeavesDateNames := fun _ => inferInstanceAs (Decidable (_ ∧ _))

instance : DecidablePred Received := fun _ => inferInstanceAs (Decidable (_ ∧ _))

/-- Every body that is not generated is settled. -/
def Settled (m : Model) : Prop :=
  (∀ c ∈ m.classes.entries, ∀ q ∈ c.qualified, q.Settled m) ∧
    ∀ a ∈ m.associations.entries, ∀ q ∈ a.qualified, q.Settled m

/-- Another compilation succeeds, reports no change and gives the model back. -/
def Recompiles (m : Model) (settings : Settings) : Prop :=
  ∃ report, m.compile .builtin settings = .ok (report, m) ∧ report.isUnchanged = true

/-- Renewing the views of all associations, in the order of their paths, changes no class. -/
def Renewed (m : Model) : Prop :=
  ∀ c ∈ m.classes.entries, Class.renewedAll m m.associations.entries c = c

end Model

/-! ### Dates once added stay -/

namespace Class

theorem names_datePropertiesOf (c : Class) (shape : Shape) :
    (c.datePropertiesOf shape).map Property.name = shape.dateNames ++ [Naming.rangeProperty] := by
  rw [datePropertiesOf, List.map_append, List.map_map]
  show shape.dateNames.map id ++ [Naming.rangeProperty] = _
  rw [List.map_id]

theorem nodup_names_datePropertiesOf (c : Class) (shape : Shape) :
    ((c.datePropertiesOf shape).map Property.name).Nodup := by
  rw [names_datePropertiesOf]
  cases shape <;> decide

theorem isGeneratedDate_of_mem {c : Class} {shape : Shape} {p : Property}
    (h : p ∈ c.datePropertiesOf shape) : p.isGeneratedDate = true := by
  rw [datePropertiesOf, List.mem_append, List.mem_map, List.mem_singleton] at h
  rcases h with ⟨name, -, rfl⟩ | rfl <;> rfl

/-- A date is no edge. -/
theorem edge?_of_mem_dates {m : Model} {sourceOf : Property → Option String} {c : Class}
    {shape : Shape} {p : Property} (h : p ∈ c.datePropertiesOf shape) : m.edge? sourceOf p = none := by
  apply Model.edge?_of_isGenerated
  rw [Property.isGenerated, isGeneratedDate_of_mem h, Bool.or_true]

theorem mem_dateNames_of_mem {c : Class} {shape : Shape} {p : Property}
    (h : p ∈ c.datePropertiesOf shape) : p.name ∈ Model.dateNames := by
  have hname := List.mem_map_of_mem (f := Property.name) h
  rw [names_datePropertiesOf] at hname
  have hsubset : shape.dateNames ++ [Naming.rangeProperty] ⊆ Model.dateNames := by
    cases shape <;> decide
  exact hsubset hname

/-- Dates are added behind what is there. -/
theorem properties_subset_withDates (c : Class) : c.properties ⊆ c.withDates.properties := by
  intro p hp
  rcases hshape : c.shape? with - | shape
  · rw [withDates_of_none hshape]
    exact hp
  · rw [withDates_of_shape hshape, Property.addNamed_eq, foldl_putNew]
    exact List.mem_append_left _ hp

/-- Where no date name is taken, all date properties of the shape are added. -/
theorem withDates_properties {c : Class} {shape : Shape} (hshape : c.shape? = some shape)
    (h : ∀ p ∈ c.properties, p.name ∉ Model.dateNames) :
    c.withDates.properties = c.properties ++ c.datePropertiesOf shape := by
  rw [withDates_of_shape hshape]
  show (c.datePropertiesOf shape).foldl Property.addNamed c.properties = _
  rw [Property.addNamed_eq, foldl_putNew, news_eq_self (c.nodup_names_datePropertiesOf shape)]
  intro p hp hmem
  obtain ⟨p', hp', hname⟩ := List.mem_map.1 hmem
  exact h p' hp' (hname ▸ mem_dateNames_of_mem hp)

/-- A class that has a property of each date name gets none. -/
theorem withDates_eq_self {c : Class} (h : ∀ shape, c.shape? = some shape →
      ∀ p ∈ c.datePropertiesOf shape, p.name ∈ c.properties.map Property.name) :
    c.withDates = c := by
  rcases hshape : c.shape? with - | shape
  · exact withDates_of_none hshape
  · rw [withDates_of_shape hshape, Property.addNamed_eq, foldl_putNew,
      news_eq_nil (h shape hshape), List.append_nil]

/-- An equipped class has its dates. -/
theorem withDates_eq_self_of_equipped {m : Model} {filter : RangeFilter} {c c' : Class}
    (hnames : ∀ p ∈ c.properties, p.name ∉ Model.dateNames) (hframe : c'.frame = c.frame)
    (hproperties : c'.properties = (c.equipped m filter).properties) : c'.withDates = c' := by
  apply withDates_eq_self
  intro shape hshape p hp
  have hannotations : c'.toAnnotations = c.toAnnotations := congrArg Prod.snd hframe
  have hshape' : c.shape? = some shape := by
    rw [← hannotations]
    exact hshape
  -- the date property that was added under this name is no edge, and stays
  have hname := List.mem_map_of_mem (f := Property.name) hp
  rw [names_datePropertiesOf, ← names_datePropertiesOf c] at hname
  obtain ⟨p₀, hp₀, hp₀name⟩ := List.mem_map.1 hname
  have hadded : p₀ ∈ c.withDates.properties := by
    rw [withDates_properties hshape' hnames]
    exact List.mem_append_right _ hp₀
  rw [hproperties, ← hp₀name]
  refine List.mem_map_of_mem (Model.mem_milestonedMembers_properties.2 ⟨p₀, hadded, ?_⟩)
  rw [edge?_of_mem_dates hp₀]
  rfl

end Class

/-! ### Nothing is left to add -/

namespace Model

/-- Dates are no edges. -/
theorem classEdges_withDates (m : Model) (c : Class) : m.classEdges c.withDates = m.classEdges c := by
  rcases hshape : c.shape? with - | shape
  · rw [Class.withDates_of_none hshape]
  · have hnone : ∀ p ∈ news Property.name (c.properties.map Property.name) (c.datePropertiesOf shape),
        m.edge? (fun _ => some c.path) p = none := by
      intro p hp
      exact Class.edge?_of_mem_dates (mem_of_mem_news hp).1
    rw [Class.withDates_of_shape hshape, classEdges, classEdges, edgesOf, edgesOf]
    show List.filterMap _ ((c.datePropertiesOf shape).foldl Property.addNamed c.properties) = _
    rw [Property.addNamed_eq, foldl_putNew, List.filterMap_append,
      List.filterMap_eq_nil_iff.2 hnone, List.append_nil]

theorem equipped_qualified (m : Model) (filter : RangeFilter) (c : Class) :
    (c.equipped m filter).qualified =
      c.qualified ++ news QualifiedProperty.key (c.qualified.map QualifiedProperty.key)
        ((m.classEdges c).flatMap (m.accessorsOf filter)) := by
  rw [← classEdges_withDates, ← c.withDates_qualified]
  exact milestonedMembers_qualified

theorem equipped_qualified_eq (m : Model) (filter : RangeFilter) (c : Class) :
    (c.equipped m filter).qualified = (c.milestoned m filter).qualified := by
  rw [equipped_qualified]
  exact milestonedMembers_qualified.symm

theorem equipped_replaced (m : Model) (filter : RangeFilter) (c : Class) :
    (c.equipped m filter).replaced =
      c.replaced ++ news Property.name (c.replaced.map Property.name)
        ((m.classEdges c).map (·.property)) := by
  rw [← classEdges_withDates, ← c.withDates_replaced]
  exact milestonedMembers_replaced

theorem equipped_replaced_eq (m : Model) (filter : RangeFilter) (c : Class) :
    (c.equipped m filter).replaced = (c.milestoned m filter).replaced := by
  rw [equipped_replaced]
  exact milestonedMembers_replaced.symm

variable {m m' : Model} {settings : Settings} {report : Report}

theorem LeavesDateNames.withDates_eq_self (hnames : m.LeavesDateNames)
    (h : m.Compiles settings report m') {c : Class} (hc : c ∈ m'.classes.entries) :
    c.withDates = c := by
  obtain ⟨c₀, hc₀, hcompiled⟩ := exists_of_forall₂_right h.forall₂_classes hc
  exact Class.withDates_eq_self_of_equipped (hnames.1 c₀ hc₀) hcompiled.frame hcompiled.properties

/-- The classes of a compiled model declare no edges. -/
theorem Compiles.classEdges_eq_nil (h : m.Compiles settings report m') {c : Class}
    (hc : c ∈ m'.classes.entries) : m'.classEdges c = [] := by
  obtain ⟨c₀, hc₀, hcompiled⟩ := exists_of_forall₂_right h.forall₂_classes hc
  have hedges : m.classEdges (c₀.equipped m settings.rangeFilter) = [] :=
    classEdges_milestoned c₀.withDates
  rw [classEdges_frame h.frame, classEdges, edgesOf, hcompiled.properties, hcompiled.path,
    ← c₀.equipped_path m settings.rangeFilter]
  exact hedges

/-- The associations of a compiled model have no edges among their ends. -/
theorem Compiles.associationEdges_eq_nil (h : m.Compiles settings report m') {a : Association}
    (ha : a ∈ m'.associations.entries) : m'.associationEdges a = [] := by
  obtain ⟨a₀, ha₀, hcompiled⟩ := exists_of_forall₂_right h.forall₂_associations ha
  have hpaths : a.memberPaths = (a₀.milestoned m settings.rangeFilter).memberPaths := by
    rw [Association.memberPaths, Association.memberPaths, hcompiled.properties]
  have hexposing : m.exposingClass? a = m.exposingClass? (a₀.milestoned m settings.rangeFilter) :=
    funext (exposingClass?_of_memberPaths hpaths)
  rw [associationEdges_frame h.frame, associationEdges, hexposing, edgesOf, hcompiled.properties]
  exact associationEdges_milestoned a₀

/-- Preparing a model that lacks no dates and has no edges renews its views and does nothing else. -/
theorem prepared_entries {m : Model} (filter : RangeFilter)
    (hdates : ∀ c ∈ m.classes.entries, c.withDates = c)
    (hclasses : ∀ c ∈ m.classes.entries, m.classEdges c = [])
    (hassociations : ∀ a ∈ m.associations.entries, m.associationEdges a = []) :
    (m.prepared filter).associations.entries = m.associations.entries ∧
      (m.prepared filter).classes.entries =
        m.classes.entries.map (Class.renewedAll m m.associations.entries) := by
  -- without lacking dates and edges a class is its own equipped form
  have hclass : ∀ c ∈ m.classes.entries, c.equipped m filter = c := by
    intro c hc
    have hedges : m.edgesOf (fun _ => some c.path) c.toMembers = [] := hclasses c hc
    rw [Class.equipped, hdates c hc, Class.milestoned, milestonedMembers_of_edgesOf_eq_nil hedges]
  have hassociation : m.milestonedAssociations filter = m.associations.entries := by
    have hself : ∀ a ∈ m.associations.entries, a.milestoned m filter = a := by
      intro a ha
      have hedges : m.edgesOf (fun p => m.exposingClass? a p.type) a.toMembers = [] :=
        hassociations a ha
      rw [Association.milestoned, milestonedMembers_of_edgesOf_eq_nil hedges]
    rw [milestonedAssociations, List.map_congr_left hself, List.map_id']
  refine ⟨hassociation, ?_⟩
  show m.classes.entries.map _ = _
  refine List.map_congr_left fun c hc => ?_
  rw [hassociation, hclass c hc]

/-- Preparing a compiled model again renews its views and does nothing else. -/
theorem Compiles.prepared_eq (h : m.Compiles settings report m') (hnames : m.LeavesDateNames) :
    (m'.prepared settings.rangeFilter).associations.entries = m'.associations.entries ∧
      (m'.prepared settings.rangeFilter).classes.entries =
        m'.classes.entries.map (Class.renewedAll m' m'.associations.entries) ∧
      m'.lackedDates = 0 ∧ m'.edgeCount = 0 := by
  have hdates : ∀ c ∈ m'.classes.entries, c.withDates = c :=
    fun c hc => hnames.withDates_eq_self h hc
  obtain ⟨hassociations, hclasses⟩ := prepared_entries settings.rangeFilter hdates
    (fun c hc => h.classEdges_eq_nil hc) fun a ha => h.associationEdges_eq_nil ha
  refine ⟨hassociations, hclasses, ?_, ?_⟩
  · rw [lackedDates, List.sum_eq_zero_iff_forall_eq_nat]
    rintro n hn
    obtain ⟨c, hc, rfl⟩ := List.mem_map.1 hn
    rw [hdates c hc, Nat.sub_self]
  · rw [edgeCount, Nat.add_eq_zero_iff, List.sum_eq_zero_iff_forall_eq_nat,
      List.sum_eq_zero_iff_forall_eq_nat]
    constructor
    · rintro n hn
      obtain ⟨c, hc, rfl⟩ := List.mem_map.1 hn
      rw [hdates c hc, h.classEdges_eq_nil hc, List.length_nil]
    · rintro n hn
      obtain ⟨a, ha, rfl⟩ := List.mem_map.1 hn
      rw [h.associationEdges_eq_nil ha, List.length_nil]

theorem received_milestonedMembers {filter : RangeFilter} {sourceOf : Property → Option String}
    {members : Members} (h : ∀ q ∈ members.qualified, q.Received) :
    ∀ q ∈ (m.milestonedMembers filter sourceOf members).qualified, q.Received := by
  intro q hq
  rcases mem_milestonedMembers_qualified hq with hq | ⟨e, -, hq⟩
  · exact h q hq
  · intro hgenerated
    rw [(of_mem_accessorsOf hq).1] at hgenerated
    cases hgenerated

/-- Replacing edges keeps receivers. -/
theorem Received.equipped (hm : m.Received) {c : Class} (hc : c ∈ m.classes.entries)
    (filter : RangeFilter) : ∀ q ∈ (c.equipped m filter).qualified, q.Received := by
  apply received_milestonedMembers
  rw [Class.withDates_qualified]
  exact hm.1 c hc

theorem Received.milestoned (hm : m.Received) {a : Association} (ha : a ∈ m.associations.entries)
    (filter : RangeFilter) : ∀ q ∈ (a.milestoned m filter).qualified, q.Received :=
  received_milestonedMembers (hm.2 a ha)

/-- A compilation keeps receivers. -/
theorem Compiles.received (h : m.Compiles settings report m') (hm : m.Received) : m'.Received := by
  constructor
  · intro c hc
    obtain ⟨c₀, hc₀, hcompiled⟩ := exists_of_forall₂_right h.forall₂_classes hc
    exact hcompiled.dates.received (hm.equipped hc₀ _)
  · intro a ha
    obtain ⟨a₀, ha₀, hcompiled⟩ := exists_of_forall₂_right h.forall₂_associations ha
    obtain ⟨n, -, hdates⟩ := hcompiled.dates
    exact hdates.received (hm.milestoned ha₀ _)

/-- Preparing a compiled model again does nothing exactly if its views are renewed already. -/
theorem Compiles.prepared_eq_self_iff (h : m.Compiles settings report m')
    (hnames : m.LeavesDateNames) : m'.prepared settings.rangeFilter = m' ↔ m'.Renewed := by
  obtain ⟨hassociations, hclasses, -, -⟩ := h.prepared_eq hnames
  constructor
  · intro hself c hc
    have hmap : m'.classes.entries.map id =
        m'.classes.entries.map (Class.renewedAll m' m'.associations.entries) := by
      rw [← hclasses, hself, List.map_id]
    exact (List.map_inj_left.1 hmap c hc).symm
  · intro hrenewed
    refine ext_entries ?_ hassociations
    rw [hclasses, List.map_congr_left hrenewed, List.map_id']

/-- **When a compiled model is left as it is**: exactly if its views stand in the order in which a
compilation renews them, and its bodies are settled. -/
theorem Compiles.recompiles_iff (h : m.Compiles settings report m') (hnames : m.LeavesDateNames)
    (hreceived : m.Received) : m'.Recompiles settings ↔ m'.Renewed ∧ m'.Settled := by
  have hreceived' := h.received hreceived
  constructor
  · rintro ⟨report', hcompile, hunchanged⟩
    have h' := compiles_of_compile hcompile
    obtain ⟨-, -, hzero⟩ := Report.isUnchanged_iff.1 hunchanged
    have hself := (h'.dated_eq_zero_iff.1 hzero).symm
    refine ⟨(h.prepared_eq_self_iff hnames).1 hself, ?_, ?_⟩
    · intro c hc
      have hclass := h'.classes
      rw [hself] at hclass
      have hdates := (List.forall₂_same.1 hclass c hc).2
      exact (fixes_iff (hreceived'.1 c hc)).1 (dates_self_iff.1 hdates)
    · -- no association has changed, so that all are dated against the same calls
      intro a ha
      have hassociation := h'.associations
      rw [hself, (Association.changed_eq_nil_iff rfl).2 rfl] at hassociation
      obtain ⟨n, hn, hredated⟩ := List.forall₂_same.1 hassociation a ha
      have hdates := hredated.2.congr hn.sameCalls
      exact (fixes_iff (hreceived'.2 a ha)).1 (dates_self_iff.1 hdates)
  · rintro ⟨hrenewed, hsettled⟩
    have hself := (h.prepared_eq_self_iff hnames).2 hrenewed
    obtain ⟨-, -, hdates, hedges⟩ := h.prepared_eq hnames
    have hclassified : m'.classify settings.strictShapes = .ok report.temporalClasses := by
      rw [classify_eq_ok_iff, h.frame, ← classify_eq_ok_iff]
      exact h.classified
    have hfixedClasses : ∀ c ∈ m'.classes.entries, m'.Fixes c.qualified :=
      fun c hc => (fixes_iff (hreceived'.1 c hc)).2 (hsettled.1 c hc)
    have hfixedAssociations : ∀ a ∈ m'.associations.entries, m'.Fixes a.qualified :=
      fun a ha => (fixes_iff (hreceived'.2 a ha)).2 (hsettled.2 a ha)
    refine ⟨⟨report.temporalClasses, 0, 0, 0⟩, ?_, rfl⟩
    rw [compile_eq_ok_iff, hself, hdates, hedges]
    exact ⟨_, _, 0, 0, hclassified, dateClasses_of_fixes hfixedClasses,
      dateAssociations_of_fixes hfixedAssociations, rfl⟩

end Model

end Bitemporal
