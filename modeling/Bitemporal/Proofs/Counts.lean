/-
Bitemporal/Proofs/Counts.lean

What the counters of a report count.

Each stage of a compilation counts what it does to the model it is given.  Here
the counters are read off the two models before the first and after the last
stage.  The dates that were added are date properties, and no later stage adds
or drops one (`countP_isGeneratedDate_milestoned`); each replaced property has
become an edge point, and nothing else has (`countP_isEdgePoint_milestoned`).
For the bodies the lists of qualified properties are compared place by place:
what milestoning has put behind them is generated, and dating leaves alone what
is generated, be it new or not (`Dates.extends`).
-/
import Bitemporal.Proofs.Recompilation

namespace Bitemporal

/-! ### Properties -/

namespace Class

/-- The dates that a class gets are date properties, and none of them an edge point. -/
theorem withDates_properties_eq (c : Class) :
    ∃ dates, c.withDates.properties = c.properties ++ dates ∧
      ∀ p ∈ dates, p.isGeneratedDate = true ∧ p.isEdgePoint = false := by
  rcases hshape : c.shape? with - | shape
  · refine ⟨[], ?_, nofun⟩
    rw [withDates_of_none hshape, List.append_nil]
  · rw [withDates_of_shape hshape, Property.addNamed_eq, foldl_putNew]
    refine ⟨_, rfl, fun p hp => ?_⟩
    have hp' := (mem_of_mem_news hp).1
    refine ⟨isGeneratedDate_of_mem hp', ?_⟩
    rw [datePropertiesOf, List.mem_append, List.mem_map, List.mem_singleton] at hp'
    rcases hp' with ⟨name, -, rfl⟩ | rfl <;> rfl

/-- A class that gets no date is left as it is. -/
theorem withDates_eq_self_of_length {c : Class}
    (h : c.withDates.properties.length - c.properties.length = 0) : c.withDates = c := by
  have hproperties : c.withDates.properties = c.properties := by
    obtain ⟨dates, hdates, -⟩ := c.withDates_properties_eq
    rw [hdates, List.length_append, Nat.add_sub_cancel_left, List.length_eq_zero_iff] at h
    rw [hdates, h, List.append_nil]
  rcases hshape : c.shape? with - | shape
  · exact withDates_of_none hshape
  · have hfold : (c.datePropertiesOf shape).foldl Property.addNamed c.properties = c.properties := by
      rw [withDates_of_shape hshape] at hproperties
      exact hproperties
    rw [withDates_of_shape hshape, hfold]

end Class

namespace Model

variable (m : Model) (filter : RangeFilter) (sourceOf : Property → Option String) (members : Members)

/-- Milestoning neither adds nor drops a date property. -/
theorem countP_isGeneratedDate_milestoned :
    (m.milestonedMembers filter sourceOf members).properties.countP Property.isGeneratedDate =
      members.properties.countP Property.isGeneratedDate := by
  show (members.properties.map _).countP _ = _
  rw [List.countP_map]
  refine List.countP_congr fun p _ => ?_
  show (if _ then Edge.edgePoint p .generated else p).isGeneratedDate = true ↔ _
  split
  · -- the tag of edge points is not that of dates
    show (p.toAnnotations.tagged .generated).hasStereotype Naming.generatedDateTag = true ↔ _
    rw [Annotations.hasStereotype_tagged, Bool.or_eq_true]
    exact or_iff_left (by decide)
  · exact Iff.rfl

/-- Milestoning makes an edge point of each edge, and keeps those that are there. -/
theorem countP_isEdgePoint_milestoned :
    (m.milestonedMembers filter sourceOf members).properties.countP Property.isEdgePoint =
      members.properties.countP Property.isEdgePoint + (m.edgesOf sourceOf members).length := by
  show (members.properties.map _).countP _ = _ + (members.properties.filterMap _).length
  generalize members.properties = ps
  induction ps with
  | nil => rfl
  | cons p ps ih =>
    rw [List.map_cons, List.countP_cons, List.countP_cons, List.filterMap_cons, ih]
    rcases hp : m.edge? sourceOf p with - | e
    · simp only [Option.isSome_none, Bool.false_eq_true, if_false]
      omega
    · -- an edge was not generated, and so was no edge point yet
      have hgenerated := (edge?_eq_some_iff.1 hp).1
      rw [Property.isGenerated, Bool.or_eq_false_iff] at hgenerated
      simp only [Option.isSome_some, if_true, Edge.isEdgePoint_edgePoint, hgenerated.1,
        List.length_cons, Bool.false_eq_true, if_false]
      omega

end Model

/-! ### What the counters are compared with -/

namespace Model

/-- The number of date properties that the classes of a model declare. -/
def generatedDates (m : Model) : Nat :=
  (m.classes.entries.map fun c => c.properties.countP Property.isGeneratedDate).sum

/-- The number of edge points that the classes and associations of a model declare. -/
def edgePoints (m : Model) : Nat :=
  (m.classes.entries.map fun c => c.properties.countP Property.isEdgePoint).sum +
    (m.associations.entries.map fun a => a.properties.countP Property.isEdgePoint).sum

end Model

/-- The number of bodies, generated ones apart, that differ between two lists of qualified
properties, place by place. -/
def rewritten (before after : List QualifiedProperty) : Nat :=
  (before.zip after).countP fun (q, r) => !q.isGenerated && q.body != r.body

/-- The same, summed over two lists of elements. -/
def rewrittenIn {α : Type} (qualified : α → List QualifiedProperty) (before after : List α) : Nat :=
  ((before.zip after).map fun (a, b) => rewritten (qualified a) (qualified b)).sum

/-- The same for all classes and associations of two models. -/
def Model.rewrittenBodies (m m' : Model) : Nat :=
  rewrittenIn (·.qualified) m.classes.entries m'.classes.entries +
    rewrittenIn (·.qualified) m.associations.entries m'.associations.entries

/-- The qualified properties stand where they stood, in all but their bodies, and behind them
generated ones. -/
def QualifiedProperty.Extends (after before : List QualifiedProperty) : Prop :=
  (after.take before.length).map QualifiedProperty.header = before.map QualifiedProperty.header ∧
    ∀ q ∈ after.drop before.length, q.isGenerated = true

/-! ### Sums -/

/-- Sums over lists that correspond compare as their summands do. -/
theorem sum_map_of_forall₂ {α β : Type} {R : α → β → Prop} {l : List α} {l' : List β}
    {f k : α → Nat} {g : β → Nat} (h : List.Forall₂ R l l')
    (hR : ∀ a b, R a b → g b = f a + k a) :
    (l'.map g).sum = (l.map f).sum + (l.map k).sum := by
  induction h with
  | nil => rfl
  | cons hab _ ih =>
    simp only [List.map_cons, List.sum_cons]
    rw [ih, hR _ _ hab]
    omega

namespace Class.Compiled

variable {m : Model} {filter : RangeFilter} {as : List Association} {c c' : Class}

theorem countP_isGeneratedDate (h : c.Compiled m filter as c') :
    c'.properties.countP Property.isGeneratedDate =
      c.properties.countP Property.isGeneratedDate +
        (c.withDates.properties.length - c.properties.length) := by
  obtain ⟨dates, hdates, htags⟩ := c.withDates_properties_eq
  have hcount : dates.countP Property.isGeneratedDate = dates.length :=
    List.countP_eq_length.2 fun p hp => (htags p hp).1
  rw [h.properties]
  show (m.milestonedMembers _ _ c.withDates.toMembers).properties.countP _ = _
  rw [Model.countP_isGeneratedDate_milestoned, hdates, List.countP_append, hcount,
    List.length_append, Nat.add_sub_cancel_left]

theorem countP_isEdgePoint (h : c.Compiled m filter as c') :
    c'.properties.countP Property.isEdgePoint =
      c.properties.countP Property.isEdgePoint + (m.classEdges c.withDates).length := by
  obtain ⟨dates, hdates, htags⟩ := c.withDates_properties_eq
  have hcount : dates.countP Property.isEdgePoint = 0 :=
    List.countP_eq_zero.2 fun p hp => by simp [(htags p hp).2]
  rw [h.properties]
  show (m.milestonedMembers _ _ c.withDates.toMembers).properties.countP _ = _
  rw [Model.countP_isEdgePoint_milestoned, hdates, List.countP_append, hcount, Model.classEdges,
    c.withDates_path, Nat.add_zero]

end Class.Compiled

theorem Association.Compiled.countP_isEdgePoint {m : Model} {filter : RangeFilter}
    {as : List Association} {a a' : Association} (h : a.Compiled m filter as a') :
    a'.properties.countP Property.isEdgePoint =
      a.properties.countP Property.isEdgePoint + (m.associationEdges a).length := by
  rw [h.properties]
  exact m.countP_isEdgePoint_milestoned filter _ a.toMembers

namespace Model

variable {m m' : Model} {settings : Settings} {report : Report}

theorem Compiles.generatedDates_eq (h : m.Compiles settings report m') :
    m'.generatedDates = m.generatedDates + report.synthesized := by
  rw [h.synthesized]
  exact sum_map_of_forall₂ h.forall₂_classes fun _ _ hc => hc.countP_isGeneratedDate

theorem Compiles.edgePoints_eq (h : m.Compiles settings report m') :
    m'.edgePoints = m.edgePoints + report.milestoned := by
  have hclasses := sum_map_of_forall₂ h.forall₂_classes fun _ _ hc => hc.countP_isEdgePoint
  have hassociations := sum_map_of_forall₂ h.forall₂_associations fun _ _ ha => ha.countP_isEdgePoint
  rw [h.milestoned, edgePoints, edgePoints, edgeCount, hclasses, hassociations]
  omega

/-! ### Bodies -/

variable {qs qs' gs : List QualifiedProperty}

/-- Dating leaves generated bodies alone, so that they need not be excepted. -/
theorem Dates.changedBodies_eq (h : m.Dates qs qs') : changedBodies qs qs' = rewritten qs qs' := by
  refine List.countP_congr fun x hx => ?_
  have hdate : m.dateBody .builtin x.1 = .ok x.2 := (List.forall₂_iff_zip.1 h).2 hx
  show (x.1.body != x.2.body) = true ↔ (!x.1.isGenerated && x.1.body != x.2.body) = true
  rcases hgenerated : x.1.isGenerated
  · rw [Bool.not_false, Bool.true_and]
  · rw [dateBody_of_isGenerated hgenerated] at hdate
    rw [← Except.ok.inj hdate]
    simp

/-- **What becomes of a list of qualified properties** that milestoning has put accessors behind. -/
theorem Dates.extends (h : m.Dates (qs ++ gs) qs') (hgs : ∀ q ∈ gs, q.isGenerated = true) :
    QualifiedProperty.Extends qs' qs ∧ changedBodies (qs ++ gs) qs' = rewritten qs qs' := by
  obtain ⟨ds, rfl, hds⟩ := h.of_append hgs
  have hlength := hds.length_eq
  refine ⟨⟨?_, ?_⟩, ?_⟩
  · rw [hlength, List.take_left, hds.headers]
  · rw [hlength, List.drop_left]
    exact hgs
  · have hzip : qs.zip (ds ++ gs) = qs.zip ds ++ [].zip gs := by
      rw [← List.zip_append hlength, List.append_nil]
    rw [rewritten, hzip, List.zip_nil_left, List.append_nil, ← rewritten, ← hds.changedBodies_eq,
      changedBodies_append hlength]

/-- What has been put behind qualified properties on the way is no part of what is counted. -/
theorem changedBodiesIn_map_left {α : Type} (qualified : α → List QualifiedProperty) (f : α → α)
    {R : α → α → Prop} {l l' : List α} (h : List.Forall₂ R l l') (hR : ∀ a b, R a b →
      changedBodies (qualified (f a)) (qualified b) = rewritten (qualified a) (qualified b)) :
    changedBodiesIn qualified (l.map f) l' = rewrittenIn qualified l l' := by
  rw [changedBodiesIn, rewrittenIn]
  induction h with
  | nil => rfl
  | cons hab _ ih =>
    rw [List.map_cons, List.zip_cons_cons, List.zip_cons_cons, List.map_cons, List.map_cons,
      List.sum_cons, List.sum_cons, ih]
    exact congrArg (· + _) (hR _ _ hab)

end Model

theorem Class.Compiled.extends {m : Model} {filter : RangeFilter} {as : List Association}
    {c c' : Class} (h : c.Compiled m filter as c') :
    QualifiedProperty.Extends c'.qualified c.qualified ∧
      changedBodies (c.equipped m filter).qualified c'.qualified =
        rewritten c.qualified c'.qualified := by
  have hdates := h.dates
  rw [Model.equipped_qualified] at hdates ⊢
  refine hdates.extends fun q hq => ?_
  obtain ⟨e, -, he⟩ := List.mem_flatMap.1 (mem_of_mem_news hq).1
  exact (Model.of_mem_accessorsOf he).1

theorem Association.Compiled.extends {m : Model} {filter : RangeFilter} {as : List Association}
    {a a' : Association} (h : a.Compiled m filter as a') :
    QualifiedProperty.Extends a'.qualified a.qualified ∧
      changedBodies (a.milestoned m filter).qualified a'.qualified =
        rewritten a.qualified a'.qualified := by
  obtain ⟨n, -, hdates⟩ := h.dates
  rw [a.milestoned_qualified] at hdates ⊢
  refine hdates.extends fun q hq => ?_
  obtain ⟨e, -, he⟩ := List.mem_flatMap.1 (mem_of_mem_news hq).1
  exact (Model.of_mem_accessorsOf he).1

namespace Model

variable {m m' : Model} {settings : Settings} {report : Report}

theorem Compiles.rewrittenBodies_eq (h : m.Compiles settings report m') :
    report.dated = m.rewrittenBodies m' := by
  have hclasses := changedBodiesIn_map_left (fun c : Class => c.qualified)
    (fun c => Class.renewedAll m (m.milestonedAssociations settings.rangeFilter)
      (c.equipped m settings.rangeFilter)) h.forall₂_classes fun c c' hc => by
        rw [Class.renewedAll_qualified]
        exact hc.extends.2
  have hassociations := changedBodiesIn_map_left (fun a : Association => a.qualified)
    (Association.milestoned m settings.rangeFilter) h.forall₂_associations
      fun a a' ha => ha.extends.2
  rw [h.dated, rewrittenBodies, ← hclasses, ← hassociations]
  rfl

/-- **The counters of a report are exact.**  The temporal classes are those with a shape, in the
order of paths.  There are as many date properties more as were added, and as many edge points more
as properties were replaced.  And where qualified properties stand, those standing at their places
after the compilation are the same in all but their bodies; the bodies that differ are counted. -/
theorem counts_of_compile (h : m.compile .builtin settings = .ok (report, m')) :
    (report.temporalClasses =
      m.classes.entries.filterMap fun c => c.shape?.map fun shape => (c.path, shape)) ∧
    m'.generatedDates = m.generatedDates + report.synthesized ∧
    m'.edgePoints = m.edgePoints + report.milestoned ∧
    List.Forall₂ (fun c c' => c'.path = c.path ∧ QualifiedProperty.Extends c'.qualified c.qualified)
      m.classes.entries m'.classes.entries ∧
    List.Forall₂ (fun a a' => a'.path = a.path ∧ QualifiedProperty.Extends a'.qualified a.qualified)
      m.associations.entries m'.associations.entries ∧
    report.dated = m.rewrittenBodies m' := by
  have h' := compiles_of_compile h
  refine ⟨?_, h'.generatedDates_eq, h'.edgePoints_eq, ?_, ?_, h'.rewrittenBodies_eq⟩
  · rw [(classify_eq_ok_iff.1 h'.classified).2, frame, List.filterMap_map]
    rfl
  · exact h'.forall₂_classes.imp fun c c' hc => ⟨hc.path, hc.extends.1⟩
  · exact h'.forall₂_associations.imp fun a a' ha => ⟨ha.path, ha.extends.1⟩

/-- A model some of whose members were generated before: of the accounts a date and an edge point are
there, and another edge is still to be replaced. -/
def drafted : Model :=
  let this : Variable := { name := "this", type := .ofClass "m::Account", multiplicity := .one }
  let person : Typing := ⟨.ofClass "m::Person", .zeroOne⟩
  ofDocument {
    classes := [
      { path := "m::Account"
        stereotypes := [.resolved temporalProfile Shape.business.name]
        properties := [
          { person with name := "holder", owner := .ofClass "m::Account" },
          { person with
            name := "agentAllVersions", owner := .ofClass "m::Account", stereotypes := [.generated] },
          { Typing.date with
            name := "businessDate", owner := .ofClass "m::Account"
            stereotypes := [.generatedDate] }]
        qualified := [
          { person with
            name := "responsible", owner := .ofClass "m::Account"
            signature := { parameters := [this], result := person }
            body := [
              (Navigation.plain "m::Account" "holder" this.reference []).toExpression person] }] },
      { path := "m::Person", stereotypes := [.resolved temporalProfile Shape.business.name] }] }

/-- What was there before is counted on both sides. -/
theorem drafted_counts : ∃ report m', drafted.compile .builtin {} = .ok (report, m') ∧
    report = ⟨[("m::Account", .business), ("m::Person", .business)], 3, 1, 1⟩ ∧
    m'.generatedDates = 1 + 3 ∧ m'.edgePoints = 1 + 1 ∧ drafted.rewrittenBodies m' = 1 := by
  have hreport : (drafted.compile .builtin {}).toOption.map (·.1) =
      some ⟨[("m::Account", .business), ("m::Person", .business)], 3, 1, 1⟩ := by
    decide +kernel
  rcases hcompile : drafted.compile .builtin {} with fault | ⟨report, m'⟩
  · rw [hcompile] at hreport
    cases hreport
  · rw [hcompile] at hreport
    obtain rfl := Option.some.inj hreport
    obtain ⟨-, hdates, hpoints, -, -, hbodies⟩ := counts_of_compile hcompile
    exact ⟨_, m', rfl, rfl, hdates, hpoints, hbodies.symm⟩

end Model

end Bitemporal
