/-
Bitemporal/Proofs/Stages.lean

The stages of a compilation that come before the dating of bodies.

With all built-in symbols these stages cannot fail.  What they make of a model
is written down as a whole (`Model.prepared`): every class gets its dates and
has its edges replaced, every association has its edges replaced, and then the
views of all associations are renewed in the order of their paths.  All of it
refers to the frame of the model the compilation started from.

`compile_builtin` puts a compilation together from the classification, the
prepared model and the two runs that date its bodies.
-/
import Bitemporal.Proofs.Calls
import Bitemporal.Proofs.Classification
import Mathlib.Algebra.GroupWithZero.Nat

namespace Bitemporal

/-! ### Steps on single classes -/

namespace PathTable

open HasPath

variable {α : Type} [HasPath α]

/-- A table with every entry changed in place. -/
def mapEntries (t : PathTable α) (f : α → α) (hf : ∀ a, path (f a) = path a) : PathTable α where
  entries := t.entries.map f
  ascending := by
    rw [List.pairwise_map]
    simp only [hf]
    exact t.ascending

/-- What a change does to an entry that is known. -/
theorem modify_of_find? {t : PathTable α} {p : String} {a : α} {f : α → α}
    (h : t.find? p = some a) : t.modify p f = t.insert (f a) := by
  rw [modify, h]

theorem insert_self {t : PathTable α} {a : α} (h : a ∈ t.entries) : t.insert a = t := by
  obtain ⟨l₁, l₂, ht⟩ := List.append_of_mem h
  apply ext_entries
  rw [entries_insert_middle ht rfl, ht]

end PathTable

namespace Model

theorem modifyClass_of_class? {m : Model} {p : String} {c : Class} {f : Class → Class}
    (h : m.class? p = some c) : m.modifyClass p f = m.addClass (f c) := by
  rw [modifyClass, addClass, PathTable.modify_of_find? h]

theorem addClass_self {m : Model} {p : String} {c : Class} (h : m.class? p = some c) :
    m.addClass c = m := by
  rw [addClass, PathTable.insert_self (class?_eq_some_iff.1 h).1]

theorem modifyClass_entries {m : Model} {p : String} {f : Class → Class}
    (hf : ∀ c, (f c).frame = c.frame) :
    (m.modifyClass p f).classes.entries =
      m.classes.entries.map fun c => if c.path = p then f c else c :=
  PathTable.entries_modify fun c => congrArg Prod.fst (hf c)

theorem modifyClass_frame {m : Model} {p : String} {f : Class → Class}
    (hf : ∀ c, (f c).frame = c.frame) : (m.modifyClass p f).frame = m.frame := by
  refine frame_of_map (fun c => ?_) (modifyClass_entries hf)
  split
  · exact hf c
  · rfl

/-- Where some classes have been changed, one more is. -/
theorem modifyClass_entries_visited {m m₁ : Model} {g : Class → Class} {visited : List Class}
    {a : Class} (hg : ∀ c, (g c).frame = c.frame) (ha : a ∈ m.classes.entries) (hnew : a ∉ visited)
    (hclasses : m₁.classes.entries = m.classes.entries.map fun c => if c ∈ visited then g c else c) :
    (m₁.modifyClass a.path g).classes.entries =
      m.classes.entries.map fun c => if c ∈ visited ++ [a] then g c else c := by
  rw [modifyClass_entries hg, hclasses, List.map_map]
  refine List.map_congr_left fun c hc => ?_
  rw [Function.comp_apply]
  by_cases hca : c = a
  · subst hca
    rw [if_neg hnew, if_pos rfl, if_pos (by simp)]
  · -- another class has another path
    have hpath : (if c ∈ visited then g c else c).path ≠ a.path := by
      intro he
      refine hca (m.classes.eq_of_path_eq hc ha ?_)
      split at he
      · exact (congrArg Prod.fst (hg c)).symm.trans he
      · exact he
    rw [if_neg hpath]
    simp [hca]

/-- A run whose steps change one class each changes each of them, and counts over them.  `classOf`
gives the class of an element, and `item` what the step is told of it. -/
theorem forEach_modifyClass {α ι : Type} (item : α → ι) (classOf : α → Class)
    (step : Model → ι → Except Fault (Model × Nat)) (m : Model) (l : List α) (g : Class → Class)
    (count : Class → Nat) (hl : (l.map classOf).Sublist m.classes.entries)
    (hg : ∀ c, (g c).frame = c.frame)
    (hstep : ∀ m₁ a, a ∈ l → m₁.frame = m.frame → m₁.class? (classOf a).path = some (classOf a) →
      step m₁ (item a) = .ok (m₁.modifyClass (classOf a).path g, count (classOf a))) :
    ∃ m', forEach step m (l.map item) = .ok (m', ((l.map classOf).map count).sum) ∧
      m'.associations = m.associations ∧
      m'.classes.entries = m.classes.entries.map fun c => if c ∈ l.map classOf then g c else c := by
  have hnodup : (l.map classOf).Nodup := by
    have hpaths := (hl.map Class.path).nodup m.classes.nodup_paths
    exact List.Nodup.of_map Class.path hpaths
  obtain ⟨m', n, hrun, ha, hc, rfl⟩ := forEach_ok item l step m
    (fun visited m' n => m'.associations = m.associations ∧
      (m'.classes.entries =
        m.classes.entries.map fun c => if c ∈ visited.map classOf then g c else c) ∧
      n = ((visited.map classOf).map count).sum) ⟨rfl, by simp, rfl⟩ (by
    rintro visited a rest m₁ n₁ hsplit ⟨ha, hc, rfl⟩
    have hal : a ∈ l := hsplit ▸ by simp
    have hmem : classOf a ∈ m.classes.entries := hl.subset (List.mem_map_of_mem hal)
    -- no class is visited twice, so that this one is as it was
    have hnew : classOf a ∉ visited.map classOf := by
      rw [hsplit, List.map_append, List.nodup_append] at hnodup
      exact fun h => hnodup.2.2 _ h _ List.mem_cons_self rfl
    have hclass : m₁.class? (classOf a).path = some (classOf a) := by
      rw [class?_eq_some_iff, hc]
      refine ⟨List.mem_map.2 ⟨classOf a, hmem, ?_⟩, rfl⟩
      rw [if_neg hnew]
    have hframe : m₁.frame = m.frame := by
      refine frame_of_map (fun c => ?_) hc
      split
      · exact hg c
      · rfl
    have hvisited : (visited ++ [a]).map classOf = visited.map classOf ++ [classOf a] := List.map_append
    refine ⟨_, _, hstep m₁ a hal hframe hclass, ha, ?_, ?_⟩
    · rw [hvisited]
      exact modifyClass_entries_visited hg hmem hnew hc
    · rw [hvisited, List.map_append, List.sum_append]
      simp)
  exact ⟨m', hrun, ha, hc⟩

end Model

/-! ### Classification -/

namespace Model

/-- The frame decides the classification. -/
theorem classify_eq_ok_iff {m : Model} {strict : Bool} {t : List (String × Shape)} :
    m.classify strict = .ok t ↔
      (∀ f ∈ m.frame, (strict && decide (1 < f.2.shapes.length)) = false) ∧
        t = m.frame.filterMap fun f => f.2.shape?.map fun shape => (f.1, shape) := by
  have hmap : (m.classes.entries.map fun c => (c.path, c.shape?)).filterMap
      (fun z => z.2.map fun shape => (z.1, shape)) =
        m.frame.filterMap fun f => f.2.shape?.map fun shape => (f.1, shape) := by
    rw [frame, List.filterMap_map, List.filterMap_map]
    rfl
  have hchecked : ∀ c : Class, (strict && decide (1 < c.shapes.length)) = false →
      (do return (c.path, ← c.shapeChecked strict) : Except Fault (String × Option Shape)) =
        .ok (c.path, c.shape?) := by
    intro c hc
    rw [c.shapeChecked_eq_ok_iff.2 ⟨hc, rfl⟩]
    rfl
  rw [classify, bind_eq_ok]
  constructor
  · rintro ⟨shapes, hshapes, ht⟩
    have hall : ∀ c ∈ m.classes.entries, (strict && decide (1 < c.shapes.length)) = false := by
      intro c hc
      obtain ⟨b, -, hb⟩ := exists_of_forall₂_left (forall₂_of_mapM_eq_ok hshapes) hc
      obtain ⟨shape?, hshape, -⟩ := bind_eq_ok.1 hb
      exact (c.shapeChecked_eq_ok_iff.1 hshape).1
    rw [mapM_eq_ok fun c hc => hchecked c (hall c hc)] at hshapes
    obtain rfl := Except.ok.inj hshapes
    obtain rfl := Except.ok.inj ht
    refine ⟨?_, hmap⟩
    rintro _ hf
    obtain ⟨c, hc, rfl⟩ := List.mem_map.1 hf
    exact hall c hc
  · rintro ⟨hall, rfl⟩
    refine ⟨_, mapM_eq_ok fun c hc => hchecked c (hall _ (List.mem_map_of_mem hc)), ?_⟩
    rw [← hmap]
    rfl

/-! ### Dates and edges of classes -/

/-- The number of date properties that the classes of a model lack. -/
def lackedDates (m : Model) : Nat :=
  (m.classes.entries.map fun c => c.withDates.properties.length - c.properties.length).sum

/-- The classes of a model that have a shape, with it. -/
def temporal (m : Model) : List (Class × Shape) :=
  m.classes.entries.filterMap fun c => c.shape?.map fun shape => (c, shape)

theorem mem_temporal {m : Model} {x : Class × Shape} :
    x ∈ m.temporal ↔ x.1 ∈ m.classes.entries ∧ x.1.shape? = some x.2 := by
  rw [temporal, List.mem_filterMap]
  simp only [Option.map_eq_some_iff]
  constructor
  · rintro ⟨c, hc, shape, hshape, rfl⟩
    exact ⟨hc, hshape⟩
  · rintro ⟨hc, hshape⟩
    exact ⟨x.1, hc, x.2, hshape, rfl⟩

theorem map_fst_temporal (m : Model) :
    m.temporal.map (·.1) = m.classes.entries.filter (·.shape?.isSome) := by
  rw [temporal, List.map_filterMap, ← List.filterMap_eq_filter]
  refine List.filterMap_congr fun c _ => ?_
  rcases hshape : c.shape? with - | shape
  · simp [Option.guard, hshape]
  · simp [Option.guard, hshape]

/-- What a classification records of them. -/
theorem recorded_eq (m : Model) :
    (m.frame.filterMap fun f => f.2.shape?.map fun shape => (f.1, shape)) =
      m.temporal.map fun x => (x.1.path, x.2) := by
  rw [frame, List.filterMap_map, temporal, List.map_filterMap]
  refine List.filterMap_congr fun c _ => ?_
  rw [Option.map_map]
  rfl

/-- Classes without a shape lack no dates. -/
theorem sum_lackedDates_filter (l : List Class) :
    ((l.filter (·.shape?.isSome)).map fun c =>
        c.withDates.properties.length - c.properties.length).sum =
      (l.map fun c => c.withDates.properties.length - c.properties.length).sum := by
  induction l with
  | nil => rfl
  | cons c l ih =>
    rw [List.filter_cons, List.map_cons, List.sum_cons]
    split
    · rw [List.map_cons, List.sum_cons, ih]
    · rename_i hshape
      rw [ih, Class.withDates_of_none (by simpa using hshape), Nat.sub_self, Nat.zero_add]

/-- Adding the date properties of one class, with the shape that was recorded for it. -/
theorem synthesizeAt_run {m : Model} {c : Class} {shape : Shape} (hshape : c.shape? = some shape)
    (hclass : m.class? c.path = some c) :
    synthesizeAt .builtin m (c.path, shape) = .ok (m.modifyClass c.path Class.withDates,
      c.withDates.properties.length - c.properties.length) := by
  rw [synthesizeAt, hclass, modifyClass_of_class? hclass]
  dsimp only
  rw [Class.addDateProperties_builtin hshape]
  rfl

/-- Adding the date properties of all temporal classes. -/
theorem synthesize_run {m : Model} {strict : Bool} {t : List (String × Shape)}
    (h : m.classify strict = .ok t) :
    ∃ m', forEach (synthesizeAt .builtin) m t = .ok (m', m.lackedDates) ∧
      m'.associations = m.associations ∧
      m'.classes.entries = m.classes.entries.map Class.withDates := by
  obtain ⟨-, rfl⟩ := classify_eq_ok_iff.1 h
  -- until a class is visited it has the shape that was recorded
  obtain ⟨m', hrun, ha, hc⟩ := forEach_modifyClass (fun x => (x.1.path, x.2)) (·.1)
    (synthesizeAt .builtin) m m.temporal Class.withDates
    (fun c => c.withDates.properties.length - c.properties.length)
    (m.map_fst_temporal ▸ List.filter_sublist) Class.withDates_frame
    fun _ _ hx _ hclass => synthesizeAt_run (mem_temporal.1 hx).2 hclass
  rw [map_fst_temporal] at hrun hc
  refine ⟨m', ?_, ha, ?_⟩
  · rw [recorded_eq, hrun, sum_lackedDates_filter, lackedDates]
  · rw [hc]
    refine List.map_congr_left fun c hcm => ?_
    split
    · rfl
    · -- the class was not visited, and has no dates to be added
      rename_i h
      have hshape : c.shape? = none := by
        rw [← Option.not_isSome_iff_eq_none]
        exact fun hs => h (List.mem_filter.2 ⟨hcm, hs⟩)
      exact (Class.withDates_of_none hshape).symm

/-- The edges that a class declares. -/
def classEdges (m : Model) (c : Class) : List Edge :=
  m.edgesOf (fun _ => some c.path) c.toMembers

theorem classEdges_frame {m m' : Model} (h : m'.frame = m.frame) (c : Class) :
    m'.classEdges c = m.classEdges c :=
  edgesOf_frame h _ _

/-- The edges among the ends of an association. -/
def associationEdges (m : Model) (a : Association) : List Edge :=
  m.edgesOf (fun p => m.exposingClass? a p.type) a.toMembers

theorem associationEdges_frame {m m' : Model} (h : m'.frame = m.frame) (a : Association) :
    m'.associationEdges a = m.associationEdges a := by
  have hexposing : m'.exposingClass? a = m.exposingClass? a := funext (exposingClass?_frame h a)
  rw [associationEdges, associationEdges, edgesOf_frame h, hexposing]

end Model

/-- The class with its edges replaced. -/
def Class.milestoned (m : Model) (filter : RangeFilter) (c : Class) : Class :=
  { c with toMembers := m.milestonedMembers filter (fun _ => some c.path) c.toMembers }

/-- The association with its edges replaced. -/
def Association.milestoned (m : Model) (filter : RangeFilter) (a : Association) : Association :=
  { a with
    toMembers := m.milestonedMembers filter (fun p => m.exposingClass? a p.type) a.toMembers }

@[simp] theorem Class.milestoned_frame (m : Model) (filter : RangeFilter) (c : Class) :
    (c.milestoned m filter).frame = c.frame := rfl

theorem Class.milestoned_of_frame {m m' : Model} (h : m'.frame = m.frame) (filter : RangeFilter)
    (c : Class) : c.milestoned m' filter = c.milestoned m filter := by
  rw [milestoned, milestoned, Model.milestonedMembers_frame h]

theorem Association.milestoned_of_frame {m m' : Model} (h : m'.frame = m.frame) (filter : RangeFilter)
    (a : Association) : a.milestoned m' filter = a.milestoned m filter := by
  have hexposing : m'.exposingClass? a = m.exposingClass? a := funext (Model.exposingClass?_frame h a)
  rw [milestoned, milestoned, Model.milestonedMembers_frame h, hexposing]

@[simp] theorem Association.milestoned_path (m : Model) (filter : RangeFilter) (a : Association) :
    (a.milestoned m filter).path = a.path := rfl

namespace Model

/-- Replacing the edges of one class. -/
theorem milestoneClass_run {m m₁ : Model} (filter : RangeFilter) {c : Class}
    (hframe : m₁.frame = m.frame) (hclass : m₁.class? c.path = some c) :
    m₁.milestoneClass .builtin filter c.path =
      .ok (m₁.modifyClass c.path (Class.milestoned m filter), (m.classEdges c).length) := by
  obtain ⟨done, hdone, hmembers, hnames⟩ :=
    m₁.milestone_builtin filter c.toMembers fun _ => some c.path
  rw [edgesOf_frame hframe, ← classEdges] at hnames
  rw [milestonedMembers_frame hframe] at hmembers
  rw [milestoneClass, hclass, modifyClass_of_class? hclass]
  refine bind_eq_ok.2 ⟨done, hdone, ?_⟩
  split
  · -- without edges the class is its own milestoned form
    rename_i hempty
    have hnil : m.classEdges c = [] := by
      rw [hnames, List.isEmpty_iff, List.map_eq_nil_iff] at hempty
      exact hempty
    have hself : c.milestoned m filter = c := by
      rw [Class.milestoned, milestonedMembers_of_edgesOf_eq_nil hnil]
    rw [hself, addClass_self hclass, hnil]
    rfl
  · rw [modifyClass_of_class? hclass, hmembers, hnames, List.length_map]
    rfl

/-- Replacing the edges of all classes. -/
theorem milestoneClasses_run (m : Model) (filter : RangeFilter) :
    ∃ m', forEach (milestoneClass · .builtin filter ·) m m.classes.paths =
        .ok (m', (m.classes.entries.map fun c => (m.classEdges c).length).sum) ∧
      m'.associations = m.associations ∧
      m'.classes.entries = m.classes.entries.map (Class.milestoned m filter) := by
  obtain ⟨m', hrun, ha, hc⟩ := forEach_modifyClass Class.path id (milestoneClass · .builtin filter ·) m
    m.classes.entries (Class.milestoned m filter) (fun c => (m.classEdges c).length)
    (List.map_id _ ▸ List.Sublist.refl _) (Class.milestoned_frame m filter)
    fun _ _ _ hframe hclass => milestoneClass_run filter hframe hclass
  rw [List.map_id] at hrun hc
  refine ⟨m', hrun, ha, ?_⟩
  rw [hc]
  exact List.map_congr_left fun c hcm => if_pos hcm

/-! ### Edges of associations -/

theorem modifyAssociation_of_association? {m : Model} {p : String} {a : Association}
    {f : Association → Association} (h : m.association? p = some a) :
    m.modifyAssociation p f = { m with associations := m.associations.insert (f a) } := by
  rw [modifyAssociation, PathTable.modify_of_find? h]

/-- Replacing the ends of one association and renewing its views. -/
theorem milestoneAssociation_run {m m₁ : Model} (filter : RangeFilter) {a : Association}
    {l₁ l₂ : List Association} (hframe : m₁.frame = m.frame)
    (ha : m₁.associations.entries = l₁ ++ a :: l₂) :
    ∃ m₂, m₁.milestoneAssociation .builtin filter a.path =
        .ok (m₂, (m.associationEdges a).length) ∧
      m₂.associations.entries = l₁ ++ a.milestoned m filter :: l₂ ∧
      m₂.classes.entries =
        m₁.classes.entries.map (Class.renewed m (a.milestoned m filter)) := by
  have hassociation : m₁.association? a.path = some a :=
    association?_path (ha ▸ List.mem_append_cons_self)
  have hexposing : m₁.exposingClass? a = m.exposingClass? a := funext (exposingClass?_frame hframe a)
  obtain ⟨done, hdone, hmembers, hnames⟩ :=
    m₁.milestone_builtin filter a.toMembers fun p => m₁.exposingClass? a p.type
  rw [edgesOf_frame hframe, hexposing, ← associationEdges] at hnames
  rw [milestonedMembers_frame hframe, hexposing] at hmembers
  -- the association as it is put back, changed or not
  let after : Model := { m₁ with associations := m₁.associations.insert (a.milestoned m filter) }
  have hafter : (if done.names.isEmpty then m₁
      else m₁.modifyAssociation a.path fun a => { a with toMembers := done.members }) = after := by
    split
    · rename_i hempty
      have hnil : m.associationEdges a = [] := by
        rw [hnames, List.isEmpty_iff, List.map_eq_nil_iff] at hempty
        exact hempty
      have hself : a.milestoned m filter = a := by
        rw [Association.milestoned, milestonedMembers_of_edgesOf_eq_nil hnil]
      show m₁ = { m₁ with associations := m₁.associations.insert (a.milestoned m filter) }
      rw [hself, PathTable.insert_self (ha ▸ List.mem_append_cons_self)]
    · rw [modifyAssociation_of_association? hassociation, hmembers]
      rfl
  have hentries : after.associations.entries = l₁ ++ a.milestoned m filter :: l₂ :=
    PathTable.entries_insert_middle ha rfl
  have hthere : after.association? a.path = some (a.milestoned m filter) :=
    association?_path (hentries ▸ List.mem_append_cons_self)
  have hframe' : after.frame = m.frame := hframe
  obtain ⟨ha₂, hc₂⟩ := after.renewViewsOf_entries (a.milestoned m filter)
  refine ⟨after.renewViewsOf (a.milestoned m filter), ?_, ?_, ?_⟩
  · rw [milestoneAssociation, hassociation]
    refine bind_eq_ok.2 ⟨done, hdone, ?_⟩
    have hrenewed : after.renewViews a.path =
        .ok (after.renewViewsOf (a.milestoned m filter)) := by
      rw [renewViews, hthere]
    rw [hafter]
    show (after.renewViews a.path >>= fun m₂ => pure (m₂, done.names.length)) = _
    rw [hrenewed, hnames, List.length_map]
    rfl
  · rw [ha₂, hentries]
  · rw [hc₂, Class.renewed_of_frame hframe']

/-- What a run over the associations of `m₀` has made of those it visited, with the rest still to
come: their ends are replaced and their views renewed. -/
structure MilestonesAssociations (m m₀ : Model) (filter : RangeFilter)
    (visited rest : List Association) (m₁ : Model) (k : Nat) : Prop where
  before : m₀.associations.entries = visited ++ rest
  after : m₁.associations.entries = visited.map (Association.milestoned m filter) ++ rest
  classes : m₁.classes.entries = m₀.classes.entries.map
    (Class.renewedAll m (visited.map (Association.milestoned m filter)))
  count : k = (visited.map fun a => (m.associationEdges a).length).sum

theorem MilestonesAssociations.visit {m m₀ m₁ : Model} {filter : RangeFilter}
    {visited rest : List Association} {a : Association} {k : Nat} (hframe : m₀.frame = m.frame)
    (h : MilestonesAssociations m m₀ filter visited (a :: rest) m₁ k) :
    ∃ m₂, m₁.milestoneAssociation .builtin filter a.path =
        .ok (m₂, (m.associationEdges a).length) ∧
      MilestonesAssociations m m₀ filter (visited ++ [a]) rest m₂
        (k + (m.associationEdges a).length) := by
  have hframe₁ : m₁.frame = m.frame :=
    (frame_of_map (fun c => Class.renewedAll_frame m _ c) h.classes).trans hframe
  obtain ⟨m₂, hstep, hassociations, hclasses⟩ := milestoneAssociation_run filter hframe₁ h.after
  refine ⟨m₂, hstep, ?_, ?_, ?_, ?_⟩
  · rw [h.before, List.append_assoc]
    rfl
  · rw [hassociations, List.map_append, List.append_assoc]
    rfl
  · rw [hclasses, h.classes, List.map_map, List.map_append]
    refine List.map_congr_left fun c _ => ?_
    rw [Class.renewedAll_append]
    rfl
  · rw [h.count, List.map_append, List.sum_append]
    simp

/-- Replacing the ends of all associations and renewing their views in turn. -/
theorem milestoneAssociations_run {m m₀ : Model} (filter : RangeFilter)
    (hframe : m₀.frame = m.frame) :
    ∃ m', forEach (milestoneAssociation · .builtin filter ·) m₀ m₀.associations.paths =
        .ok (m', (m₀.associations.entries.map fun a => (m.associationEdges a).length).sum) ∧
      m'.associations.entries = m₀.associations.entries.map (Association.milestoned m filter) ∧
      m'.classes.entries = m₀.classes.entries.map
        (Class.renewedAll m (m₀.associations.entries.map (Association.milestoned m filter))) := by
  obtain ⟨m', n, hrun, rest, hdone⟩ := forEach_ok Association.path m₀.associations.entries
    (milestoneAssociation · .builtin filter ·) m₀
    (fun visited m₁ k => ∃ rest, MilestonesAssociations m m₀ filter visited rest m₁ k)
    ⟨_, rfl, rfl, (List.map_id _).symm, rfl⟩ (by
      rintro visited a rest m₁ k hsplit ⟨rest', hvisited⟩
      obtain rfl : rest' = a :: rest := List.append_cancel_left (hvisited.before.symm.trans hsplit)
      obtain ⟨m₂, hstep, hnext⟩ := hvisited.visit hframe
      exact ⟨m₂, _, hstep, rest, hnext⟩)
  have hafter := hdone.after
  obtain rfl := List.self_eq_append_right.1 hdone.before
  rw [List.append_nil] at hafter
  refine ⟨m', ?_, hafter, hdone.classes⟩
  rw [← hdone.count]
  exact hrun

/-! ### The prepared model -/

end Model

/-- The class with its dates and with its edges replaced. -/
def Class.equipped (m : Model) (filter : RangeFilter) (c : Class) : Class :=
  c.withDates.milestoned m filter

@[simp] theorem Class.equipped_frame (m : Model) (filter : RangeFilter) (c : Class) :
    (c.equipped m filter).frame = c.frame := by
  rw [equipped, milestoned_frame, withDates_frame]

@[simp] theorem Class.equipped_path (m : Model) (filter : RangeFilter) (c : Class) :
    (c.equipped m filter).path = c.path :=
  congrArg Prod.fst (c.equipped_frame m filter)

namespace Model

/-- The associations of a model with their edges replaced. -/
def milestonedAssociations (m : Model) (filter : RangeFilter) : List Association :=
  m.associations.entries.map (Association.milestoned m filter)

/-- A model with dates and replaced edges, as it is when the dating of bodies begins. -/
def prepared (m : Model) (filter : RangeFilter) : Model where
  classes := m.classes.mapEntries
    (fun c => Class.renewedAll m (m.milestonedAssociations filter) (c.equipped m filter))
    (by
      intro c
      exact (Class.renewedAll_path m _ _).trans (Class.equipped_path m filter c))
  associations := m.associations.mapEntries (Association.milestoned m filter) fun _ => rfl

/-- The number of edges that the classes and associations of a model have. -/
def edgeCount (m : Model) : Nat :=
  (m.classes.entries.map fun c => (m.classEdges c.withDates).length).sum +
    (m.associations.entries.map fun a => (m.associationEdges a).length).sum

theorem prepared_frame (m : Model) (filter : RangeFilter) : (m.prepared filter).frame = m.frame := by
  refine frame_of_map (g := fun c =>
    Class.renewedAll m (m.milestonedAssociations filter) (c.equipped m filter)) (fun c => ?_) rfl
  rw [Class.renewedAll_frame, Class.equipped_frame]

/-- **A compilation, stage by stage.** -/
theorem compile_builtin (m : Model) (settings : Settings) :
    m.compile .builtin settings = (do
      let temporalClasses ← m.classify settings.strictShapes
      let p := m.prepared settings.rangeFilter
      let (d, inClasses) ← forEach (dateClass .builtin) p p.classes.paths
      let (m', inAssociations) ← forEach (dateAssociation .builtin) d d.associations.paths
      return ({ temporalClasses, synthesized := m.lackedDates, milestoned := m.edgeCount
                dated := inClasses + inAssociations }, m')) := by
  rw [compile]
  rcases hclassify : m.classify settings.strictShapes with fault | temporalClasses
  · rfl
  obtain ⟨m₁, hrun₁, ha₁, hc₁⟩ := synthesize_run hclassify
  have hframe₁ : m₁.frame = m.frame := frame_of_map Class.withDates_frame hc₁
  obtain ⟨m₂, hrun₂, ha₂, hc₂⟩ := m₁.milestoneClasses_run settings.rangeFilter
  have hframe₂ : m₂.frame = m.frame :=
    (frame_of_map (Class.milestoned_frame m₁ _) hc₂).trans hframe₁
  obtain ⟨m₃, hrun₃, ha₃, hc₃⟩ := milestoneAssociations_run settings.rangeFilter hframe₂
  have hassociations : m₂.associations = m.associations := ha₂.trans ha₁
  rw [hassociations] at ha₃ hc₃
  have hprepared : m₃ = m.prepared settings.rangeFilter := by
    refine ext_entries ?_ ha₃
    rw [hc₃, hc₂, hc₁, List.map_map, List.map_map]
    refine List.map_congr_left fun c _ => ?_
    show Class.renewedAll m _ (c.withDates.milestoned m₁ _) = _
    rw [Class.milestoned_of_frame hframe₁]
    rfl
  -- edges are found by the frame, whatever stage they are counted at
  have hcount : (m₁.classes.entries.map fun c => (m₁.classEdges c).length).sum +
      (m.associations.entries.map fun a => (m.associationEdges a).length).sum = m.edgeCount := by
    rw [edgeCount, hc₁, List.map_map]
    simp only [classEdges_frame hframe₁]
    rfl
  dsimp only [bind, Except.bind]
  rw [hrun₁]
  dsimp only
  rw [hrun₂]
  dsimp only
  rw [hrun₃]
  dsimp only
  rw [← hcount, ← hprepared, hassociations]

variable {m m' : Model} {settings : Settings}

/-- A compilation succeeds if every stage does. -/
theorem compile_eq_ok_iff {report : Report} : m.compile .builtin settings = .ok (report, m') ↔
    ∃ t d k k', m.classify settings.strictShapes = .ok t ∧
      forEach (dateClass .builtin) (m.prepared settings.rangeFilter)
        (m.prepared settings.rangeFilter).classes.paths = .ok (d, k) ∧
      forEach (dateAssociation .builtin) d d.associations.paths = .ok (m', k') ∧
      report = { temporalClasses := t, synthesized := m.lackedDates, milestoned := m.edgeCount
                 dated := k + k' } := by
  rw [compile_builtin]
  constructor
  · intro h
    obtain ⟨t, ht, h⟩ := bind_eq_ok.1 h
    obtain ⟨⟨d, k⟩, hd, h⟩ := bind_eq_ok.1 h
    obtain ⟨⟨m₂, k'⟩, hm₂, h⟩ := bind_eq_ok.1 h
    obtain ⟨rfl, rfl⟩ := Prod.mk.inj (Except.ok.inj h)
    exact ⟨t, d, k, k', ht, hd, hm₂, rfl⟩
  · rintro ⟨t, d, k, k', ht, hd, hm', rfl⟩
    exact bind_eq_ok.2 ⟨t, ht, bind_eq_ok.2 ⟨_, hd, bind_eq_ok.2 ⟨_, hm', rfl⟩⟩⟩

/-- It fails with the fault of the first stage that does not. -/
theorem compile_eq_error_iff {fault : Fault} : m.compile .builtin settings = .error fault ↔
    m.classify settings.strictShapes = .error fault ∨
      (∃ t, m.classify settings.strictShapes = .ok t) ∧
        (forEach (dateClass .builtin) (m.prepared settings.rangeFilter)
            (m.prepared settings.rangeFilter).classes.paths = .error fault ∨
          ∃ d k, forEach (dateClass .builtin) (m.prepared settings.rangeFilter)
              (m.prepared settings.rangeFilter).classes.paths = .ok (d, k) ∧
            forEach (dateAssociation .builtin) d d.associations.paths = .error fault) := by
  rw [compile_builtin]
  constructor
  · intro h
    rcases bind_eq_error.1 h with h | ⟨t, ht, h⟩
    · exact .inl h
    · rcases bind_eq_error.1 h with h | ⟨⟨d, k⟩, hd, h⟩
      · exact .inr ⟨⟨t, ht⟩, .inl h⟩
      · rcases bind_eq_error.1 h with h | ⟨⟨m₂, k'⟩, -, h⟩
        · exact .inr ⟨⟨t, ht⟩, .inr ⟨d, k, hd, h⟩⟩
        · cases h
  · rintro (h | ⟨⟨t, ht⟩, h | ⟨d, k, hd, h⟩⟩)
    · exact bind_eq_error.2 (.inl h)
    · exact bind_eq_error.2 (.inr ⟨t, ht, bind_eq_error.2 (.inl h)⟩)
    · exact bind_eq_error.2 (.inr ⟨t, ht, bind_eq_error.2 (.inr ⟨_, hd, bind_eq_error.2 (.inl h)⟩)⟩)

end Model

end Bitemporal
