/-
Bitemporal/Proofs/Reloading.lean

Models that are stored and loaded again.

A stored class holds what it shows of associations along with its members.
Loading does not take that for what it is: it puts the entries of every
association behind it once more.  So of a model that is stored and loaded again

* the associations are the same, and the classes with their members;
* what loading shows of an association is shown in addition to what was
  (`entries_reloaded`), and twice where it was only loaded before
  (`exposed_reloaded_ofDocument`).

Hence a model survives exactly if no association joins one of its classes
(`reloaded_eq_self_iff`).  Whether it does is not changed by a compilation, as
that leaves the ends of associations where they lead (`Compiles.reloaded_iff`).
-/
import Bitemporal.Proofs.Exposure

namespace Bitemporal

/-- A table is made of its own entries. -/
theorem PathTable.ofList_entries {α : Type} [HasPath α] (t : PathTable α) : ofList t.entries = t :=
  eq_of_perm (ofList_perm t.nodup_paths)

/-! ### The classes that an association joins -/

namespace Association

variable {a : Association} {path : String}

/-- The association has two ends, one of which leads to this path. -/
def Joins (a : Association) (path : String) : Prop :=
  ∃ p o, a.Opposite p o ∧ o.type.path? = some path

theorem joins_iff : a.Joins path ↔ ∃ target, a.exposing? target = some path := by
  constructor
  · rintro ⟨p, o, hopposite, hpath⟩
    obtain ⟨target, htarget⟩ := hopposite.exists_path
    exact ⟨target, exposing?_eq_some_iff.2 ⟨p, o, hopposite, htarget, hpath⟩⟩
  · rintro ⟨target, hexposing⟩
    obtain ⟨p, o, hopposite, -, hpath⟩ := exposing?_eq_some_iff.1 hexposing
    exact ⟨p, o, hopposite, hpath⟩

/-- Which paths are joined is seen from where the ends lead. -/
theorem joins_congr {a' : Association} (h : a'.memberPaths = a.memberPaths) :
    a'.Joins path ↔ a.Joins path := by
  rw [joins_iff, joins_iff]
  simp only [exposing?, h]

theorem joins_of_exposingType? {type : TypeRef} (h : a.exposingType? type = some path) :
    a.Joins path := by
  obtain ⟨target, -, hexposing⟩ := Option.bind_eq_some_iff.1 h
  exact joins_iff.2 ⟨target, hexposing⟩

/-- The end opposite to one that leads to a path is shown there. -/
theorem Joins.exists_mem_loadedOn (h : a.Joins path) : ∃ p, p ∈ a.loadedOn path := by
  obtain ⟨p, o, hopposite, hpath⟩ := h
  refine ⟨p, List.mem_filter.2 ⟨List.mem_of_mem_filter hopposite.mem_ends, ?_⟩⟩
  rw [hopposite.exposingType?_eq hpath]
  exact beq_self_eq_true _

/-- Loading shows something of an association exactly on the classes that it joins. -/
theorem loaded_eq_nil_iff :
    a.loadedOn path = [] ∧ a.loadedQualifiedOn path = [] ↔ ¬ a.Joins path := by
  constructor
  · rintro ⟨hnil, -⟩ hjoins
    obtain ⟨p, hp⟩ := hjoins.exists_mem_loadedOn
    rw [hnil] at hp
    cases hp
  · intro hjoins
    rw [loadedOn, loadedQualifiedOn, List.filter_eq_nil_iff, List.filter_eq_nil_iff]
    constructor
    · intro p _ hexposing
      exact hjoins (joins_of_exposingType? (beq_iff_eq.1 hexposing))
    · intro q _ hexposing
      exact hjoins (joins_of_exposingType? (beq_iff_eq.1 hexposing))

end Association

/-! ### Storing and loading -/

namespace Model

variable {m m' : Model}

/-- A model that was stored and loaded again. -/
def reloaded (m : Model) : Model :=
  ofDocument m.toDocument

theorem associations_reloaded (m : Model) : m.reloaded.associations = m.associations := by
  rw [reloaded, associations_ofDocument]
  exact m.associations.ofList_entries

/-- **What reloading makes of the classes.** -/
theorem entries_reloaded (m : Model) :
    m.reloaded.classes.entries = m.classes.entries.map fun c =>
      { c with
        exposed := c.exposed ++ m.associations.entries.flatMap (·.loadedOn c.path)
        exposedQualified :=
          c.exposedQualified ++ m.associations.entries.flatMap (·.loadedQualifiedOn c.path) } := by
  have hclasses : (m.toDocument.classes.foldl addClass {}).classes = m.classes := by
    rw [foldl_addClass]
    exact m.classes.ofList_entries
  rw [reloaded, ofDocument, foldl_addAssociation_entries, hclasses]
  rfl

/-- **Where views were only loaded, reloading shows everything twice.** -/
theorem exposed_reloaded_ofDocument {d : Document}
    (hpaths : (d.associations.map Association.path).Nodup)
    (hviews : ∀ c ∈ d.classes, c.exposed = [] ∧ c.exposedQualified = []) :
    List.Forall₂ (fun c c' => c'.path = c.path ∧ c'.exposed.Perm (c.exposed ++ c.exposed) ∧
        c'.exposedQualified.Perm (c.exposedQualified ++ c.exposedQualified))
      (ofDocument d).classes.entries (ofDocument d).reloaded.classes.entries := by
  rw [entries_reloaded, List.forall₂_map_right_iff, List.forall₂_same]
  intro c hc
  -- the associations are those of the document, now in the order of paths
  have hperm := associations_ofDocument_perm hpaths
  obtain ⟨hexposed, hqualified⟩ := exposed_ofDocument hviews hc
  refine ⟨rfl, List.Perm.append_left _ ?_, List.Perm.append_left _ ?_⟩
  · rw [hexposed]
    exact hperm.flatMap_right _
  · rw [hqualified]
    exact hperm.flatMap_right _

/-! ### Models that survive -/

/-- A model is reloaded as it was if and only if loading shows nothing of its associations. -/
theorem reloaded_eq_self_iff_loaded :
    m.reloaded = m ↔ ∀ c ∈ m.classes.entries, ∀ a ∈ m.associations.entries,
      a.loadedOn c.path = [] ∧ a.loadedQualifiedOn c.path = [] := by
  constructor
  · intro h c hc a ha
    have hentries := entries_reloaded m
    rw [h] at hentries
    have hself := List.map_inj_left.1 (hentries.symm.trans (List.map_id _).symm) c hc
    have hexposed := List.append_right_eq_self.1 (congrArg Class.exposed hself)
    have hqualified := List.append_right_eq_self.1 (congrArg Class.exposedQualified hself)
    exact ⟨List.flatMap_eq_nil_iff.1 hexposed a ha, List.flatMap_eq_nil_iff.1 hqualified a ha⟩
  · intro h
    refine ext_entries ?_ (congrArg _ (associations_reloaded m))
    rw [entries_reloaded]
    conv_rhs => rw [← List.map_id m.classes.entries]
    refine List.map_congr_left fun c hc => ?_
    rw [List.flatMap_eq_nil_iff.2 fun a ha => (h c hc a ha).1,
      List.flatMap_eq_nil_iff.2 fun a ha => (h c hc a ha).2, List.append_nil, List.append_nil, id]

/-- **What survives.**  A model is reloaded as it was if and only if no association joins one of its
classes. -/
theorem reloaded_eq_self_iff :
    m.reloaded = m ↔ ∀ a ∈ m.associations.entries, ∀ path, a.Joins path → m.class? path = none := by
  rw [reloaded_eq_self_iff_loaded]
  constructor
  · intro h a ha path hjoins
    by_contra hsome
    obtain ⟨c, hc⟩ := Option.ne_none_iff_exists'.1 hsome
    obtain ⟨hmem, rfl⟩ := class?_eq_some_iff.1 hc
    exact Association.loaded_eq_nil_iff.1 (h c hmem a ha) hjoins
  · intro h c hc a ha
    refine Association.loaded_eq_nil_iff.2 fun hjoins => ?_
    have hnone := h a ha c.path hjoins
    rw [class?_path hc] at hnone
    cases hnone

/-- **A compilation does not change whether a model survives.** -/
theorem Compiles.reloaded_iff {settings : Settings} {report : Report}
    (h : m.Compiles settings report m') : m'.reloaded = m' ↔ m.reloaded = m := by
  have hclass : ∀ path, m'.class? path = none ↔ m.class? path = none := by
    intro path
    have hframe := class?_frame h.frame path
    rw [← Option.map_eq_none_iff (f := Class.frame), hframe, Option.map_eq_none_iff]
  have hjoins : List.Forall₂ (fun a a' => ∀ path, a'.Joins path ↔ a.Joins path)
      m.associations.entries m'.associations.entries :=
    h.forall₂_associations.imp fun a a' ha path => Association.joins_congr ha.isForm.memberPaths
  rw [reloaded_eq_self_iff, reloaded_eq_self_iff]
  constructor
  · intro hall a ha path hpath
    obtain ⟨a', ha', hiff⟩ := exists_of_forall₂_left hjoins ha
    exact (hclass path).1 (hall a' ha' path ((hiff path).2 hpath))
  · intro hall a' ha' path hpath
    obtain ⟨a, ha, hiff⟩ := exists_of_forall₂_right hjoins ha'
    exact (hclass path).2 (hall a ha path ((hiff path).1 hpath))

/-- **Storing and loading.**  A model that is stored and loaded again has its associations, and its
classes with everything that loading shows of the associations behind what they show already.  It
is the model itself if and only if no association joins one of its classes, and a compilation does
not change whether it is. -/
theorem reloaded_shows_again (m : Model) :
    m.reloaded.associations = m.associations ∧
    m.reloaded.classes.entries = m.classes.entries.map (fun c =>
      { c with
        exposed := c.exposed ++ m.associations.entries.flatMap (·.loadedOn c.path)
        exposedQualified :=
          c.exposedQualified ++ m.associations.entries.flatMap (·.loadedQualifiedOn c.path) }) ∧
    (m.reloaded = m ↔
      ∀ a ∈ m.associations.entries, ∀ path, a.Joins path → m.class? path = none) ∧
    ∀ settings report m', m.compile .builtin settings = .ok (report, m') →
      (m'.reloaded = m' ↔ m.reloaded = m) := by
  refine ⟨associations_reloaded m, entries_reloaded m, reloaded_eq_self_iff, ?_⟩
  intro settings report m' hrun
  exact (compiles_of_compile hrun).reloaded_iff

/-- An association that joins two classes, one of them temporal. -/
def joined : Model :=
  ofDocument {
    classes := [
      { path := "m::K" },
      { path := "m::L", stereotypes := [.resolved temporalProfile Shape.business.name] }]
    associations := [joining (.ofClass "m::L")] }

/-- Reloaded, both classes show their ends twice, and so they do after a compilation. -/
theorem joined_shown_twice :
    joined.classes.entries.map (fun c => (c.path, c.exposed.map (·.name))) =
        [("m::K", ["far"]), ("m::L", ["k"])] ∧
      joined.reloaded.classes.entries.map (fun c => (c.path, c.exposed.map (·.name))) =
        [("m::K", ["far", "far"]), ("m::L", ["k", "k"])] ∧
      joined.reloaded ≠ joined ∧
      ∃ report m', joined.compile .builtin {} = .ok (report, m') ∧ m'.reloaded ≠ m' := by
  obtain ⟨-, hentries, hself, hcompile⟩ := reloaded_shows_again joined
  have hdiffers : joined.reloaded ≠ joined := by
    intro h
    have hnone := hself.1 h (joining (.ofClass "m::L")) (by decide +kernel) "m::K"
      ⟨_, _, .inl rfl, rfl⟩
    revert hnone
    decide +kernel
  refine ⟨by decide +kernel, ?_, hdiffers, ?_⟩
  · rw [hentries]
    decide +kernel
  · have hsome : (joined.compile .builtin {}).toOption.isSome := by decide +kernel
    rcases hrun : joined.compile .builtin {} with fault | ⟨report, m'⟩
    · rw [hrun] at hsome
      cases hsome
    · exact ⟨report, m', rfl, fun h => hdiffers ((hcompile {} report m' hrun).1 h)⟩

end Model

end Bitemporal
