/-
Bitemporal/Proofs/Unchanged.lean

What it means that a compilation reports no change.

The counters of a report follow what elements declare.  All are zero where no
class has other properties or qualified properties than before and no
association has changed (`Compiles.isUnchanged_of_sameDeclared`).  But a
compilation also renews the views of the associations, in the order of their
paths, and no counter follows that: where it reports no change, it has made of
the model the one with renewed views (`Compiles.eq_renewedViews`).  So a model
that is left as it is is reported as such, while a report of no change says so
only of a model whose views stand as they are renewed
(`unchanged_iff_of_compile`).  A loaded model need not be such a model
(`reversed_unchanged`).
-/
import Bitemporal.Proofs.Counts

namespace Bitemporal

namespace Model

/-- The model with the views of its associations renewed, in the order of their paths. -/
def renewedViews (m : Model) : Model :=
  m.associations.entries.foldl renewViewsOf m

/-- Two models declare the same: what differs, if anything, is views. -/
def SameDeclared (m m' : Model) : Prop :=
  List.Forall₂ (fun c c' => c'.path = c.path ∧ c'.properties = c.properties ∧
    c'.qualified = c.qualified) m.classes.entries m'.classes.entries ∧
  m'.associations.entries = m.associations.entries

instance : DecidablePred Renewed := fun m =>
  inferInstanceAs (Decidable (∀ c ∈ m.classes.entries, _))

/-! ### Renewing all views -/

/-- Renewing the views of associations one after another, seen from the classes. -/
theorem foldl_renewViewsOf_entries (m : Model) (as : List Association) :
    (as.foldl renewViewsOf m).associations = m.associations ∧
      (as.foldl renewViewsOf m).classes.entries = m.classes.entries.map (Class.renewedAll m as) := by
  induction as generalizing m with
  | nil => exact ⟨rfl, (List.map_id _).symm⟩
  | cons a as ih =>
    obtain ⟨ha, hc⟩ := m.renewViewsOf_entries a
    obtain ⟨has, hcs⟩ := ih (m.renewViewsOf a)
    refine ⟨has.trans ha, hcs.trans ?_⟩
    rw [hc, List.map_map, Class.renewedAll_of_frame (m.renewViewsOf_frame a)]
    rfl

theorem renewedViews_entries (m : Model) :
    m.renewedViews.associations = m.associations ∧ m.renewedViews.classes.entries =
      m.classes.entries.map (Class.renewedAll m m.associations.entries) :=
  m.foldl_renewViewsOf_entries m.associations.entries

/-- Renewed views are views: nothing that is declared differs. -/
theorem sameDeclared_renewedViews (m : Model) : m.SameDeclared m.renewedViews := by
  obtain ⟨ha, hc⟩ := m.renewedViews_entries
  refine ⟨?_, congrArg _ ha⟩
  rw [hc]
  refine List.forall₂_map_right_iff.2 (List.forall₂_same.2 fun c _ => ⟨?_, ?_, ?_⟩)
  · exact Class.renewedAll_path m _ c
  · exact Class.renewedAll_properties m _ c
  · exact Class.renewedAll_qualified m _ c

theorem renewedViews_eq_self_iff {m : Model} : m.renewedViews = m ↔ m.Renewed := by
  obtain ⟨ha, hc⟩ := m.renewedViews_entries
  constructor
  · intro hself c hmem
    rw [hself] at hc
    exact (List.map_inj_left.1 ((List.map_id _).trans hc) c hmem).symm
  · intro hrenewed
    refine ext_entries ?_ (congrArg _ ha)
    rw [hc, List.map_congr_left hrenewed, List.map_id']

/-! ### Counters that are zero -/

variable {m m' : Model} {settings : Settings} {report : Report}

/-- A model that lacks no dates and has no edges is prepared by renewing its views. -/
theorem prepared_eq_renewedViews (hdates : m.lackedDates = 0) (hedges : m.edgeCount = 0)
    (filter : RangeFilter) : m.prepared filter = m.renewedViews := by
  have hwithDates : ∀ c ∈ m.classes.entries, c.withDates = c := by
    intro c hc
    rw [lackedDates, List.sum_eq_zero_iff_forall_eq_nat] at hdates
    exact Class.withDates_eq_self_of_length (hdates _ (List.mem_map_of_mem hc))
  rw [edgeCount, Nat.add_eq_zero_iff, List.sum_eq_zero_iff_forall_eq_nat,
    List.sum_eq_zero_iff_forall_eq_nat] at hedges
  have hclasses : ∀ c ∈ m.classes.entries, m.classEdges c = [] := by
    intro c hc
    rw [← classEdges_withDates, ← List.length_eq_zero_iff]
    exact hedges.1 _ (List.mem_map_of_mem hc)
  have hassociations : ∀ a ∈ m.associations.entries, m.associationEdges a = [] := by
    intro a ha
    rw [← List.length_eq_zero_iff]
    exact hedges.2 _ (List.mem_map_of_mem ha)
  obtain ⟨ha, hc⟩ := prepared_entries filter hwithDates hclasses hassociations
  obtain ⟨ha', hc'⟩ := m.renewedViews_entries
  exact ext_entries (hc.trans hc'.symm) (ha.trans (congrArg _ ha').symm)

/-- Where nothing that is declared differs, nothing is counted. -/
theorem SameDeclared.generatedDates_eq (h : m.SameDeclared m') :
    m'.generatedDates = m.generatedDates :=
  congrArg List.sum (map_eq_of_forall₂ h.1 fun hc => by rw [hc.2.1])

theorem SameDeclared.edgePoints_eq (h : m.SameDeclared m') : m'.edgePoints = m.edgePoints := by
  have hclasses : m'.classes.entries.map (fun c => c.properties.countP Property.isEdgePoint) =
      m.classes.entries.map fun c => c.properties.countP Property.isEdgePoint :=
    map_eq_of_forall₂ h.1 fun hc => by rw [hc.2.1]
  rw [edgePoints, edgePoints, hclasses, h.2]

theorem rewritten_self (qs : List QualifiedProperty) : rewritten qs qs = 0 := by
  induction qs with
  | nil => rfl
  | cons q qs ih =>
    rw [rewritten, List.zip_cons_cons, List.countP_cons, ← rewritten, ih, if_neg (by simp)]

theorem rewrittenIn_eq_zero {α : Type} {qualified : α → List QualifiedProperty} {l l' : List α}
    (h : List.Forall₂ (fun a b => qualified b = qualified a) l l') : rewrittenIn qualified l l' = 0 := by
  rw [rewrittenIn]
  induction h with
  | nil => rfl
  | cons hab _ ih =>
    rw [List.zip_cons_cons, List.map_cons, List.sum_cons, ih]
    show rewritten _ _ + 0 = 0
    rw [hab, rewritten_self]

theorem SameDeclared.rewrittenBodies_eq (h : m.SameDeclared m') : m.rewrittenBodies m' = 0 := by
  have hassociations : List.Forall₂
      (fun a b : Association => b.qualified = a.qualified) m.associations.entries
        m'.associations.entries := by
    rw [h.2]
    exact List.forall₂_same.2 fun _ _ => rfl
  rw [rewrittenBodies, rewrittenIn_eq_zero (h.1.imp fun _ _ hc => hc.2.2),
    rewrittenIn_eq_zero hassociations]

namespace Compiles

/-- Where nothing that is declared differs, no change is reported. -/
theorem isUnchanged_of_sameDeclared (h : m.Compiles settings report m') (hsame : m.SameDeclared m') :
    report.isUnchanged = true := by
  have hdates := h.generatedDates_eq
  have hpoints := h.edgePoints_eq
  rw [hsame.generatedDates_eq] at hdates
  rw [hsame.edgePoints_eq] at hpoints
  refine Report.isUnchanged_iff.2 ⟨?_, ?_, h.rewrittenBodies_eq.trans hsame.rewrittenBodies_eq⟩
  · exact Nat.left_eq_add.1 hdates
  · exact Nat.left_eq_add.1 hpoints

/-- Where no change is reported, views were renewed and nothing else was done. -/
theorem eq_renewedViews (h : m.Compiles settings report m') (hunchanged : report.isUnchanged = true) :
    m' = m.renewedViews := by
  obtain ⟨hsynthesized, hmilestoned, hdated⟩ := Report.isUnchanged_iff.1 hunchanged
  rw [h.dated_eq_zero_iff.1 hdated]
  exact prepared_eq_renewedViews (h.synthesized.symm.trans hsynthesized)
    (h.milestoned.symm.trans hmilestoned) _

end Compiles

/-- **What a report of no change says.**  It is given exactly if nothing that is declared differs,
and exactly if the model was made into the one with renewed views.  A model that is left as it is is
reported as unchanged; one that is reported as unchanged is left as it is exactly if its views stand
as they are renewed. -/
theorem unchanged_iff_of_compile (h : m.compile .builtin settings = .ok (report, m')) :
    (report.isUnchanged = true ↔ m.SameDeclared m') ∧
    (report.isUnchanged = true ↔ m' = m.renewedViews) ∧
    (m' = m ↔ report.isUnchanged = true ∧ m.Renewed) := by
  have h' := compiles_of_compile h
  have hviews : report.isUnchanged = true ↔ m' = m.renewedViews := by
    refine ⟨h'.eq_renewedViews, ?_⟩
    rintro rfl
    exact h'.isUnchanged_of_sameDeclared m.sameDeclared_renewedViews
  refine ⟨⟨fun hunchanged => ?_, h'.isUnchanged_of_sameDeclared⟩, hviews, ?_⟩
  · rw [hviews.1 hunchanged]
    exact m.sameDeclared_renewedViews
  · rw [hviews, ← renewedViews_eq_self_iff]
    constructor
    · -- a model is the same as itself in what it declares, so that no change is reported
      rintro rfl
      have hself : m'.SameDeclared m' :=
        ⟨List.forall₂_same.2 fun _ _ => ⟨rfl, rfl, rfl⟩, rfl⟩
      have hrenewed := h'.eq_renewedViews (h'.isUnchanged_of_sameDeclared hself)
      exact ⟨hrenewed, hrenewed.symm⟩
    · rintro ⟨hm', hself⟩
      exact hm'.trans hself

/-- Two associations that join the same classes, loaded in the reverse order of their paths. -/
def reversed : Model :=
  let joining (path a b : String) : Association := {
    path
    properties := [
      { name := a, type := .ofClass "m::K", multiplicity := .one, owner := .ofAssociation path },
      { name := b, type := .ofClass "m::L", multiplicity := .one, owner := .ofAssociation path }] }
  ofDocument {
    classes := [{ path := "m::K" }, { path := "m::L" }]
    associations := [joining "m::A2" "k2" "l2", joining "m::A1" "k1" "l1"] }

/-- A compilation that changes a model and reports no change. -/
theorem reversed_unchanged : ∃ report m', reversed.compile .builtin {} = .ok (report, m') ∧
    report.isUnchanged = true ∧ m' = reversed.renewedViews ∧ m' ≠ reversed := by
  have hreport : (reversed.compile .builtin {}).toOption.map (·.1) = some ⟨[], 0, 0, 0⟩ := by
    decide +kernel
  have hviews : ¬ reversed.Renewed := by decide +kernel
  rcases hcompile : reversed.compile .builtin {} with fault | ⟨report, m'⟩
  · rw [hcompile] at hreport
    cases hreport
  · rw [hcompile] at hreport
    obtain rfl := Option.some.inj hreport
    obtain ⟨-, hrenewed, hself⟩ := unchanged_iff_of_compile hcompile
    exact ⟨_, m', rfl, rfl, hrenewed.1 rfl, fun he => hviews (hself.1 he).2⟩

end Model

end Bitemporal
