/-
Bitemporal/Proofs/Strictness.lean

What the settings make a difference to.

A class is at fault under the strict setting if it declares several shapes, and
it declares several if its stereotypes have several temporal values
(`Annotations.several_iff`).  The setting is read by the classification, which
comes first and reads nothing else of it: a strict compilation stops there, or
goes on like one that is not strict.  No later stage raises the fault of the
classification, since what cannot be dated is a call (`Fault.OfCall`).

Together with what the range filter makes a difference to
(`Model.compile_refiltered`), this is `Model.settings_of_compile`.
-/
import Mathlib.Data.Finset.Card
import Bitemporal.Proofs.RangeFilters

namespace Bitemporal

/-! ### Several shapes -/

theorem Shape.name_injective : Function.Injective name := by
  intro s t h
  have hsame : ofName? s.name = ofName? t.name := by rw [h]
  rwa [ofName?_name, ofName?_name, Option.some.injEq] at hsame

namespace Annotations

/-- Stereotypes of two different temporal values are declared. -/
def Conflicting (a : Annotations) : Prop :=
  ∃ s ∈ a.stereotypes, ∃ t ∈ a.stereotypes, s.value ≠ t.value ∧
    s.value ∈ Shape.all.map Shape.name ∧ t.value ∈ Shape.all.map Shape.name

instance : DecidablePred Conflicting := fun a =>
  inferInstanceAs (Decidable (∃ s ∈ a.stereotypes, ∃ t ∈ a.stereotypes, _))

variable {a : Annotations}

/-- **Several shapes are declared** by stereotypes of several temporal values. -/
theorem several_iff : 1 < a.shapes.length ↔ a.Conflicting := by
  have hall : ∀ s : Shape, s ∈ Shape.all := fun s => by cases s <;> decide
  rw [← List.toFinset_card_of_nodup a.nodup_shapes, Finset.one_lt_card]
  simp only [List.mem_toFinset]
  constructor
  · rintro ⟨x, hx, y, hy, hne⟩
    obtain ⟨s, hs, hx⟩ := mem_shapes_iff.1 hx
    obtain ⟨t, ht, hy⟩ := mem_shapes_iff.1 hy
    refine ⟨s, hs, t, ht, ?_, hx ▸ List.mem_map_of_mem (hall x), hy ▸ List.mem_map_of_mem (hall y)⟩
    rw [hx, hy]
    exact fun hnames => hne (Shape.name_injective hnames)
  · rintro ⟨s, hs, t, ht, hne, hsname, htname⟩
    obtain ⟨x, -, hx⟩ := List.mem_map.1 hsname
    obtain ⟨y, -, hy⟩ := List.mem_map.1 htname
    refine ⟨x, mem_shapes_iff.2 ⟨s, hs, hx.symm⟩, y, mem_shapes_iff.2 ⟨t, ht, hy.symm⟩, ?_⟩
    rintro rfl
    exact hne (hx.symm.trans hy)

end Annotations

/-! ### The faults of calls -/

/-- The fault is one of a call. -/
def Fault.OfCall : Fault → Prop
  | missingDate _ _ _ => True
  | accessorNotFound _ _ _ _ => True
  | _ => False

section OfCall

variable {m : Model} {fault : Fault}

theorem Navigation.ofCall_of_called {n : Navigation} (h : n.called m = .error fault) :
    fault.OfCall := by
  obtain ⟨-, rfl⟩ := called_eq_error h
  trivial

theorem Navigation.ofCall_of_settle {n : Navigation} {ambient after : Ambient}
    (h : (n.settle m).from ambient = (.error fault, after)) : fault.OfCall := by
  rcases cases_of_settle_eq_error h with ⟨target, -,
    ⟨-, rfl⟩ | ⟨-, hcalled⟩ | ⟨-, dates, -, hcalled⟩⟩
  · trivial
  · exact ofCall_of_called hcalled
  · exact ofCall_of_called hcalled

theorem QualifiedProperty.ofCall_of_dateBody {q : QualifiedProperty}
    (h : m.dateBody .builtin q = .error fault) : fault.OfCall := by
  obtain ⟨-, after, hrun⟩ := Model.exists_of_dateBody_eq_error h
  obtain ⟨n, -, arguments, before, -, hsettle⟩ := Expression.exists_settle_of_datedAll hrun
  exact Navigation.ofCall_of_settle hsettle

namespace Model

theorem ofCall_of_dateClass {path : String} (h : dateClass .builtin m path = .error fault) :
    fault.OfCall := by
  rcases hclass : m.class? path with - | c
  · rw [dateClass, hclass] at h
    cases h
  · obtain ⟨-, rfl⟩ := class?_eq_some_iff.1 hclass
    obtain ⟨q, -, hq⟩ := exists_of_dateClass_eq_error hclass h
    exact q.ofCall_of_dateBody hq

theorem ofCall_of_dateAssociation {path : String}
    (h : dateAssociation .builtin m path = .error fault) : fault.OfCall := by
  rcases hassociation : m.association? path with - | a
  · rw [dateAssociation, hassociation] at h
    cases h
  · obtain ⟨-, rfl⟩ := association?_eq_some_iff.1 hassociation
    obtain ⟨q, -, hq⟩ := exists_of_dateAssociation_eq_error hassociation h
    exact q.ofCall_of_dateBody hq

/-- **What a compilation fails with**, once its classes are classified, is a fault of a call. -/
theorem ofCall_of_compile {settings : Settings} {t : List (String × Shape)}
    (hclassified : m.classify settings.strictShapes = .ok t)
    (h : m.compile .builtin settings = .error fault) : fault.OfCall := by
  rcases compile_eq_error_iff.1 h with h | ⟨-, h | ⟨d, k, -, h⟩⟩
  · cases hclassified.symm.trans h
  · obtain ⟨-, c, -, _, -, -, -, hstep⟩ := forEach_eq_error h
    exact ofCall_of_dateClass hstep
  · obtain ⟨-, a, -, _, -, -, -, hstep⟩ := forEach_eq_error h
    exact ofCall_of_dateAssociation hstep

end Model

end OfCall

/-! ### Compilations under different settings -/

namespace Model

variable {m : Model}

/-- The classification does not read the strict setting of a model whose classes have one shape at
most. -/
theorem classify_eq_of_not_conflicting (h : ¬ ∃ c ∈ m.classes.entries, c.Conflicting)
    (strict : Bool) :
    m.classify strict = .ok (m.frame.filterMap fun f => f.2.shape?.map fun shape => (f.1, shape)) := by
  refine classify_eq_ok_iff.2 ⟨fun f hf => ?_, rfl⟩
  obtain ⟨c, hc, rfl⟩ := List.mem_map.1 hf
  have hfew : ¬ 1 < c.frame.2.shapes.length := fun hseveral =>
    h ⟨c, hc, Annotations.several_iff.1 hseveral⟩
  rw [decide_eq_false hfew, Bool.and_false]

/-- The strict classification fails if a class has several shapes. -/
theorem classify_eq_error_of_conflicting {c : Class} (hc : c ∈ m.classes.entries)
    (hconflicting : c.Conflicting) :
    ∃ path shapes span, m.classify true = .error (.conflictingShapes path shapes span) := by
  rcases h : m.classify true with fault | t
  · obtain ⟨c', -, -, -, rfl⟩ := exists_of_classify_eq_error h
    exact ⟨_, _, _, rfl⟩
  · have hfew := (classify_eq_ok_iff.1 h).1 c.frame (List.mem_map_of_mem hc)
    rw [Bool.true_and, decide_eq_false_iff_not] at hfew
    exact absurd (Annotations.several_iff.2 hconflicting) hfew

theorem conflictingShapes_of_compile_iff (m : Model) (filter : RangeFilter) :
    (∃ path shapes span, m.compile .builtin { rangeFilter := filter, strictShapes := true } =
      .error (.conflictingShapes path shapes span)) ↔ ∃ c ∈ m.classes.entries, c.Conflicting := by
  constructor
  · rintro ⟨path, shapes, span, hcompile⟩
    by_contra hnone
    exact ofCall_of_compile (classify_eq_of_not_conflicting hnone true) hcompile
  · rintro ⟨c, hc, hconflicting⟩
    obtain ⟨path, shapes, span, hclassify⟩ := classify_eq_error_of_conflicting hc hconflicting
    refine ⟨path, shapes, span, ?_⟩
    rw [compile_builtin, hclassify]
    rfl

theorem compile_strict_eq (h : ¬ ∃ c ∈ m.classes.entries, c.Conflicting) (filter : RangeFilter) :
    m.compile .builtin { rangeFilter := filter, strictShapes := true } =
      m.compile .builtin { rangeFilter := filter, strictShapes := false } := by
  rw [compile_builtin, compile_builtin, classify_eq_of_not_conflicting h true,
    classify_eq_of_not_conflicting h false]

/-- **The settings make a difference to what they name.**  Compilations with different range filters
fail alike, or succeed with equal reports and with models that are the same up to what milestoning
added, which are range accessors with other bodies at most.  A strict compilation fails for conflicting
shapes if a class has stereotypes of two temporal values, and it comes to the same as one that is not
strict if none has. -/
theorem settings_of_compile (m : Model) :
    (∀ f g strict, Alike (fun x y => x.1 = y.1 ∧ m.Refiltered f g x.2 y.2)
      (m.compile .builtin { rangeFilter := f, strictShapes := strict })
      (m.compile .builtin { rangeFilter := g, strictShapes := strict })) ∧
    (∀ f g sourceOf members, List.Forall₂
      (fun q q' => Twins f g (m.edgesOf sourceOf members) q q' ∧ q' = { q with body := q'.body })
      (m.additions f sourceOf members) (m.additions g sourceOf members)) ∧
    ∀ filter,
      ((∃ path shapes span, m.compile .builtin { rangeFilter := filter, strictShapes := true } =
        .error (.conflictingShapes path shapes span)) ↔ ∃ c ∈ m.classes.entries, c.Conflicting) ∧
      ((¬ ∃ c ∈ m.classes.entries, c.Conflicting) →
        m.compile .builtin { rangeFilter := filter, strictShapes := true } =
          m.compile .builtin { rangeFilter := filter, strictShapes := false }) := by
  refine ⟨m.compile_refiltered, fun f g sourceOf members => ?_, fun filter => ?_⟩
  · exact (m.forall₂_additions f g sourceOf members).imp fun q q' htwins =>
      ⟨htwins, htwins.eq_withBody⟩
  · exact ⟨m.conflictingShapes_of_compile_iff filter, fun hnone => compile_strict_eq hnone filter⟩

/-- A class whose stereotypes are of two temporal values, one of them written as an abbreviation. -/
def conflicted : Model :=
  ofDocument { classes := [{
    path := "m::K"
    stereotypes := [
      .resolved temporalProfile Shape.business.name, .abbreviated "temporal@bitemporal"] }] }

/-- The strict setting makes a difference to the one model and none to the other. -/
theorem conflicted_settings :
    (conflicted.compile .builtin {}).toBool = true ∧
    (∃ path shapes span, conflicted.compile .builtin { strictShapes := true } =
      .error (.conflictingShapes path shapes span)) ∧
    ((overloaded "labelled").compile .builtin {}).toBool = true ∧
    (overloaded "labelled").compile .builtin { strictShapes := true } =
      (overloaded "labelled").compile .builtin {} := by
  obtain ⟨-, -, hconflicted⟩ := settings_of_compile conflicted
  obtain ⟨-, -, hlabelled⟩ := settings_of_compile (overloaded "labelled")
  refine ⟨by decide +kernel, ?_, by decide +kernel, ?_⟩
  · exact (hconflicted .startEquality).1.2 (by decide +kernel)
  · exact (hlabelled .startEquality).2 (by decide +kernel)

end Model

end Bitemporal
