/-
Bitemporal/Proofs/Acceptance.lean

What the checks accept.

A verdict passes if none of its findings is a failure (`Verdict.passes_iff`), so
that a check accepts a model exactly if it finds no violation in it.

*Compiling once more.*  The check compares a model with what another compilation
makes of it place by place, and would not notice an element without a
counterpart.  A compilation keeps all paths and their order (`Compiles.paths`),
so that every element has one, and the check accepts exactly the models that are
left as they are (`RecompilationCheck.passes_iff_recompiles`).

*Date properties.*  Three scans look at the properties of a temporal class: one
gathers all properties with the name of a date, one finds the first with the
name of the range, and one passes over all that are tagged.  `DeclaresOnce` and
`DeclaresFirst` say without a scan what the first two see.  A model conforms if
every class declares each of its dates and its range exactly once.  The second
scan does not see a range that is declared again behind the first, so that the
check also accepts models that do so, and these are all that it accepts besides
the conforming ones (`ShapeCheck.passes_iff_conforms`).
-/
import Bitemporal.Conformance
import Bitemporal.Proofs.Recompilation

namespace Bitemporal

/-! ### Verdicts that pass -/

namespace Verdict

theorem passes_iff {v : Verdict} : v.passes = true ↔ ∀ f ∈ v, f.isFailure = false := by
  simp [passes, failures]

end Verdict

/-! ### Compiling once more -/

/-- A compilation keeps the paths of all elements, in their order. -/
theorem Model.Compiles.paths {m m' : Model} {settings : Settings} {report : Report}
    (h : m.Compiles settings report m') :
    m'.classes.paths = m.classes.paths ∧ m'.associations.paths = m.associations.paths :=
  ⟨map_eq_of_forall₂ h.forall₂_classes fun hc => hc.path,
    map_eq_of_forall₂ h.forall₂_associations fun ha => ha.path⟩

namespace RecompilationCheck

theorem counted_eq_nil_iff {what : String} {count : Nat} : counted what count = [] ↔ count = 0 := by
  unfold counted
  split
  · simp [*]
  · simp [*]

/-- Comparing two tables with the same paths place by place misses no difference. -/
theorem changed_eq_nil_iff {α : Type} [DecidableEq α] [HasPath α] {before after : PathTable α}
    (h : after.paths = before.paths) : changed before after = [] ↔ after = before := by
  have hlength : before.entries.length = after.entries.length := by
    simpa [PathTable.paths] using (congrArg List.length h).symm
  constructor
  · intro hnil
    apply PathTable.ext_entries
    have hsame : List.Forall₂ (· = ·) before.entries after.entries := by
      rw [List.forall₂_iff_zip]
      refine ⟨hlength, fun {a b} hab => ?_⟩
      rw [changed, List.map_eq_nil_iff, List.filter_eq_nil_iff] at hnil
      simpa using hnil (a, b) hab
    rw [List.forall₂_eq_eq_eq] at hsame
    exact hsame.symm
  · rintro rfl
    rw [changed, List.map_eq_nil_iff, List.filter_eq_nil_iff]
    rintro ⟨a, b⟩ hab
    have hsame : List.Forall₂ (· = ·) after.entries after.entries := List.forall₂_same.2 fun _ _ => rfl
    simp [List.forall₂_zip hsame hab]

/-- A compilation gives the check nothing to report if it reports no change itself and leaves the
model as it was. -/
theorem changes_eq_nil_iff {m m' : Model} {settings : Settings} {report : Report}
    (h : m.Compiles settings report m') :
    changes report m m' = [] ↔ report.isUnchanged = true ∧ m' = m := by
  have hmodel : m' = m ↔ m'.classes = m.classes ∧ m'.associations = m.associations := by
    cases m
    cases m'
    simp
  simp only [changes, List.append_eq_nil_iff, counted_eq_nil_iff, changed_eq_nil_iff h.paths.1,
    changed_eq_nil_iff h.paths.2, Report.isUnchanged_iff, hmodel, and_assoc]

/-- **The check on compiling once more decides its property.**  It passes exactly if another
compilation with the same settings succeeds, reports no change and gives back the same model. -/
theorem passes_iff_recompiles (m : Model) (settings : Settings) :
    (verdict m settings).passes = true ↔ m.Recompiles settings := by
  rw [Verdict.passes_iff, verdict, Model.compileInPlace_on, Model.Recompiles]
  rcases hcompile : m.compile .builtin settings with fault | ⟨report, m'⟩
  · simp [Finding.isFailure, Finding.failure]
  · have hchanges := changes_eq_nil_iff (Model.compiles_of_compile hcompile)
    simp only [List.mem_singleton, forall_eq, Finding.isFailure_ofViolations, Bool.not_eq_false',
      List.isEmpty_iff, hchanges, Except.ok.injEq, Prod.mk.injEq]
    constructor
    · rintro ⟨hunchanged, rfl⟩
      exact ⟨report, ⟨rfl, rfl⟩, hunchanged⟩
    · rintro ⟨report', ⟨rfl, rfl⟩, hunchanged⟩
      exact ⟨hunchanged, rfl⟩

end RecompilationCheck

/-! ### Date properties -/

/-- The property is a generated date. -/
def Property.HoldsDate (p : Property) : Prop :=
  p.toTyping = .date ∧ p.isGeneratedDate = true

/-- The property is the generated range of the dates of a shape. -/
def Property.HoldsRange (shape : Shape) (p : Property) : Prop :=
  p.type.isClass shape.rangeClass = true ∧ p.multiplicity = .zeroOne ∧ p.isGeneratedDate = true

namespace Class

/-- The class declares exactly one property of this name, and this one is as `P` says. -/
def DeclaresOnce (c : Class) (name : String) (P : Property → Prop) : Prop :=
  ∃ before p after, c.properties = before ++ p :: after ∧ p.name = name ∧ P p ∧
    ∀ p' ∈ before ++ after, p'.name ≠ name

/-- The class declares properties of this name, and the first of them is as `P` says. -/
def DeclaresFirst (c : Class) (name : String) (P : Property → Prop) : Prop :=
  ∃ before p after, c.properties = before ++ p :: after ∧ p.name = name ∧ P p ∧
    ∀ p' ∈ before, p'.name ≠ name

/-- The class declares no two properties of this name. -/
def DeclaresNotTwice (c : Class) (name : String) : Prop :=
  c.properties.countP (fun p => p.name == name) ≤ 1

instance {c : Class} {name : String} : Decidable (c.DeclaresNotTwice name) :=
  inferInstanceAs (Decidable (_ ≤ _))

/-- Among the declared properties, the dates of a shape and their range are there exactly once, and
no other property is tagged as a date. -/
structure DatesExact (c : Class) (shape : Shape) : Prop where
  dates : ∀ date ∈ shape.dateNames, c.DeclaresOnce date Property.HoldsDate
  range : c.DeclaresOnce Naming.rangeProperty (Property.HoldsRange shape)
  others : ∀ p ∈ c.properties, p.isGeneratedDate = true →
    p.name ∈ shape.dateNames ∨ p.name = Naming.rangeProperty

/-- The same, except that more properties with the name of the range may follow the first. -/
structure DatesAccepted (c : Class) (shape : Shape) : Prop where
  dates : ∀ date ∈ shape.dateNames, c.DeclaresOnce date Property.HoldsDate
  range : c.DeclaresFirst Naming.rangeProperty (Property.HoldsRange shape)
  others : ∀ p ∈ c.properties, p.isGeneratedDate = true →
    p.name ∈ shape.dateNames ∨ p.name = Naming.rangeProperty

/-- A class with a shape has date properties as `fits` says, and one without a shape has none. -/
def Fits (c : Class) (fits : Shape → Prop) : Prop :=
  match c.shape? with
  | some shape => fits shape
  | none => ∀ p ∈ c.properties, p.isGeneratedDate = false

variable {c : Class} {name : String} {P : Property → Prop} {shape : Shape}

theorem declaresOnce_iff_filter :
    c.DeclaresOnce name P ↔ ∃ p, (c.properties.filter fun p => p.name == name) = [p] ∧ P p := by
  simp only [DeclaresOnce, List.filter_eq_cons_iff, List.filter_eq_nil_iff, beq_iff_eq,
    List.forall_mem_append]
  constructor
  · rintro ⟨before, p, after, heq, hname, hp, hbefore, hafter⟩
    exact ⟨p, ⟨before, after, heq, hbefore, hname, hafter⟩, hp⟩
  · rintro ⟨p, ⟨before, after, heq, hbefore, hname, hafter⟩, hp⟩
    exact ⟨before, p, after, heq, hname, hp, hbefore, hafter⟩

theorem declaresFirst_iff_find :
    c.DeclaresFirst name P ↔ ∃ p, (c.properties.find? fun p => p.name == name) = some p ∧ P p := by
  simp only [DeclaresFirst, List.find?_eq_some_iff_append, beq_iff_eq, Bool.not_eq_true',
    beq_eq_false_iff_ne]
  constructor
  · rintro ⟨before, p, after, heq, hname, hp, hbefore⟩
    exact ⟨p, ⟨hname, before, after, heq, hbefore⟩, hp⟩
  · rintro ⟨p, ⟨hname, before, after, heq, hbefore⟩, hp⟩
    exact ⟨before, p, after, heq, hname, hp, hbefore⟩

/-- The only property of a name is the first. -/
theorem declaresOnce_iff : c.DeclaresOnce name P ↔ c.DeclaresFirst name P ∧ c.DeclaresNotTwice name := by
  rw [declaresOnce_iff_filter, declaresFirst_iff_find, DeclaresNotTwice, List.countP_eq_length_filter,
    ← List.head?_filter]
  rcases hnamed : c.properties.filter (fun p => p.name == name) with - | ⟨p, - | ⟨p', rest⟩⟩
  · simp [hnamed]
  · simp [hnamed]
  · simp [hnamed]

theorem datesExact_iff :
    c.DatesExact shape ↔ c.DatesAccepted shape ∧ c.DeclaresNotTwice Naming.rangeProperty := by
  constructor
  · intro h
    obtain ⟨hfirst, hnotTwice⟩ := declaresOnce_iff.1 h.range
    exact ⟨⟨h.dates, hfirst, h.others⟩, hnotTwice⟩
  · rintro ⟨h, hnotTwice⟩
    exact ⟨h.dates, declaresOnce_iff.2 ⟨h.range, hnotTwice⟩, h.others⟩

theorem fits_datesExact_iff : c.Fits c.DatesExact ↔ c.Fits c.DatesAccepted ∧
    (c.shape?.isSome = true → c.DeclaresNotTwice Naming.rangeProperty) := by
  rw [Fits, Fits]
  rcases c.shape? with - | shape
  · simp
  · simp [datesExact_iff]

end Class

namespace ShapeCheck

variable {c : Class} {shape : Shape}

/-- The scan that gathers all properties with the name of a date. -/
theorem dateViolations_eq_nil_iff {date : String} :
    dateViolations c date = [] ↔ c.DeclaresOnce date Property.HoldsDate := by
  rw [Class.declaresOnce_iff_filter, dateViolations]
  rcases hnamed : c.properties.filter (fun p => p.name == date) with - | ⟨p, - | ⟨p', rest⟩⟩
  · simp [hnamed]
  · simp [hnamed, Property.HoldsDate]
  · simp [hnamed]

/-- The scan that finds the first property with the name of the range. -/
theorem rangeViolations_eq_nil_iff :
    rangeViolations c shape = [] ↔
      c.DeclaresFirst Naming.rangeProperty (Property.HoldsRange shape) := by
  rw [Class.declaresFirst_iff_find, rangeViolations]
  rcases hfound : c.properties.find? (fun p => p.name == Naming.rangeProperty) with - | p
  · simp [hfound]
  · simp [hfound, Property.HoldsRange, and_assoc]

/-- The scan that passes over all tagged properties. -/
theorem strayViolations_eq_nil_iff :
    strayViolations c shape = [] ↔ ∀ p ∈ c.properties, p.isGeneratedDate = true →
      p.name ∈ shape.dateNames ∨ p.name = Naming.rangeProperty := by
  rw [strayViolations, List.map_eq_nil_iff, List.filter_eq_nil_iff]
  refine forall₂_congr fun p _ => ?_
  rcases p.isGeneratedDate
  · simp
  · by_cases hrange : p.name = Naming.rangeProperty
    · simp [hrange]
    · simp [hrange]

/-- What the check accepts in one class. -/
theorem violations_eq_nil_iff : violations c = [] ↔ c.Fits c.DatesAccepted := by
  rw [violations, Class.Fits]
  rcases c.shape? with - | shape
  · simp
  · simp only [List.append_eq_nil_iff, List.flatMap_eq_nil_iff, dateViolations_eq_nil_iff,
      rangeViolations_eq_nil_iff, strayViolations_eq_nil_iff]
    constructor
    · rintro ⟨⟨hdates, hrange⟩, hothers⟩
      exact ⟨hdates, hrange, hothers⟩
    · intro h
      exact ⟨⟨h.dates, h.range⟩, h.others⟩

/-- Warnings about several shapes do not count. -/
theorem passes_iff_violations (m : Model) :
    (verdict m).passes = true ↔ ∀ c ∈ m.classes.entries, violations c = [] := by
  have hwarnings : ∀ f ∈ (if (m.classes.entries.flatMap ambiguities).isEmpty then [] else
      [Finding.warning name "Classes with several temporal stereotypes use the first declared"
        (m.classes.entries.flatMap ambiguities)]), f.isFailure = false := by
    split
    · simp
    · simp [Finding.isFailure, Finding.warning]
  rw [Verdict.passes_iff, verdict, List.forall_mem_cons, and_iff_left hwarnings]
  simp

/-- **What the check on date properties accepts.**  It passes exactly if every class has the date
properties of its shape and no others, where a property with the name of the range may be followed
by more of that name.  Every conforming model passes, therefore, and one that passes conforms exactly
if no class with a shape declares its range twice. -/
theorem passes_iff_conforms (m : Model) :
    ((verdict m).passes = true ↔ ∀ c ∈ m.classes.entries, c.Fits c.DatesAccepted) ∧
      ((∀ c ∈ m.classes.entries, c.Fits c.DatesExact) ↔
        (verdict m).passes = true ∧ ∀ c ∈ m.classes.entries, c.shape?.isSome = true →
          c.DeclaresNotTwice Naming.rangeProperty) := by
  have hpasses : (verdict m).passes = true ↔ ∀ c ∈ m.classes.entries, c.Fits c.DatesAccepted := by
    rw [passes_iff_violations]
    exact forall₂_congr fun c _ => violations_eq_nil_iff
  refine ⟨hpasses, ?_⟩
  rw [hpasses, ← forall₂_and]
  exact forall₂_congr fun c _ => Class.fits_datesExact_iff

/-- A class with its date and its range, and with a property of its own that has the name of the
range. -/
def doubled : Model :=
  let generated : Annotations :=
    { stereotypes := [.resolved Naming.milestoningProfile Naming.generatedDateTag] }
  .ofDocument {
    classes := [
      { path := "m::K"
        stereotypes := [.resolved temporalProfile Shape.business.name]
        properties := [
          { generated, Typing.date with name := Axis.business.name, owner := .ofClass "m::K" },
          { generated with
            name := Naming.rangeProperty, type := .ofClass Shape.business.rangeClass
            multiplicity := .zeroOne, owner := .ofClass "m::K" },
          { name := Naming.rangeProperty, type := .primitive .string, multiplicity := .one
            owner := .ofClass "m::K" }] }] }

/-- The second property with the name of the range is not seen. -/
theorem doubled_passes :
    (verdict doubled).passes = true ∧ ¬ ∀ c ∈ doubled.classes.entries, c.Fits c.DatesExact := by
  obtain ⟨-, hconforms⟩ := passes_iff_conforms doubled
  refine ⟨by decide +kernel, fun h => ?_⟩
  exact absurd (hconforms.1 h).2 (by decide +kernel)

end ShapeCheck

end Bitemporal
