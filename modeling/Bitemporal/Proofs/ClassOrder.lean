/-
Bitemporal/Proofs/ClassOrder.lean

The order in which classes are milestoned.

Milestoning a class looks at other classes all the time: where properties lead,
which shape the class there has, which shape the class itself has.  All of that
is in the frame of the model, and what it writes are the members of one class
(`milestoneClass_eq_ok_iff`).  So no class sees what was written to another, and
two visits may change places (`milestoneClass_swap`), also where the classes
refer to one another.

Main statement: the classes may be visited in any order
(`milestoneClasses_perm`).  Which symbols the table knows does not matter, as
long as no request fails; where one does, the order may decide which.
-/
import Bitemporal.Proofs.Agreement

namespace Bitemporal

namespace Model

/-! ### Runs whose steps may change places -/

/-- Whether two steps at different paths may change places, as far as they succeed. -/
def StepsCommute (step : Model → String → Except Fault (Model × Nat)) : Prop :=
  ∀ {m m₁ m₂ : Model} {p q : String} {n k : Nat}, p ≠ q →
    step m p = .ok (m₁, n) → step m₁ q = .ok (m₂, k) →
      ∃ m₁', step m q = .ok (m₁', k) ∧ step m₁' p = .ok (m₂, n)

theorem countingStep_eq_ok_iff {step : Model → String → Except Fault (Model × Nat)}
    {before after : Model × Nat} {p : String} :
    countingStep step before p = .ok after ↔
      ∃ n, step before.1 p = .ok (after.1, n) ∧ after.2 = before.2 + n := by
  rw [countingStep, bind_eq_ok]
  constructor
  · rintro ⟨⟨m, n⟩, hstep, h⟩
    cases h
    exact ⟨n, hstep, rfl⟩
  · obtain ⟨m, count⟩ := after
    rintro ⟨n, hstep, rfl⟩
    exact ⟨(m, n), hstep, rfl⟩

/-- **A run takes its paths in any order** if its steps may change places. -/
theorem StepsCommute.forEach_perm {step : Model → String → Except Fault (Model × Nat)}
    (hstep : StepsCommute step) {m : Model} {paths paths' : List String} (h : paths.Perm paths')
    {r : Model × Nat} (hrun : forEach step m paths = .ok r) : forEach step m paths' = .ok r := by
  rw [forEach_eq] at hrun ⊢
  generalize (m, 0) = before at hrun ⊢
  -- by the steps of the permutation, wherever the run stands
  induction h generalizing before r with
  | nil => exact hrun
  | cons p _ ih =>
    rw [List.foldlM_cons, bind_eq_ok] at hrun ⊢
    obtain ⟨after, hafter, hrest⟩ := hrun
    exact ⟨after, hafter, ih _ hrest⟩
  | swap p q paths =>
    by_cases hqp : q = p
    · rw [hqp] at hrun ⊢
      exact hrun
    · simp only [List.foldlM_cons, bind_eq_ok] at hrun ⊢
      obtain ⟨after, hafter, after', hafter', hrest⟩ := hrun
      obtain ⟨n, hq, hn⟩ := countingStep_eq_ok_iff.1 hafter
      obtain ⟨k, hp, hk⟩ := countingStep_eq_ok_iff.1 hafter'
      obtain ⟨m', hp', hq'⟩ := hstep hqp hq hp
      refine ⟨(m', before.2 + k), countingStep_eq_ok_iff.2 ⟨k, hp', rfl⟩, after',
        countingStep_eq_ok_iff.2 ⟨n, hq', ?_⟩, hrest⟩
      show after'.2 = before.2 + k + n
      omega
  | trans _ _ ih ih' => exact ih' _ (ih _ hrun)

end Model

/-! ### Visits of classes -/

namespace Class

/-- The class with other members. -/
def withMembers (members : Members) (c : Class) : Class :=
  { c with toMembers := members }

@[simp] theorem withMembers_frame (members : Members) (c : Class) :
    (c.withMembers members).frame = c.frame := rfl

@[simp] theorem withMembers_path (members : Members) (c : Class) :
    (c.withMembers members).path = c.path := rfl

end Class

namespace Model

variable {m m' m₁ m₂ : Model} {s : Symbols} {filter : RangeFilter}

/-- Where milestoning replaces nothing it changes nothing. -/
theorem members_of_milestone {sourceOf : Property → Option String} {members : Members}
    {done : Milestoned} (h : m.milestone s filter members sourceOf = .ok done)
    (hnames : done.names = []) : done.members = members := by
  obtain ⟨tag, -, h⟩ := bind_eq_ok.1 h
  obtain ⟨accessors, haccessors, h⟩ := bind_eq_ok.1 h
  cases h
  have hnone : members.properties.filterMap (m.edge? sourceOf) = [] := List.map_eq_nil_iff.1 hnames
  have hproperties : (members.properties.map fun p =>
      if (m.edge? sourceOf p).isSome then Edge.edgePoint p tag else p) = members.properties := by
    rw [List.filterMap_eq_nil_iff] at hnone
    refine (List.map_congr_left fun p hp => ?_).trans (List.map_id _)
    rw [hnone p hp]
    rfl
  rw [hnone, List.mapM_nil] at haccessors
  cases haccessors
  simp only [hnone, hproperties]
  rfl

/-- The model with these members written to the class of a path. -/
def withMembersAt (m : Model) (path : String) (members : Members) : Model :=
  m.modifyClass path (Class.withMembers members)

@[simp] theorem withMembersAt_frame (m : Model) (path : String) (members : Members) :
    (m.withMembersAt path members).frame = m.frame :=
  modifyClass_frame (Class.withMembers_frame members)

theorem withMembersAt_comm (m : Model) {p q : String} (hpq : p ≠ q) (ms ms' : Members) :
    (m.withMembersAt p ms).withMembersAt q ms' = (m.withMembersAt q ms').withMembersAt p ms :=
  congrArg (fun classes => { m with classes }) <|
    PathTable.modify_modify_comm (f := Class.withMembers ms) (g := Class.withMembers ms')
      (Class.withMembers_path ms) (Class.withMembers_path ms') hpq

/-- Another class is left as it is. -/
theorem class?_withMembersAt (m : Model) {p q : String} (hpq : p ≠ q) (ms : Members) :
    (m.withMembersAt p ms).class? q = m.class? q := by
  rw [withMembersAt, class?_modifyClass (f := Class.withMembers ms) (Class.withMembers_path ms)]
  rcases hclass : m.class? q with - | c
  · rfl
  · have hpath : c.path ≠ p := fun hp => hpq (hp.symm.trans (class?_eq_some_iff.1 hclass).2)
    rw [Option.map_some, if_neg hpath]

/-- What a visit of a class reads and what it writes. -/
theorem milestoneClass_eq_ok_iff {path : String} {n : Nat} :
    m.milestoneClass s filter path = .ok (m', n) ↔
      ∃ c done, m.class? path = some c ∧
        m.milestone s filter c.toMembers (fun _ => some c.path) = .ok done ∧
        m' = m.withMembersAt path done.members ∧ n = done.names.length := by
  rcases hclass : m.class? path with - | c
  · rw [milestoneClass, hclass]
    simp
  · have hvisit : ∀ done, m.milestone s filter c.toMembers (fun _ => some c.path) = .ok done →
        m.milestoneClass s filter path =
          .ok (m.withMembersAt path done.members, done.names.length) := by
      intro done hdone
      rw [milestoneClass, hclass]
      refine bind_eq_ok.2 ⟨done, hdone, ?_⟩
      split
      · -- nothing is written, and there was nothing to write
        rename_i hempty
        have hnames := List.isEmpty_iff.1 hempty
        have hself : m.withMembersAt path done.members = m := by
          rw [withMembersAt, modifyClass_of_class? hclass, members_of_milestone hdone hnames]
          exact addClass_self hclass
        rw [hself, hnames]
        rfl
      · rfl
    constructor
    · intro h
      have hdone : ∃ done, m.milestone s filter c.toMembers (fun _ => some c.path) = .ok done := by
        rw [milestoneClass, hclass] at h
        obtain ⟨done, hdone, -⟩ := bind_eq_ok.1 h
        exact ⟨done, hdone⟩
      obtain ⟨done, hdone⟩ := hdone
      rw [hvisit done hdone] at h
      cases h
      exact ⟨c, done, rfl, hdone, rfl, rfl⟩
    · rintro ⟨_, done, hc, hdone, rfl, rfl⟩
      cases hc
      exact hvisit done hdone

/-- No class sees what a visit has written to another. -/
theorem milestoneClass_swap : StepsCommute (milestoneClass · s filter ·) := by
  intro m m₁ m₂ p q n k hpq hp hq
  obtain ⟨c, done, hc, hdone, rfl, rfl⟩ := milestoneClass_eq_ok_iff.1 hp
  obtain ⟨d, done', hd, hdone', rfl, rfl⟩ := milestoneClass_eq_ok_iff.1 hq
  rw [class?_withMembersAt m hpq] at hd
  rw [milestone_frame (m.withMembersAt_frame p done.members)] at hdone'
  refine ⟨m.withMembersAt q done'.members, milestoneClass_eq_ok_iff.2 ⟨d, done', hd, hdone', rfl, rfl⟩,
    milestoneClass_eq_ok_iff.2 ⟨c, done, ?_, ?_, m.withMembersAt_comm hpq _ _, rfl⟩⟩
  · rw [class?_withMembersAt m hpq.symm, hc]
  · rw [milestone_frame (m.withMembersAt_frame q done'.members)]
    exact hdone

/-- **Classes may be milestoned in any order.**  The runs over two orders of the classes succeed with
the same model and the same count, or neither succeeds.  With all built-in symbols they do succeed, and
every class is what milestoning makes of it in the model that the run started from. -/
theorem milestoneClasses_perm (m : Model) (filter : RangeFilter) {paths : List String}
    (h : paths.Perm m.classes.paths) :
    (∀ s r, forEach (milestoneClass · s filter ·) m paths = .ok r ↔
      forEach (milestoneClass · s filter ·) m m.classes.paths = .ok r) ∧
    ∃ m', forEach (milestoneClass · .builtin filter ·) m paths =
        .ok (m', (m.classes.entries.map fun c => (m.classEdges c).length).sum) ∧
      m'.associations = m.associations ∧
      m'.classes.entries = m.classes.entries.map (Class.milestoned m filter) := by
  have hany : ∀ s r, forEach (milestoneClass · s filter ·) m paths = .ok r ↔
      forEach (milestoneClass · s filter ·) m m.classes.paths = .ok r := fun s r =>
    ⟨milestoneClass_swap.forEach_perm h, milestoneClass_swap.forEach_perm h.symm⟩
  refine ⟨hany, ?_⟩
  obtain ⟨m', hrun, hentries⟩ := milestoneClasses_run m filter
  exact ⟨m', (hany _ _).2 hrun, hentries⟩

/-- Classes that refer to themselves and to one another, by their paths and by abbreviations. -/
def entwined : Model :=
  ofDocument {
    classes := [
      { path := "m::A"
        stereotypes := [.resolved temporalProfile Shape.business.name]
        properties := [
          { name := "self", type := .ofClass "m::A", multiplicity := .one, owner := .ofClass "m::A" },
          { name := "there", type := .abbreviated "B", multiplicity := .one
            owner := .ofClass "m::A" }] },
      { path := "m::B"
        stereotypes := [.resolved temporalProfile Shape.processing.name]
        properties := [
          { name := "back", type := .abbreviated "A", multiplicity := .one
            owner := .ofClass "m::B" }] },
      { path := "m::C"
        properties := [
          { name := "first", type := .ofClass "m::A", multiplicity := .one, owner := .ofClass "m::C" },
          { name := "second", type := .ofClass "m::B", multiplicity := .one, owner := .ofClass "m::C" },
          { name := "absent", type := .ofClass "m::X", multiplicity := .one
            owner := .ofClass "m::C" }] }] }

/-- Out of order the run replaces what it replaces in order. -/
theorem entwined_perm :
    ["m::B", "m::C", "m::A"].Perm entwined.classes.paths ∧
      ∃ m', forEach (milestoneClass · .builtin .halfOpen ·) entwined ["m::B", "m::C", "m::A"] =
          .ok (m', 5) ∧
        forEach (milestoneClass · .builtin .halfOpen ·) entwined entwined.classes.paths =
          .ok (m', 5) := by
  have hperm : ["m::B", "m::C", "m::A"].Perm entwined.classes.paths := by decide +kernel
  have hcount : (entwined.classes.entries.map fun c => (entwined.classEdges c).length).sum = 5 := by
    decide +kernel
  obtain ⟨hany, m', hrun, -⟩ := milestoneClasses_perm entwined .halfOpen hperm
  rw [hcount] at hrun
  exact ⟨hperm, m', hrun, (hany _ _).1 hrun⟩

end Model

end Bitemporal
