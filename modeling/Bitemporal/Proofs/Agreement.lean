/-
Bitemporal/Proofs/Agreement.lean

Models that differ only in what renewals drop.

A compilation reads the views of a class late: nothing before the dating of
bodies looks at them, and by then the views of every association have been
renewed once.  So two models that differ in views only, and there only in
entries that some renewal will drop (`Agrees`), cannot be told apart by
compiling them (`Agrees.compile_eq`).

The two compilations are followed in lockstep (`Alike`): each step fails alike
or succeeds with models that agree again.  A renewal takes its association off
the list of those that have entries to drop, and when the list is empty the
models are equal.  The built-in symbols play no part in this: a symbol that is
missing is missing in both.
-/
import Bitemporal.Proofs.Stages

namespace Bitemporal

/-! ### Computations in lockstep -/

/-- Two computations fail alike or succeed with related results. -/
inductive Alike {α : Type} (R : α → α → Prop) : Except Fault α → Except Fault α → Prop
  | ok {a b : α} (h : R a b) : Alike R (.ok a) (.ok b)
  | error (fault : Fault) : Alike R (.error fault) (.error fault)

/-- The models are related, and the counts are the same. -/
abbrev Counted (R : Model → Model → Prop) (x y : Model × Nat) : Prop :=
  R x.1 y.1 ∧ x.2 = y.2

section Lockstep

variable {α β : Type} {R : α → α → Prop} {S : β → β → Prop}

theorem Alike.bind {x y : Except Fault α} {f g : α → Except Fault β} (h : Alike R x y)
    (hfg : ∀ a b, R a b → Alike S (f a) (g b)) : Alike S (x >>= f) (y >>= g) := by
  cases h with
  | ok hab => exact hfg _ _ hab
  | error fault => exact .error fault

theorem Alike.exists_ok {a : α} {y : Except Fault α} (h : Alike R (.ok a) y) :
    ∃ b, y = .ok b ∧ R a b := by
  cases h with
  | ok hab => exact ⟨_, rfl, hab⟩

theorem Alike.imp {R' : α → α → Prop} {x y : Except Fault α} (h : Alike R x y)
    (himp : ∀ a b, R a b → R' a b) : Alike R' x y := by
  cases h with
  | ok hab => exact .ok (himp _ _ hab)
  | error fault => exact .error fault

theorem Alike.of_eq {x y : Except Fault α} (h : x = y) (hR : ∀ a, R a a) : Alike R x y := by
  subst h
  cases x with
  | ok a => exact .ok (hR a)
  | error fault => exact .error fault

theorem Alike.eq {x y : Except Fault α} (h : Alike Eq x y) : x = y := by
  cases h with
  | ok hab => rw [hab]
  | error fault => rfl

/-- Runs over the same items go in lockstep if their steps do.  The relation knows what is left to
visit. -/
theorem Model.forEach_alike {γ ι : Type} {key : γ → ι} {l : List γ}
    {step : Model → ι → Except Fault (Model × Nat)} {R : List γ → Model → Model → Prop}
    {m m' : Model} (start : R l m m')
    (visit : ∀ {a rest m m'}, R (a :: rest) m m' →
      Alike (Counted (R rest)) (step m (key a)) (step m' (key a))) :
    Alike (Counted (R [])) (Model.forEach step m (l.map key))
      (Model.forEach step m' (l.map key)) := by
  -- the count so far is generalised
  have aux : ∀ (l : List γ) (n : Nat) (m m' : Model), R l m m' →
      Alike (Counted (R []))
        ((l.map key).foldlM (Model.countingStep step) (m, n))
        ((l.map key).foldlM (Model.countingStep step) (m', n)) := by
    intro l
    induction l with
    | nil => exact fun n m m' h => .ok ⟨h, rfl⟩
    | cons a rest ih =>
      intro n m m' h
      rw [List.map_cons, List.foldlM_cons, List.foldlM_cons]
      have hstep : Alike (Counted (R rest))
          (Model.countingStep step (m, n) (key a)) (Model.countingStep step (m', n) (key a)) := by
        refine (visit h).bind ?_
        rintro ⟨m₁, k⟩ ⟨m₁', k'⟩ ⟨hm, rfl⟩
        exact .ok ⟨hm, rfl⟩
      refine hstep.bind ?_
      rintro ⟨m₁, k⟩ ⟨m₁', k'⟩ ⟨hm, rfl⟩
      exact ih k m₁ m₁' hm
  rw [Model.forEach_eq, Model.forEach_eq]
  exact aux l 0 m m' start

theorem Model.forEach_alike_of_step {ι : Type} {step : Model → ι → Except Fault (Model × Nat)}
    {R : Model → Model → Prop} {m m' : Model} (start : R m m') (items : List ι)
    (visit : ∀ {item m m'}, R m m' → Alike (Counted R) (step m item) (step m' item)) :
    Alike (Counted R) (Model.forEach step m items) (Model.forEach step m' items) := by
  have h : Alike (Counted R) (Model.forEach step m (items.map id))
      (Model.forEach step m' (items.map id)) :=
    forEach_alike (R := fun _ => R) start visit
  rwa [List.map_id] at h

end Lockstep

/-! ### Classes -/

/-- Two classes declare the same, and show the same but for entries of owners that are dropped. -/
structure Class.Agrees (drop : Owner → Bool) (c c' : Class) : Prop where
  declared : c' = { c with exposed := c'.exposed, exposedQualified := c'.exposedQualified }
  exposed : (c'.exposed.filter fun p => !drop p.owner) = c.exposed.filter fun p => !drop p.owner
  qualified : (c'.exposedQualified.filter fun q => !drop q.owner) =
    c.exposedQualified.filter fun q => !drop q.owner

namespace Class

variable {drop : Owner → Bool} {c c' c'' : Class}

theorem Agrees.refl (c : Class) : c.Agrees drop c :=
  ⟨rfl, rfl, rfl⟩

theorem Agrees.exists_views (h : c.Agrees drop c') : ∃ exposed qualified,
    c' = { c with exposed := exposed, exposedQualified := qualified } :=
  ⟨_, _, h.declared⟩

theorem Agrees.frame (h : c.Agrees drop c') : c'.frame = c.frame := by
  rw [h.declared]
  rfl

theorem Agrees.path (h : c.Agrees drop c') : c'.path = c.path :=
  congrArg Prod.fst h.frame

theorem Agrees.toMembers (h : c.Agrees drop c') : c'.toMembers = c.toMembers := by
  rw [h.declared]

theorem Agrees.symm (h : c.Agrees drop c') : c'.Agrees drop c where
  declared := by rw [h.declared]
  exposed := h.exposed.symm
  qualified := h.qualified.symm

theorem Agrees.trans (h : c.Agrees drop c') (h' : c'.Agrees drop c'') : c.Agrees drop c'' where
  declared := by rw [h'.declared, h.declared]
  exposed := h'.exposed.trans h.exposed
  qualified := h'.qualified.trans h.qualified

/-- Where nothing is dropped, classes agree only with themselves. -/
theorem Agrees.eq (h : c.Agrees (fun _ => false) c') : c' = c := by
  have hexposed : c'.exposed = c.exposed := by simpa using h.exposed
  have hqualified : c'.exposedQualified = c.exposedQualified := by simpa using h.qualified
  rw [h.declared, hexposed, hqualified]

/-- What a class declares can be exchanged in both. -/
theorem Agrees.withMembers (h : c.Agrees drop c') (ms : Members) :
    Agrees drop { c with toMembers := ms } { c' with toMembers := ms } where
  declared := by rw [h.declared]
  exposed := h.exposed
  qualified := h.qualified

/-- Whether renewing one of some associations drops entries of an owner from a class. -/
def claimed (c : Class) (m : Model) (as : List Association) (o : Owner) : Bool :=
  as.any fun a => c.drops m a o

/-- **Renewing an association** takes it off the list of those that have entries to drop. -/
theorem Agrees.renewed {m : Model} {a : Association} {as : List Association}
    (h : c.Agrees (c.claimed m (a :: as)) c') :
    (c.renewed m a).Agrees ((c.renewed m a).claimed m as) (c'.renewed m a) := by
  obtain ⟨exposed, qualified, rfl⟩ := h.exists_views
  have hclaimed : ∀ o, (!c.claimed m (a :: as) o) = (!c.claimed m as o && !c.drops m a o) := by
    intro o
    rw [claimed, List.any_cons, Bool.not_or, Bool.and_comm]
    rfl
  have hexposed := h.exposed
  have hqualified := h.qualified
  simp only [hclaimed] at hexposed hqualified
  -- the new entries are the same, and of the old ones those count that no association drops
  constructor
  · rfl
  · show ((exposed.filter fun p => !c.drops m a p.owner) ++ _).filter
        (fun p => !c.claimed m as p.owner) =
      ((c.exposed.filter fun p => !c.drops m a p.owner) ++ _).filter fun p => !c.claimed m as p.owner
    rw [List.filter_append, List.filter_append, List.filter_filter, List.filter_filter, hexposed]
  · show ((qualified.filter fun q => !c.drops m a q.owner) ++ _).filter
        (fun q => !c.claimed m as q.owner) =
      ((c.exposedQualified.filter fun q => !c.drops m a q.owner) ++ _).filter fun q =>
        !c.claimed m as q.owner
    rw [List.filter_append, List.filter_append, List.filter_filter, List.filter_filter, hqualified]

end Class

/-! ### Models -/

/-- Models with the same associations, whose classes agree but for what renewing some of them drops.
The frame is that of a third model, from which the claims are read. -/
structure Model.Agrees (base : Model) (as : List Association) (m m' : Model) : Prop where
  frame : m.frame = base.frame
  associations : m'.associations = m.associations
  classes : List.Forall₂ (fun c c' => c.Agrees (c.claimed base as) c') m.classes.entries
    m'.classes.entries

namespace Model

variable {base m m' : Model} {as : List Association}

theorem Agrees.frame_right (h : Agrees base as m m') : m'.frame = base.frame := by
  rw [← h.frame]
  exact map_eq_of_forall₂ h.classes fun hc => hc.frame

theorem Agrees.paths (h : Agrees base as m m') : m'.classes.paths = m.classes.paths :=
  map_eq_of_forall₂ h.classes fun hc => hc.path

/-- A path leads to classes that agree, or to none in both. -/
theorem Agrees.class? (h : Agrees base as m m') (path : String) :
    (m.class? path = none ∧ m'.class? path = none) ∨
      ∃ c c', m.class? path = some c ∧ m'.class? path = some c' ∧ c.Agrees (c.claimed base as) c' :=
  PathTable.find?_of_forall₂ h.classes (fun hc => hc.path) path

/-- A change of what one class declares keeps agreement. -/
theorem Agrees.modifyClass (h : Agrees base as m m') (path : String) (ms : Members) :
    Agrees base as (m.modifyClass path fun c => { c with toMembers := ms })
      (m'.modifyClass path fun c => { c with toMembers := ms }) where
  frame := by
    rw [← h.frame]
    exact modifyClass_frame fun _ => rfl
  associations := h.associations
  classes :=
    PathTable.forall₂_modify (f := fun c : Class => { c with toMembers := ms })
      (g := fun c : Class => { c with toMembers := ms }) h.classes (fun hc => hc.path)
      (fun _ => rfl) (fun _ => rfl) fun _ hc => hc.withMembers ms

/-! ### Stages -/

theorem Agrees.classify (h : Agrees base as m m') (strict : Bool) :
    m'.classify strict = m.classify strict := by
  have hmap : m'.classes.entries.mapM (fun c => return (c.path, ← c.shapeChecked strict)) =
      m.classes.entries.mapM (fun c => return (c.path, ← c.shapeChecked strict)) := by
    -- a class is checked without regard to its views
    have hclasses := h.classes
    generalize m.classes.entries = l, m'.classes.entries = l' at hclasses
    induction hclasses with
    | nil => rfl
    | cons hc _ ih => rw [List.mapM_cons, List.mapM_cons, ih, hc.declared]; rfl
  rw [Model.classify, Model.classify, hmap]

/-- What a class is given depends on what it declares. -/
theorem Agrees.synthesizeAt (h : Agrees base as m m') (s : Symbols) (recorded : String × Shape) :
    Alike (Counted fun n n' => Agrees base as n n' ∧ n.associations = m.associations)
      (synthesizeAt s m recorded) (synthesizeAt s m' recorded) := by
  obtain ⟨path, shape⟩ := recorded
  rw [Model.synthesizeAt, Model.synthesizeAt]
  rcases h.class? path with ⟨hc, hc'⟩ | ⟨c, c', hc, hc', hagrees⟩
  · rw [hc, hc']
    exact .ok ⟨⟨h, rfl⟩, rfl⟩
  · have hmodify := h.modifyClass path
    obtain ⟨exposed, qualified, rfl⟩ := hagrees.exists_views
    simp only [modifyClass_of_class? hc, modifyClass_of_class? hc'] at hmodify
    rw [hc, hc']
    have hdates : Class.dateProperties { c with exposed := exposed, exposedQualified := qualified } s
        shape = c.dateProperties s shape := rfl
    dsimp only
    rw [Class.addDateProperties, Class.addDateProperties, hdates]
    rcases c.dateProperties s shape with fault | properties
    · exact .error fault
    · exact .ok ⟨⟨hmodify _, rfl⟩, rfl⟩

/-- What milestoning makes of some members depends on the frame only. -/
theorem milestone_frame (h : m'.frame = m.frame) (s : Symbols) (filter : RangeFilter) (ms : Members)
    (sourceOf : Property → Option String) :
    m'.milestone s filter ms sourceOf = m.milestone s filter ms sourceOf := by
  have hedge : m'.edge? sourceOf = m.edge? sourceOf := funext (edge?_frame h sourceOf)
  have haccessors : m'.accessors s filter = m.accessors s filter := by
    funext e
    rw [accessors, accessors, shapeAt?_frame h]
  rw [milestone, milestone, hedge, haccessors]

theorem Agrees.milestone (h : Agrees base as m m') (s : Symbols) (filter : RangeFilter) (ms : Members)
    (sourceOf : Property → Option String) :
    m'.milestone s filter ms sourceOf = m.milestone s filter ms sourceOf :=
  milestone_frame (h.frame_right.trans h.frame.symm) s filter ms sourceOf

theorem Agrees.milestoneClass (h : Agrees base as m m') (s : Symbols) (filter : RangeFilter)
    (path : String) :
    Alike (Counted fun n n' => Agrees base as n n' ∧ n.associations = m.associations)
      (m.milestoneClass s filter path) (m'.milestoneClass s filter path) := by
  rw [Model.milestoneClass, Model.milestoneClass]
  rcases h.class? path with ⟨hc, hc'⟩ | ⟨c, c', hc, hc', hagrees⟩
  · rw [hc, hc']
    exact .error _
  · rw [hc, hc']
    dsimp only
    rw [hagrees.toMembers, hagrees.path, h.milestone]
    rcases m.milestone s filter c.toMembers fun _ => some c.path with fault | done
    · exact .error fault
    · show Alike _ (if done.names.isEmpty then _ else _) (if done.names.isEmpty then _ else _)
      split
      · exact .ok ⟨⟨h, rfl⟩, rfl⟩
      · exact .ok ⟨⟨h.modifyClass path done.members, rfl⟩, rfl⟩

/-- Which entries are dropped depends on the path and on where the ends lead. -/
theorem drops_congr {a b : Association} (hpath : b.path = a.path) (hends : b.memberPaths = a.memberPaths)
    (c : Class) : c.drops m b = c.drops m a := by
  funext o
  rw [Class.drops, Class.drops, hpath, memberClasses_of_memberPaths hends]

/-- A renewal brings agreeing models closer, also by an association whose ends have changed but
lead where they did. -/
theorem Agrees.renewViewsOf {a b : Association} (h : Agrees base (a :: as) m m')
    (hpath : b.path = a.path) (hends : b.memberPaths = a.memberPaths) :
    Agrees base as (m.renewViewsOf b) (m'.renewViewsOf b) := by
  obtain ⟨hassociations, hclasses⟩ := renewViewsOf_entries m b
  obtain ⟨hassociations', hclasses'⟩ := renewViewsOf_entries m' b
  rw [Class.renewed_of_frame h.frame] at hclasses
  rw [Class.renewed_of_frame h.frame_right] at hclasses'
  constructor
  · exact (m.renewViewsOf_frame b).trans h.frame
  · rw [hassociations, hassociations', h.associations]
  · rw [hclasses, hclasses', List.forall₂_map_left_iff, List.forall₂_map_right_iff]
    refine h.classes.imp fun c c' hc => ?_
    have hclaimed : c.claimed base (a :: as) = c.claimed base (b :: as) := by
      funext o
      rw [Class.claimed, Class.claimed, List.any_cons, List.any_cons, drops_congr hpath hends]
    rw [hclaimed] at hc
    exact hc.renewed

/-- Milestoning leaves the ends of an association where they lead. -/
theorem memberPaths_of_milestone {s : Symbols} {filter : RangeFilter} {a : Association}
    {sourceOf : Property → Option String} {done : Milestoned}
    (h : m.milestone s filter a.toMembers sourceOf = .ok done) :
    Association.memberPaths { a with toMembers := done.members } = a.memberPaths := by
  rw [milestone] at h
  obtain ⟨tag, -, h⟩ := bind_eq_ok.1 h
  obtain ⟨accessors, -, h⟩ := bind_eq_ok.1 h
  obtain rfl := Except.ok.inj h
  show (a.properties.map _).filterMap _ = a.properties.filterMap _
  rw [List.filterMap_map]
  refine List.filterMap_congr fun p _ => ?_
  rw [Function.comp_apply]
  split <;> rfl

/-- Associations that are still to be visited, as they were at the start. -/
structure Pending (as : List Association) (m : Model) : Prop where
  distinct : (as.map Association.path).Nodup
  present : ∀ a ∈ as, a ∈ m.associations.entries

theorem Pending.tail {a : Association} (h : Pending (a :: as) m) : Pending as m where
  distinct := (List.nodup_cons.1 h.distinct).2
  present b hb := h.present b (List.mem_cons_of_mem _ hb)

theorem Pending.of_associations (h : Pending as m) (ha : m'.associations = m.associations) :
    Pending as m' where
  distinct := h.distinct
  present a hmem := ha ▸ h.present a hmem

/-- An association with other members is found under its path, and the others stay. -/
theorem Pending.modifyAssociation {a : Association} (h : Pending (a :: as) m) (ms : Members) :
    (m.modifyAssociation a.path fun a => { a with toMembers := ms }).association? a.path =
        some { a with toMembers := ms } ∧
      Pending as (m.modifyAssociation a.path fun a => { a with toMembers := ms }) := by
  have hentries : (m.modifyAssociation a.path fun a => { a with toMembers := ms }).associations.entries =
      m.associations.entries.map fun b => if b.path = a.path then { b with toMembers := ms } else b :=
    PathTable.entries_modify fun _ => rfl
  constructor
  · rw [association?_eq_some_iff, hentries, List.mem_map]
    exact ⟨⟨a, h.present a List.mem_cons_self, if_pos rfl⟩, rfl⟩
  · refine ⟨h.tail.distinct, fun b hb => ?_⟩
    have hne : b.path ≠ a.path := fun hpath =>
      (List.nodup_cons.1 h.distinct).1 (hpath ▸ List.mem_map_of_mem hb)
    rw [hentries, List.mem_map]
    exact ⟨b, h.tail.present b hb, if_neg hne⟩

theorem Agrees.modifyAssociation (h : Agrees base as m m') (path : String)
    (f : Association → Association) :
    Agrees base as (m.modifyAssociation path f) (m'.modifyAssociation path f) where
  frame := h.frame
  associations := congrArg (fun t => PathTable.modify t path f) h.associations
  classes := h.classes

/-- The views of the next association are renewed in both. -/
theorem Agrees.renewViews {a b : Association} (h : Agrees base (a :: as) m m')
    (hb : m.association? a.path = some b) (hends : b.memberPaths = a.memberPaths) :
    Alike (fun n n' => Agrees base as n n' ∧ n.associations = m.associations)
      (m.renewViews a.path) (m'.renewViews a.path) := by
  have hb' : m'.association? a.path = some b := by
    rw [association?, h.associations]
    exact hb
  rw [Model.renewViews, Model.renewViews, hb, hb']
  exact .ok ⟨h.renewViewsOf (association?_eq_some_iff.1 hb).2 hends, (renewViewsOf_entries m b).1⟩

theorem Agrees.milestoneAssociation {a : Association} (h : Agrees base (a :: as) m m')
    (hpending : Pending (a :: as) m) (s : Symbols) (filter : RangeFilter) :
    Alike (Counted fun m m' => Agrees base as m m' ∧ Pending as m)
      (m.milestoneAssociation s filter a.path) (m'.milestoneAssociation s filter a.path) := by
  have ha : m.association? a.path = some a := association?_path (hpending.present a List.mem_cons_self)
  have ha' : m'.association? a.path = some a := by
    rw [association?, h.associations]
    exact ha
  have hexposing : m'.exposingClass? a = m.exposingClass? a :=
    funext (exposingClass?_frame (h.frame_right.trans h.frame.symm) a)
  rw [Model.milestoneAssociation, Model.milestoneAssociation, ha, ha']
  dsimp only
  rw [hexposing, h.milestone]
  rcases hdone : m.milestone s filter a.toMembers fun p => m.exposingClass? a p.type with fault | done
  · exact .error fault
  · show Alike _ (Model.renewViews (if done.names.isEmpty then m else _) a.path >>= _)
      (Model.renewViews (if done.names.isEmpty then m' else _) a.path >>= _)
    split
    · -- without edges the association stays as it is
      refine (h.renewViews ha rfl).bind fun n n' hn => ?_
      exact .ok ⟨⟨hn.1, hpending.tail.of_associations hn.2⟩, rfl⟩
    · -- with its edges replaced it drops the same entries
      obtain ⟨hthere, hrest⟩ := hpending.modifyAssociation done.members
      have hmodified := h.modifyAssociation a.path fun a => { a with toMembers := done.members }
      refine (hmodified.renewViews hthere (memberPaths_of_milestone hdone)).bind fun n n' hn => ?_
      exact .ok ⟨⟨hn.1, hrest.of_associations hn.2⟩, rfl⟩

/-! ### A compilation -/

/-- With no entries left to drop, models that agree are equal. -/
theorem Agrees.eq (h : Agrees base [] m m') : m' = m := by
  apply ext_entries
  · have heq : List.Forall₂ (fun c c' => c' = c) m.classes.entries m'.classes.entries :=
      h.classes.imp fun _ _ hc => hc.eq
    have := map_eq_of_forall₂ (f := id) (g := id) heq fun hc => hc
    simpa using this
  · rw [h.associations]

theorem Agrees.synthesize (h : Agrees base as m m') (s : Symbols) (recorded : List (String × Shape)) :
    Alike (Counted fun n n' => Agrees base as n n' ∧ n.associations = m.associations)
      (forEach (Model.synthesizeAt s) m recorded) (forEach (Model.synthesizeAt s) m' recorded) := by
  refine forEach_alike_of_step ⟨h, rfl⟩ recorded ?_
  rintro entry n n' ⟨hn, hassociations⟩
  refine (hn.synthesizeAt s entry).imp ?_
  rintro x y ⟨⟨hx, hx'⟩, hcount⟩
  exact ⟨⟨hx, hx'.trans hassociations⟩, hcount⟩

theorem Agrees.milestoneClasses (h : Agrees base as m m') (s : Symbols) (filter : RangeFilter)
    (paths : List String) :
    Alike (Counted fun n n' => Agrees base as n n' ∧ n.associations = m.associations)
      (forEach (Model.milestoneClass · s filter ·) m paths)
      (forEach (Model.milestoneClass · s filter ·) m' paths) := by
  refine forEach_alike_of_step ⟨h, rfl⟩ paths ?_
  rintro path n n' ⟨hn, hassociations⟩
  refine (hn.milestoneClass s filter path).imp ?_
  rintro x y ⟨⟨hx, hx'⟩, hcount⟩
  exact ⟨⟨hx, hx'.trans hassociations⟩, hcount⟩

/-- **Once the views of all associations are renewed, the models are equal.** -/
theorem Agrees.milestoneAssociations (h : Agrees base m.associations.entries m m') (s : Symbols)
    (filter : RangeFilter) :
    forEach (Model.milestoneAssociation · s filter ·) m' m.associations.paths =
      forEach (Model.milestoneAssociation · s filter ·) m m.associations.paths := by
  have hpending : Pending m.associations.entries m := ⟨m.associations.nodup_paths, fun _ ha => ha⟩
  have hrun : Alike (Counted fun n n' => Agrees base [] n n' ∧ Pending [] n)
      (forEach (Model.milestoneAssociation · s filter ·) m m.associations.paths)
      (forEach (Model.milestoneAssociation · s filter ·) m' m.associations.paths) :=
    forEach_alike (R := fun as n n' => Agrees base as n n' ∧ Pending as n) ⟨h, hpending⟩
      fun hn => hn.1.milestoneAssociation hn.2 s filter
  apply Eq.symm
  apply Alike.eq
  refine hrun.imp ?_
  rintro ⟨n, count⟩ ⟨n', count'⟩ ⟨⟨hn, -⟩, hcount⟩
  exact Prod.ext hn.eq.symm hcount

/-- **Models that agree but for entries of their associations compile alike**: with the same fault, or
with the same report to the same model. -/
theorem Agrees.compile_eq (h : Agrees base m.associations.entries m m') (s : Symbols)
    (settings : Settings) : m'.compile s settings = m.compile s settings := by
  apply Eq.symm
  apply Alike.eq
  rw [Model.compile, Model.compile, h.classify]
  refine (Alike.of_eq (R := Eq) rfl fun _ => rfl).bind ?_
  rintro temporal _ rfl
  refine (h.synthesize s _).bind ?_
  rintro ⟨n, count⟩ ⟨n', count'⟩ ⟨⟨hn, hassociations⟩, rfl⟩
  dsimp only
  rw [hn.paths]
  refine (hn.milestoneClasses s settings.rangeFilter _).bind ?_
  rintro ⟨o, count⟩ ⟨o', count'⟩ ⟨⟨ho, hassociations'⟩, rfl⟩
  dsimp only
  rw [← hassociations, ← hassociations'] at ho
  -- from here on there is only one model
  rw [ho.associations, ho.milestoneAssociations]
  exact Alike.of_eq rfl fun _ => rfl

end Model

end Bitemporal
