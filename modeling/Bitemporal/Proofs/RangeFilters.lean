/-
Bitemporal/Proofs/RangeFilters.lean

What the range filter makes a difference to.

The filter is read in one place, where the body of a range accessor is built.
So two compilations that differ in it are followed in lockstep (`Alike`): what
milestoning puts into a list is the same under both filters but for the bodies
of range accessors (`forall₂_additions`), and no later stage looks at these.
Dating leaves them alone, being generated, and reads no body of what it calls;
a renewal carries them into the views by type and by owner.

The relation the two runs keep is `Model.Refiltered`: behind declared lists
that are the same stand the additions under either filter, and the views differ
in copies of them.
-/
import Bitemporal.Proofs.Overloads
import Bitemporal.Proofs.Agreement

namespace Bitemporal

/-! ### Twins -/

/-- A qualified property, and what stands in its place under another range filter: for the range
accessor of one of some edges the one with the other filter. -/
def Twins (f g : RangeFilter) (edges : List Edge) (q q' : QualifiedProperty) : Prop :=
  q' = q ∨ ∃ e ∈ edges, q = e.accessorOf (.range f) ∧ q' = e.accessorOf (.range g)

/-- Twins differ in their bodies only. -/
theorem Twins.eq_withBody {f g : RangeFilter} {edges : List Edge} {q q' : QualifiedProperty}
    (h : Twins f g edges q q') : q' = { q with body := q'.body } := by
  rcases h with rfl | ⟨e, -, rfl, rfl⟩
  · rfl
  · rfl

theorem Twins.header {f g : RangeFilter} {edges : List Edge} {q q' : QualifiedProperty}
    (h : Twins f g edges q q') : q'.header = q.header := by
  rw [h.eq_withBody]
  rfl

theorem key_eq_of_header {q q' : QualifiedProperty} (h : q'.header = q.header) : q'.key = q.key := by
  show q'.header.key = q.header.key
  rw [h]

/-- What is new in lists that correspond, keys included, corresponds. -/
theorem forall₂_news {α κ : Type} [DecidableEq κ] {key : α → κ} {R : α → α → Prop}
    (hR : ∀ {x y}, R x y → key y = key x) {xs ys : List α} (h : List.Forall₂ R xs ys)
    (seen : List κ) : List.Forall₂ R (news key seen xs) (news key seen ys) := by
  induction h generalizing seen with
  | nil => exact .nil
  | cons hxy _ ih =>
    rw [news, news, hR hxy]
    split
    · exact ih seen
    · exact .cons hxy (ih _)

theorem forall₂_flatMap {α β : Type} {R : β → β → Prop} {F G : α → List β} {l : List α}
    (h : ∀ a ∈ l, List.Forall₂ R (F a) (G a)) : List.Forall₂ R (l.flatMap F) (l.flatMap G) := by
  induction l with
  | nil => exact .nil
  | cons a l ih =>
    rw [List.flatMap_cons, List.flatMap_cons]
    exact List.rel_append (h a List.mem_cons_self) (ih fun b hb => h b (List.mem_cons_of_mem a hb))

namespace Model

variable {m : Model} {f g : RangeFilter}

theorem forall₂_accessorsOf {edges : List Edge} {e : Edge} (he : e ∈ edges) :
    List.Forall₂ (Twins f g edges) (m.accessorsOf f e) (m.accessorsOf g e) := by
  -- the range accessor is the last one, if there is one
  have hforms : ∀ filter, m.accessorsOf filter e =
      ([AccessorForm.allDates] ++ if m.shapeAt? e.source = some .bitemporal ∨
          m.shapeAt? e.source = some e.shape then [AccessorForm.noDates] else []).map e.accessorOf ++
        (if e.shape.isUnitemporal then [AccessorForm.range filter] else []).map e.accessorOf :=
    fun filter => List.map_append
  rw [hforms, hforms]
  refine List.rel_append (List.forall₂_same.2 fun _ _ => .inl rfl) ?_
  split
  · exact .cons (.inr ⟨e, he, rfl, rfl⟩) .nil
  · exact .nil

/-- **What milestoning adds under one filter and under another** differs in range accessors only. -/
theorem forall₂_additions (m : Model) (f g : RangeFilter) (sourceOf : Property → Option String)
    (members : Members) : List.Forall₂ (Twins f g (m.edgesOf sourceOf members))
      (m.additions f sourceOf members) (m.additions g sourceOf members) :=
  forall₂_news (fun h => key_eq_of_header h.header)
    (forall₂_flatMap fun _ he => forall₂_accessorsOf he) _

theorem isGenerated_of_mem_additions {sourceOf : Property → Option String} {members : Members}
    {q : QualifiedProperty} (h : q ∈ m.additions f sourceOf members) : q.isGenerated = true := by
  obtain ⟨e, -, he⟩ := List.mem_flatMap.1 (mem_of_mem_news h).1
  exact (of_mem_accessorsOf he).1

/-- What milestoning adds to a class. -/
def classAdditions (m : Model) (f : RangeFilter) (c : Class) : List QualifiedProperty :=
  m.additions f (fun _ => some c.path) c.toMembers

/-- What milestoning adds to an association. -/
def associationAdditions (m : Model) (f : RangeFilter) (a : Association) : List QualifiedProperty :=
  m.additions f (fun p => m.exposingClass? a p.type) a.toMembers

/-- The same entry of a view, or copies of what has been added to an association under either
filter. -/
def Copies (m : Model) (f g : RangeFilter) (q q' : QualifiedProperty) : Prop :=
  q' = q ∨ ∃ a ∈ m.associations.entries,
    (q, q') ∈ (m.associationAdditions f a).zip (m.associationAdditions g a)

theorem Copies.header {q q' : QualifiedProperty} (h : m.Copies f g q q') : q'.header = q.header := by
  rcases h with rfl | ⟨a, -, hzip⟩
  · rfl
  · exact ((List.forall₂_iff_zip.1 (m.forall₂_additions f g _ _)).2 hzip).header

end Model

/-- Lists that are the same up to where accessors were added, which are those of one filter in the
one and those of another in the other. -/
def Diverges (before added added' qs qs' : List QualifiedProperty) : Prop :=
  ∃ ds, ds.length = before.length ∧ qs = ds ++ added ∧ qs' = ds ++ added'

/-- Two compiled forms of a class under different filters. -/
structure Class.Refiltered (m : Model) (f g : RangeFilter) (c c₁ c₂ : Class) : Prop where
  same : c₂ = { c₁ with qualified := c₂.qualified, exposedQualified := c₂.exposedQualified }
  qualified : Diverges c.qualified (m.classAdditions f c) (m.classAdditions g c)
    c₁.qualified c₂.qualified
  views : List.Forall₂ (m.Copies f g) c₁.exposedQualified c₂.exposedQualified

/-- Two compiled forms of an association under different filters. -/
structure Association.Refiltered (m : Model) (f g : RangeFilter) (a a₁ a₂ : Association) : Prop where
  same : a₂ = { a₁ with qualified := a₂.qualified }
  qualified : Diverges a.qualified (m.associationAdditions f a)
    (m.associationAdditions g a) a₁.qualified a₂.qualified

/-- Two models on the way from `m` through compilations with different filters. -/
structure Model.Refiltered (m : Model) (f g : RangeFilter) (m₁ m₂ : Model) : Prop where
  frame : m₁.frame = m.frame
  classes : List.Forall₂
    (fun c₁ c₂ => ∃ c, m.class? c₁.path = some c ∧ c.Refiltered m f g c₁ c₂)
    m₁.classes.entries m₂.classes.entries
  associations : List.Forall₂
    (fun a₁ a₂ => ∃ a, m.association? a₁.path = some a ∧ a.Refiltered m f g a₁ a₂)
    m₁.associations.entries m₂.associations.entries

/-! ### Lists and headers -/

section Lists

variable {m n : Model} {f g : RangeFilter}

theorem Diverges.forall₂ {R : QualifiedProperty → QualifiedProperty → Prop}
    {before added added' qs qs' : List QualifiedProperty}
    (h : Diverges before added added' qs qs') (hrefl : ∀ q, R q q)
    (hadded : List.Forall₂ R added added') : List.Forall₂ R qs qs' := by
  obtain ⟨ds, -, rfl, rfl⟩ := h
  exact List.rel_append (List.forall₂_same.2 fun q _ => hrefl q) hadded

namespace Class.Refiltered

variable {c c₁ c₂ : Class}

theorem frame (h : c.Refiltered m f g c₁ c₂) : c₂.frame = c₁.frame := by
  rw [h.same]
  rfl

theorem path (h : c.Refiltered m f g c₁ c₂) : c₂.path = c₁.path :=
  congrArg Prod.fst h.frame

theorem withQualified (h : c.Refiltered m f g c₁ c₂) {qs qs' : List QualifiedProperty}
    (hqs : Diverges c.qualified (m.classAdditions f c) (m.classAdditions g c) qs qs') :
    c.Refiltered m f g { c₁ with qualified := qs } { c₂ with qualified := qs' } where
  same := by rw [h.same]
  qualified := hqs
  views := h.views

theorem headers (h : c.Refiltered m f g c₁ c₂) : c₂.headers = c₁.headers := by
  have hqualified := h.qualified.forall₂ (fun _ => .inl rfl) (m.forall₂_additions f g _ _)
  rw [Class.headers, Class.headers, allQualified, allQualified, List.map_append, List.map_append,
    map_eq_of_forall₂ hqualified Twins.header, map_eq_of_forall₂ h.views Model.Copies.header]

end Class.Refiltered

theorem Association.Refiltered.path {a a₁ a₂ : Association} (h : a.Refiltered m f g a₁ a₂) :
    a₂.path = a₁.path := by
  rw [h.same]

theorem Association.Refiltered.withQualified {a a₁ a₂ : Association} (h : a.Refiltered m f g a₁ a₂)
    {qs qs' : List QualifiedProperty}
    (hqs : Diverges a.qualified (m.associationAdditions f a)
      (m.associationAdditions g a) qs qs') :
    a.Refiltered m f g { a₁ with qualified := qs } { a₂ with qualified := qs' } where
  same := by rw [h.same]
  qualified := hqs

/-- What an association shows are entries that are the same, or copies of what was added to it. -/
theorem Association.Refiltered.copies {a a₁ a₂ : Association} (h : a.Refiltered m f g a₁ a₂)
    (ha : a ∈ m.associations.entries) : List.Forall₂ (m.Copies f g) a₁.qualified a₂.qualified := by
  refine h.qualified.forall₂ (fun _ => .inl rfl) (List.forall₂_iff_zip.2 ⟨?_, fun hzip => ?_⟩)
  · exact (m.forall₂_additions f g _ _).length_eq
  · exact .inr ⟨a, ha, hzip⟩

end Lists

/-! ### Renewals -/

namespace Class.Refiltered

variable {m : Model} {f g : RangeFilter} {c c₁ c₂ : Class} {a a₁ a₂ : Association}

/-- **Renewing the views of an association** in both carries copies of its range accessors. -/
theorem renewed (h : c.Refiltered m f g c₁ c₂) (ha : a ∈ m.associations.entries)
    (hassociation : a.Refiltered m f g a₁ a₂) :
    c.Refiltered m f g (c₁.renewed m a₁) (c₂.renewed m a₂) := by
  have hcopies := hassociation.copies ha
  obtain ⟨qualified, views, hsame⟩ : ∃ qualified views,
      c₂ = { c₁ with qualified := qualified, exposedQualified := views } := ⟨_, _, h.same⟩
  obtain ⟨entries, hentries⟩ : ∃ entries, a₂ = { a₁ with qualified := entries } :=
    ⟨_, hassociation.same⟩
  have hviews := h.views
  subst hsame hentries
  refine ⟨rfl, h.qualified, ?_⟩
  -- which entries are dropped, and which are put in, is told by owners and types
  refine List.rel_append ?_ ?_
  · refine List.rel_filter (fun q q' hq => ?_) hviews
    have howner : q'.owner = q.owner := by
      show q'.header.owner = q.header.owner
      rw [hq.header]
    show (!c₁.drops m a₁ q.owner) = true ↔ (!c₁.drops m a₁ q'.owner) = true
    rw [howner]
  · refine List.rel_filter (fun q q' hq => ?_) hcopies
    have htype : q'.type = q.type := by
      show q'.header.type = q.header.type
      rw [hq.header]
    show (m.exposingClass? a₁ q.type == some c₁.path) = true ↔
      (m.exposingClass? a₁ q'.type == some c₁.path) = true
    rw [htype]

end Class.Refiltered

/-! ### Prepared models -/

section Prepared

variable {m : Model} {f g : RangeFilter}

theorem Association.refiltered_milestoned (m : Model) (f g : RangeFilter) (a : Association) :
    a.Refiltered m f g (a.milestoned m f) (a.milestoned m g) where
  same := rfl
  qualified :=
    ⟨a.qualified, rfl, Model.milestonedMembers_qualified, Model.milestonedMembers_qualified⟩

theorem Class.refiltered_equipped (m : Model) (f g : RangeFilter) (c : Class) :
    c.Refiltered m f g (c.equipped m f) (c.equipped m g) where
  same := rfl
  qualified := ⟨c.qualified, rfl, m.equipped_qualified f c, m.equipped_qualified g c⟩
  views := List.forall₂_same.2 fun _ _ => .inl rfl

/-- Renewing the views of many associations in turn. -/
theorem Class.Refiltered.renewedAll {as : List Association} {c c₁ c₂ : Class}
    (has : ∀ a ∈ as, a ∈ m.associations.entries) (h : c.Refiltered m f g c₁ c₂) :
    c.Refiltered m f g (Class.renewedAll m (as.map (Association.milestoned m f)) c₁)
      (Class.renewedAll m (as.map (Association.milestoned m g)) c₂) := by
  induction as generalizing c₁ c₂ with
  | nil => exact h
  | cons a as ih =>
    refine ih (fun b hb => has b (List.mem_cons_of_mem a hb)) ?_
    exact h.renewed (has a List.mem_cons_self) (a.refiltered_milestoned m f g)

theorem Model.refiltered_prepared (m : Model) (f g : RangeFilter) :
    m.Refiltered f g (m.prepared f) (m.prepared g) where
  frame := m.prepared_frame f
  classes := by
    refine List.forall₂_map_left_iff.2 (List.forall₂_map_right_iff.2 (List.forall₂_same.2 ?_))
    intro c hc
    refine ⟨c, ?_, (c.refiltered_equipped m f g).renewedAll fun a ha => ha⟩
    rw [Class.renewedAll_path, Class.equipped_path]
    exact class?_path hc
  associations := by
    refine List.forall₂_map_left_iff.2 (List.forall₂_map_right_iff.2 (List.forall₂_same.2 ?_))
    intro a ha
    exact ⟨a, association?_path ha, a.refiltered_milestoned m f g⟩

end Prepared

/-! ### Dating in lockstep -/

namespace Model

variable {m m₁ m₂ : Model} {f g : RangeFilter}

/-- Generated accessors behind other qualified properties are left alone. -/
theorem dateBodies_append (m : Model) (ds : List QualifiedProperty) {gs : List QualifiedProperty}
    (hgs : ∀ q ∈ gs, q.isGenerated = true) :
    m.dateBodies .builtin (ds ++ gs) = (do
      let (ds', k) ← m.dateBodies .builtin ds
      return (ds' ++ gs, k)) := by
  have hfixes : gs.mapM (m.dateBody .builtin) = .ok gs := by
    have hall := mapM_eq_ok (g := id) fun q hq => dateBody_of_isGenerated (m := m) (hgs q hq)
    rwa [List.map_id] at hall
  rw [dateBodies, dateBodies, List.mapM_append, hfixes]
  rcases hds : ds.mapM (m.dateBody .builtin) with fault | ds'
  · rfl
  · have hlength := (forall₂_of_mapM_eq_ok hds).length_eq
    exact congrArg (fun k => Except.ok (ds' ++ gs, k)) (changedBodies_append hlength gs)

theorem dateBodies_congr (h : SameCalls m₂ m₁) (qs : List QualifiedProperty) :
    m₂.dateBodies .builtin qs = m₁.dateBodies .builtin qs := by
  have hbody : m₂.dateBody .builtin = m₁.dateBody .builtin := funext (dateBody_congr h)
  rw [dateBodies, dateBodies, hbody]

/-- **Dating two lists** that differ in what was added to them. -/
theorem dateBodies_diverges (hsame : SameCalls m₂ m₁)
    {before added added' qs qs' : List QualifiedProperty}
    (hadded : ∀ q ∈ added, q.isGenerated = true) (hadded' : ∀ q ∈ added', q.isGenerated = true)
    (h : Diverges before added added' qs qs') :
    Alike (fun x y => Diverges before added added' x.1 y.1 ∧ x.2 = y.2)
      (m₁.dateBodies .builtin qs) (m₂.dateBodies .builtin qs') := by
  obtain ⟨ds, hlength, rfl, rfl⟩ := h
  rw [dateBodies_append m₁ ds hadded, dateBodies_append m₂ ds hadded', dateBodies_congr hsame]
  rcases hds : m₁.dateBodies .builtin ds with fault | ⟨ds', k⟩
  · exact .error fault
  · have hdates := (dateBodies_eq_ok hds).1
    exact .ok ⟨⟨ds', hdates.length_eq.symm.trans hlength, rfl, rfl⟩, rfl⟩

/-- Dating one association in two models goes in lockstep if its bodies are dated alike, and if the
models stay related after the bodies were replaced and the views renewed. -/
theorem dateAssociation_alike {R : Model → Model → Prop}
    {Q : List QualifiedProperty → List QualifiedProperty → Prop} {path : String}
    {a₁ a₂ : Association} (h : R m₁ m₂) (ha₁ : m₁.association? path = some a₁)
    (ha₂ : m₂.association? path = some a₂)
    (hdated : Alike (fun x y => Q x.1 y.1 ∧ x.2 = y.2) (m₁.dateBodies .builtin a₁.qualified)
      (m₂.dateBodies .builtin a₂.qualified))
    (hrenewed : ∀ {qs qs'}, Q qs qs' →
      R ((m₁.modifyAssociation path fun a => { a with qualified := qs }).renewViewsOf
          { a₁ with qualified := qs })
        ((m₂.modifyAssociation path fun a => { a with qualified := qs' }).renewViewsOf
          { a₂ with qualified := qs' })) :
    Alike (Counted R) (dateAssociation .builtin m₁ path) (dateAssociation .builtin m₂ path) := by
  -- a changed association is found again, and its views are renewed
  have hthere : ∀ {n : Model} {a : Association} (qs : List QualifiedProperty),
      n.association? path = some a →
      (n.modifyAssociation path fun a => { a with qualified := qs }).renewViews path =
        .ok ((n.modifyAssociation path fun a => { a with qualified := qs }).renewViewsOf
          { a with qualified := qs }) := by
    intro n a qs ha
    obtain ⟨-, rfl⟩ := association?_eq_some_iff.1 ha
    rw [renewViews, association?_modifyAssociation
      (f := fun a : Association => { a with qualified := qs }) ha rfl]
  rw [dateAssociation, dateAssociation, ha₁, ha₂]
  refine hdated.bind ?_
  rintro ⟨qs, k⟩ ⟨qs', -⟩ ⟨hqs, rfl⟩
  show Alike _ (if k = 0 then _ else _) (if k = 0 then _ else _)
  split
  · exact .ok ⟨h, rfl⟩
  · show Alike _ (renewViews _ path >>= fun m => pure (m, k))
      (renewViews _ path >>= fun m => pure (m, k))
    rw [hthere qs ha₁, hthere qs' ha₂]
    exact .ok ⟨hrenewed hqs, rfl⟩

namespace Refiltered

/-- Neither run can tell its calls from those of the other. -/
theorem sameCalls (h : m.Refiltered f g m₁ m₂) : SameCalls m₂ m₁ :=
  SameCalls.of_entries <| map_eq_of_forall₂ h.classes fun ⟨_, _, hc⟩ => by rw [hc.frame, hc.headers]

theorem frame_right (h : m.Refiltered f g m₁ m₂) : m₂.frame = m.frame :=
  h.sameCalls.frame.trans h.frame

theorem classPaths (h : m.Refiltered f g m₁ m₂) : m₂.classes.paths = m₁.classes.paths :=
  map_eq_of_forall₂ h.classes fun ⟨_, _, hc⟩ => hc.path

theorem associationPaths (h : m.Refiltered f g m₁ m₂) :
    m₂.associations.paths = m₁.associations.paths :=
  map_eq_of_forall₂ h.associations fun ⟨_, _, ha⟩ => ha.path

/-- Declared bodies of a class can be changed alike in both. -/
theorem modifyClass (h : m.Refiltered f g m₁ m₂) {path : String} {c : Class}
    (hc : m.class? path = some c) {qs qs' : List QualifiedProperty}
    (hqs : Diverges c.qualified (m.classAdditions f c) (m.classAdditions g c) qs qs') :
    m.Refiltered f g (m₁.modifyClass path fun c => { c with qualified := qs })
      (m₂.modifyClass path fun c => { c with qualified := qs' }) where
  frame := by
    rw [← h.frame]
    refine frame_of_map (g := fun c => if c.path = path then { c with qualified := qs } else c) ?_
      (PathTable.entries_modify fun _ => rfl)
    intro c
    split <;> rfl
  classes := by
    refine PathTable.forall₂_modify (f := fun c : Class => { c with qualified := qs })
      (g := fun c : Class => { c with qualified := qs' }) h.classes (fun ⟨_, _, hc⟩ => hc.path)
      (fun _ => rfl) (fun _ => rfl) ?_
    rintro c₁ c₂ rfl ⟨c', hc', hrefiltered⟩
    obtain rfl := Option.some.inj (hc.symm.trans hc')
    exact ⟨c, hc, hrefiltered.withQualified hqs⟩
  associations := h.associations

/-- **Dating one class** in both. -/
theorem dateClass (h : m.Refiltered f g m₁ m₂) (path : String) :
    Alike (Counted (m.Refiltered f g)) (Model.dateClass .builtin m₁ path)
      (Model.dateClass .builtin m₂ path) := by
  rcases PathTable.find?_of_forall₂ h.classes (fun ⟨_, _, hc⟩ => hc.path) path with
    ⟨hnone, hnone'⟩ | ⟨c₁, c₂, hc₁, hc₂, c, hc, hrefiltered⟩
  · change m₁.class? path = none at hnone
    change m₂.class? path = none at hnone'
    rw [Model.dateClass, Model.dateClass, hnone, hnone']
    exact .ok ⟨h, rfl⟩
  · change m₁.class? path = some c₁ at hc₁
    change m₂.class? path = some c₂ at hc₂
    rw [(class?_eq_some_iff.1 hc₁).2] at hc
    rw [Model.dateClass, Model.dateClass, hc₁, hc₂]
    refine (dateBodies_diverges h.sameCalls (fun _ => isGenerated_of_mem_additions)
      (fun _ => isGenerated_of_mem_additions) hrefiltered.qualified).bind ?_
    rintro ⟨qs, k⟩ ⟨qs', -⟩ ⟨hqs, rfl⟩
    show Alike _ (if k = 0 then _ else _) (if k = 0 then _ else _)
    split
    · exact .ok ⟨h, rfl⟩
    · exact .ok ⟨h.modifyClass hc hqs, rfl⟩

/-- Declared bodies of an association can be changed alike in both. -/
theorem modifyAssociation (h : m.Refiltered f g m₁ m₂) {path : String} {a : Association}
    (ha : m.association? path = some a) {qs qs' : List QualifiedProperty}
    (hqs : Diverges a.qualified (m.associationAdditions f a)
      (m.associationAdditions g a) qs qs') :
    m.Refiltered f g (m₁.modifyAssociation path fun a => { a with qualified := qs })
      (m₂.modifyAssociation path fun a => { a with qualified := qs' }) where
  frame := h.frame
  classes := h.classes
  associations := by
    refine PathTable.forall₂_modify (f := fun a : Association => { a with qualified := qs })
      (g := fun a : Association => { a with qualified := qs' }) h.associations
      (fun ⟨_, _, ha⟩ => ha.path) (fun _ => rfl) (fun _ => rfl) ?_
    rintro a₁ a₂ rfl ⟨a', ha', hrefiltered⟩
    obtain rfl := Option.some.inj (ha.symm.trans ha')
    exact ⟨a, ha, hrefiltered.withQualified hqs⟩

/-- The views of an association can be renewed in both. -/
theorem renewViewsOf (h : m.Refiltered f g m₁ m₂) {a a₁ a₂ : Association}
    (ha : a ∈ m.associations.entries) (hassociation : a.Refiltered m f g a₁ a₂) :
    m.Refiltered f g (m₁.renewViewsOf a₁) (m₂.renewViewsOf a₂) := by
  obtain ⟨hassociations₁, hclasses₁⟩ := m₁.renewViewsOf_entries a₁
  obtain ⟨hassociations₂, hclasses₂⟩ := m₂.renewViewsOf_entries a₂
  rw [Class.renewed_of_frame h.frame] at hclasses₁
  rw [Class.renewed_of_frame h.frame_right] at hclasses₂
  refine ⟨(frame_of_map (Class.renewed_frame m a₁) hclasses₁).trans h.frame, ?_, ?_⟩
  · rw [hclasses₁, hclasses₂, List.forall₂_map_left_iff, List.forall₂_map_right_iff]
    exact h.classes.imp fun c₁ c₂ ⟨c, hc, hrefiltered⟩ =>
      ⟨c, hc, hrefiltered.renewed ha hassociation⟩
  · rw [hassociations₁, hassociations₂]
    exact h.associations

/-- **Dating one association** in both. -/
theorem dateAssociation (h : m.Refiltered f g m₁ m₂) (path : String) :
    Alike (Counted (m.Refiltered f g)) (Model.dateAssociation .builtin m₁ path)
      (Model.dateAssociation .builtin m₂ path) := by
  rcases PathTable.find?_of_forall₂ h.associations (fun ⟨_, _, ha⟩ => ha.path) path with
    ⟨hnone, hnone'⟩ | ⟨a₁, a₂, ha₁, ha₂, a, ha, hrefiltered⟩
  · change m₁.association? path = none at hnone
    change m₂.association? path = none at hnone'
    rw [Model.dateAssociation, Model.dateAssociation, hnone, hnone']
    exact .ok ⟨h, rfl⟩
  · change m₁.association? path = some a₁ at ha₁
    change m₂.association? path = some a₂ at ha₂
    rw [(association?_eq_some_iff.1 ha₁).2] at ha
    refine dateAssociation_alike h ha₁ ha₂ (dateBodies_diverges h.sameCalls
      (fun _ => isGenerated_of_mem_additions) (fun _ => isGenerated_of_mem_additions)
      hrefiltered.qualified) fun hqs => ?_
    exact (h.modifyAssociation ha hqs).renewViewsOf (association?_eq_some_iff.1 ha).1
      (hrefiltered.withQualified hqs)

end Refiltered

/-- **Compilations that differ in the range filter** fail alike, or succeed with the same report and
with models that differ in what was added to them. -/
theorem compile_refiltered (m : Model) (f g : RangeFilter) (strict : Bool) :
    Alike (fun x y => x.1 = y.1 ∧ m.Refiltered f g x.2 y.2)
      (m.compile .builtin { rangeFilter := f, strictShapes := strict })
      (m.compile .builtin { rangeFilter := g, strictShapes := strict }) := by
  rw [compile_builtin, compile_builtin]
  refine (Alike.of_eq (R := Eq) rfl fun _ => rfl).bind ?_
  rintro t - rfl
  have hprepared := m.refiltered_prepared f g
  have hclasses : Alike (Counted (m.Refiltered f g))
      (forEach (dateClass .builtin) (m.prepared f) (m.prepared f).classes.paths)
      (forEach (dateClass .builtin) (m.prepared g) (m.prepared g).classes.paths) := by
    rw [hprepared.classPaths]
    exact forEach_alike_of_step hprepared _ fun h => h.dateClass _
  refine hclasses.bind ?_
  rintro ⟨d₁, k⟩ ⟨d₂, -⟩ ⟨hd, rfl⟩
  have hassociations : Alike (Counted (m.Refiltered f g))
      (forEach (dateAssociation .builtin) d₁ d₁.associations.paths)
      (forEach (dateAssociation .builtin) d₂ d₂.associations.paths) := by
    rw [hd.associationPaths]
    exact forEach_alike_of_step hd _ fun h => h.dateAssociation _
  refine hassociations.bind ?_
  rintro ⟨m₁, k'⟩ ⟨m₂, -⟩ ⟨hm, rfl⟩
  exact .ok ⟨rfl, hm⟩

end Model

end Bitemporal
