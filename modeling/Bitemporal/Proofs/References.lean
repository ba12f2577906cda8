/-
Bitemporal/Proofs/References.lean

Generated code refers to members that exist.

The body of an accessor is built before the edge point that it filters is
installed, and it reads dates of another class.  In a compiled model all of
this is there: an accessor that a class shows takes that class as receiver,
filters the versions that an edge point of the class leads to, and reads
generated dates of the class that these are of (`QualifiedProperty.Grounded`).

What a name is found under on a class is settled by the names of what it
presents: every property that a compiled class shows is one of these, or its
edge point, or a date (`Model.of_mem_allProperties`), so that the name of an
edge point finds that edge point (`Model.findProperty?_edgePoint`) and the name
of a date finds that date (`Class.findProperty?_date`).

Main result: `Model.grounded_of_compile`.
-/
import Bitemporal.Proofs.Conformity

namespace Bitemporal

/-! ### References -/

/-- A navigation leads from a class, by a property that is found there, to all versions: the property
is an edge point of the given type, without an upper bound. -/
structure Navigation.Enters (c : Class) (type : TypeRef) (n : Navigation) : Prop where
  owner : n.owner = c.path
  property : ∃ p, c.findProperty? n.property = some p ∧ p.isEdgePoint = true ∧ p.type = type ∧
    p.multiplicity.isUnbounded = true

/-- A navigation reads a generated date of a class. -/
structure Navigation.ReadsDate (c : Class) (n : Navigation) : Prop where
  owner : n.owner = c.path
  property : ∃ p, c.findProperty? n.property = some p ∧ p.isGeneratedDate = true ∧
    p.toTyping = .date

/-- What an accessor of the class `c` refers to is there: its receiver is typed by the class, and it
filters the versions that an edge point of the class leads to by dates of the class that they are of. -/
structure QualifiedProperty.Grounded (m : Model) (c : Class) (q : QualifiedProperty) : Prop where
  receiver : ∃ this, q.signature.parameters.head? = some this ∧ this.type = .ofClass c.path
  body : ∃ function versions binder predicate typing,
    q.body = [.filter function versions binder predicate typing] ∧
      (∃ n, versions.navigation? = some n ∧ n.Enters c q.type) ∧
        ∃ target, m.resolve? q.type = some target ∧ predicate.Everywhere (Navigation.ReadsDate target)

/-- What a class has to tell apart by name: what it presents, and what its views hold that no
association claims.  That is nothing more where the classes of a document are stored without views
(`standing_ofDocument`). -/
def Model.standing (m : Model) (c : Class) : List Property :=
  m.presented c ++ c.unclaimed m m.associations.entries Property.owner c.exposed

/-- On each class these names are distinct, and none is that of another's edge point. -/
def Model.EdgePointsApart (m : Model) : Prop :=
  ∀ c ∈ m.classes.entries, ((m.standing c).map Property.name).Pairwise fun a b =>
    a ≠ b ∧ a ≠ Naming.edgePoint b ∧ b ≠ Naming.edgePoint a

instance : DecidablePred Model.EdgePointsApart := fun m =>
  inferInstanceAs (Decidable (∀ c ∈ m.classes.entries, ((m.standing c).map Property.name).Pairwise
    fun a b => a ≠ b ∧ a ≠ Naming.edgePoint b ∧ b ≠ Naming.edgePoint a))

/-! ### The code of an accessor -/

namespace Edge

variable {e : Edge} {P : Navigation → Prop}

theorem everywhere_conjunctionOf {conditions : List Expression}
    (h : ∀ condition ∈ conditions, condition.Everywhere P) :
    (conjunctionOf conditions).Everywhere P := by
  unfold conjunctionOf
  split
  · exact h _ List.mem_cons_self
  · exact Expression.everywhereAll_iff.2 h

/-- The predicate of an accessor navigates to dates of a version only. -/
theorem everywhere_predicateOf (form : AccessorForm)
    (h : ∀ axis ∈ e.shape.axes, P (.plain e.target axis.name e.version.reference [])) :
    (e.predicateOf form).Everywhere P := by
  apply everywhere_conjunctionOf
  intro condition hcondition
  obtain ⟨axis, haxis, date, -, rfl | rfl | rfl⟩ := mem_conditionsOf hcondition
  · exact ⟨⟨h axis haxis, trivial, trivial⟩, trivial⟩
  · exact ⟨trivial, h axis haxis, trivial, trivial⟩
  · exact ⟨⟨h axis haxis, trivial, trivial⟩, trivial⟩

/-- An accessor is grounded on the class that it starts from if the name of its edge point finds the
edge point there, and if its type leads to a class where the names of dates find dates. -/
theorem grounded_accessorOf {m : Model} {c t : Class} (form : AccessorForm) (hsource : e.source = c.path)
    (hedgePoint : c.findProperty? (Naming.edgePoint e.property.name) =
      some (edgePoint e.property .generated))
    (hresolve : m.resolve? e.property.type = some t) (htarget : e.target = t.path)
    (hdates : ∀ axis ∈ e.shape.axes, ∃ p, t.findProperty? axis.name = some p ∧
      p.isGeneratedDate = true ∧ p.toTyping = .date) : (e.accessorOf form).Grounded m c := by
  refine ⟨⟨e.this .one, e.head?_parameters_accessorOf form, congrArg TypeRef.ofClass hsource⟩, ?_⟩
  refine ⟨_, e.versionsOf, _, e.predicateOf form, _, rfl, ⟨_, rfl, hsource, _, hedgePoint, ?_⟩, t, ?_, ?_⟩
  · exact ⟨isEdgePoint_edgePoint e.property, (e.accessorOf_type form).symm, rfl⟩
  · rw [accessorOf_type]
    exact hresolve
  · exact everywhere_predicateOf form fun axis haxis => ⟨htarget, hdates axis haxis⟩

end Edge

/-! ### What a name is found under -/

/-- An element of a list is found by what no other one has. -/
theorem find?_eq_some_of_forall {α : Type} {P : α → Bool} {l : List α} {x : α} (hx : x ∈ l)
    (hP : P x = true) (h : ∀ y ∈ l, P y = true → y = x) : l.find? P = some x := by
  obtain ⟨y, hy⟩ := Option.isSome_iff_exists.1 (List.find?_isSome.2 ⟨x, hx, hP⟩)
  rw [hy, h y (List.mem_of_find?_eq_some hy) (List.find?_some hy)]

namespace Class

variable {m : Model} {filter : RangeFilter} {c c' : Class}

/-- What an equipped class declares is a date, or was declared before, or is the edge point of such. -/
theorem of_mem_equipped_properties {p' : Property} (hp' : p' ∈ (c.equipped m filter).properties) :
    p'.name ∈ Model.dateNames ∨ ∃ p ∈ c.properties, p' = p ∨ p' = Edge.edgePoint p .generated := by
  obtain ⟨p, hp, rfl⟩ := Model.mem_milestonedMembers_properties.1 hp'
  have hcases : p ∈ c.properties ∨ ∃ shape, p ∈ c.datePropertiesOf shape := by
    rcases hshape : c.shape? with - | shape
    · rw [withDates_of_none hshape] at hp
      exact .inl hp
    · rw [withDates_of_shape hshape, Property.addNamed_eq, foldl_putNew] at hp
      exact (List.mem_append.1 hp).imp id fun hp => ⟨shape, (mem_of_mem_news hp).1⟩
  rcases hcases with hp | ⟨shape, hp⟩
  · refine .inr ⟨p, hp, ?_⟩
    split
    · exact .inr rfl
    · exact .inl rfl
  · rw [edge?_of_mem_dates hp]
    exact .inl (mem_dateNames_of_mem hp)

/-- The name of a date finds the generated date. -/
theorem findProperty?_date {shape : Shape} (hpristine : c.Pristine) (hshape : c.shape? = some shape)
    (hnames : ∀ p ∈ c.properties, p.name ∉ Model.dateNames)
    (hproperties : c'.properties = (c.equipped m filter).properties) {axis : Axis}
    (haxis : axis ∈ shape.axes) :
    c'.findProperty? axis.name = some (c.dateProperty .generatedDate axis.name .date) := by
  rw [equipped_properties_of_shape hshape hnames] at hproperties
  have hdeclared : ∀ p ∈ (c.milestoned m filter).properties, p.name ∉ Model.dateNames :=
    fun p hp => (Model.of_mem_milestonedMembers_properties hpristine.members hp).2 hnames
  have hdate : c.dateProperty .generatedDate axis.name .date ∈ c.datePropertiesOf shape :=
    List.mem_append_left _ (List.mem_map_of_mem (List.mem_map_of_mem haxis))
  have hone := congrArg List.head? (ShapeCheck.filter_name_eq hproperties hdeclared hdate)
  rw [List.head?_filter] at hone
  show (c'.properties ++ c'.exposed).find? (fun p => p.name == axis.name) = _
  rw [List.find?_append, show c'.properties.find? (fun p => p.name == axis.name) = _ from hone]
  rfl

end Class

namespace Model

variable {m m' : Model} {settings : Settings} {report : Report} {c c' : Class}

theorem EdgePointsApart.distinct (h : m.EdgePointsApart) : m.NamesDistinct := by
  intro c hc
  have hnames := h c hc
  rw [standing, List.map_append] at hnames
  exact (List.pairwise_append.1 hnames).1.imp And.left

/-- A name that stands on a class, or that of the edge point of one that does, is not that of the edge
point of another. -/
theorem EdgePointsApart.eq_of_name (h : m.EdgePointsApart) (hc : c ∈ m.classes.entries)
    {p p₀ : Property} (hp : p ∈ m.standing c) (hp₀ : p₀ ∈ m.standing c) :
    p₀.name ≠ Naming.edgePoint p.name ∧
      (Naming.edgePoint p₀.name = Naming.edgePoint p.name → p₀ = p) := by
  have hnames := h c hc
  have hmem := List.mem_map_of_mem (f := Property.name) hp
  have hmem₀ := List.mem_map_of_mem (f := Property.name) hp₀
  constructor
  · by_cases hsame : p₀.name = p.name
    · rw [hsame]
      exact Naming.ne_edgePoint p.name
    · have hsymm : Std.Symm fun a b : String =>
          a ≠ b ∧ a ≠ Naming.edgePoint b ∧ b ≠ Naming.edgePoint a :=
        ⟨fun _ _ h => ⟨h.1.symm, h.2.2, h.2.1⟩⟩
      exact (List.Pairwise.forall hnames hmem₀ hmem hsame).2.1
  · intro hname
    have hnodup : ((m.standing c).map Property.name).Nodup := hnames.imp And.left
    exact List.inj_on_of_nodup_map hnodup hp₀ hp (Naming.edgePoint_injective hname)

variable (hpristine : m.Pristine) (h : m.Compiles settings report m')
variable (hprepared : c.Prepared m settings.rangeFilter (m.arrangement m') c')

include h hprepared in
/-- **What a compiled class shows by property**: a date, or what stood there before, or the edge point
of that. -/
theorem of_mem_allProperties {p' : Property} (hp' : p' ∈ c'.allProperties) :
    p'.name ∈ dateNames ∨ ∃ p ∈ m.standing c, p' = p ∨ p' = Edge.edgePoint p .generated := by
  rcases List.mem_append.1 hp' with hp' | hp'
  · rw [hprepared.properties] at hp'
    refine (Class.of_mem_equipped_properties hp').imp id ?_
    rintro ⟨p, hp, hform⟩
    exact ⟨p, List.mem_append_left _ (List.mem_append_left _ hp), hform⟩
  · right
    rw [hprepared.arranged.exposed] at hp'
    rcases List.mem_append.1 hp' with hp' | hp'
    · exact ⟨p', List.mem_append_right _ hp', .inl rfl⟩
    · -- an end that is shown is exposed where it, or what it was made of, leads
      obtain ⟨a', ha', hp'⟩ := List.mem_flatMap.1 hp'
      obtain ⟨a, ha, hform⟩ := h.forms a' (mem_arrangement.1 ha')
      obtain ⟨hp', hexposing⟩ := Association.mem_endsOn.1 hp'
      rw [hform.properties] at hp'
      rw [hform.exposingClass?, hprepared.path] at hexposing
      obtain ⟨p, hp, rfl⟩ := mem_milestonedMembers_properties.1 hp'
      have hmade : (if (m.edge? (fun p => m.exposingClass? a p.type) p).isSome
          then Edge.edgePoint p .generated else p).type = p.type := by
        split <;> rfl
      rw [hmade] at hexposing
      refine ⟨p, ?_, ?_⟩
      · refine List.mem_append_left _ (List.mem_append_right _ ?_)
        exact List.mem_flatMap.2 ⟨a, ha, Association.mem_endsOn.2 ⟨hp, hexposing⟩⟩
      · split
        · exact .inr rfl
        · exact .inl rfl

include hpristine h hprepared in
/-- The name of an edge point finds the edge point. -/
theorem findProperty?_edgePoint (hnames : m.EdgePointsApart) (hc : c ∈ m.classes.entries)
    {p : Property} (hp : p ∈ m.presented c) {t : Class} {shape : Shape}
    (ht : m.resolve? p.type = some t) (hshape : t.shape? = some shape) :
    c'.findProperty? (Naming.edgePoint p.name) = some (Edge.edgePoint p .generated) := by
  apply find?_eq_some_of_forall
  · exact edgePoint_mem_allProperties hpristine h hc hprepared hp ht hshape
  · exact beq_self_eq_true _
  · intro p' hp' hname
    have hname := beq_iff_eq.1 hname
    rcases of_mem_allProperties h hprepared hp' with hdate | ⟨p₀, hp₀, hmade⟩
    · exact (Naming.edgePoint_notMem_dateNames p.name (hname ▸ hdate)).elim
    · obtain ⟨hne, heq⟩ := hnames.eq_of_name hc (List.mem_append_left _ hp) hp₀
      rcases hmade with rfl | rfl
      · exact (hne hname).elim
      · rw [heq hname]

include h in
/-- A type that led to a class leads to what has become of the class. -/
theorem Compiles.exists_resolve? {type : TypeRef} {t : Class} (ht : m.resolve? type = some t) :
    ∃ t', m'.resolve? type = some t' ∧ t'.path = t.path ∧
      t'.properties = (t.equipped m settings.rangeFilter).properties := by
  have hresolve := resolve?_frame h.frame type
  rw [ht] at hresolve
  obtain ⟨t', ht', hframe⟩ := Option.map_eq_some_iff.1 hresolve
  have htpath : t'.path = t.path := congrArg Prod.fst hframe
  obtain ⟨t₀, ht₀, hcompiled⟩ := exists_of_forall₂_right h.forall₂_classes (mem_of_resolve? ht')
  obtain rfl :=
    m.classes.eq_of_path_eq ht₀ (mem_of_resolve? ht) (hcompiled.path.symm.trans htpath)
  exact ⟨t', ht', htpath, hcompiled.properties⟩

include hpristine h in
/-- A generated accessor that a class of the compiled model shows is grounded there. -/
theorem grounded_of_mem_allQualified (howned : m.Owned) (hnames : m.EdgePointsApart)
    (hdates : m.DatesFree) (hc' : c' ∈ m'.classes.entries) {q : QualifiedProperty}
    (hq : q ∈ c'.allQualified) (hgenerated : q.isGenerated = true) : q.Grounded m' c' := by
  obtain ⟨c, hc, hcompiled, hprepared⟩ := h.exists_source hpristine howned hnames.distinct hc'
  obtain ⟨e, sourceOf, he, hsource, hpresented, hmem⟩ :=
    exists_edge_of_mem_allQualified hpristine h hc hcompiled hprepared hq hgenerated
  obtain ⟨form, -, rfl⟩ := mem_accessorsOf.1 hmem
  obtain ⟨-, ⟨t, ht, hshape, htarget⟩, -, -⟩ := edge?_eq_some_iff.1 he
  -- the class that the versions are of has the dates of its shape
  obtain ⟨t', ht', htpath, hproperties⟩ := h.exists_resolve? ht
  have htmem := mem_of_resolve? ht
  have hfree : ∀ p ∈ t.properties, p.name ∉ dateNames :=
    hdates t htmem (Option.isSome_iff_exists.2 ⟨_, hshape⟩)
  have hedgePoint := findProperty?_edgePoint hpristine h hprepared hnames hc hpresented ht hshape
  refine Edge.grounded_accessorOf form (hsource.trans hprepared.path.symm) hedgePoint ht'
    (htarget.trans htpath.symm) fun axis haxis => ?_
  exact ⟨_, Class.findProperty?_date (hpristine.classes t htmem) hshape hfree hproperties haxis,
    rfl, rfl⟩

/-- **Generated code refers to members that exist.**  Every generated accessor that a class of a
compiled model shows is grounded there. -/
theorem grounded_of_compile (hcompile : m.compile .builtin settings = .ok (report, m'))
    (hpristine : m.Pristine) (howned : m.Owned) (hnames : m.EdgePointsApart) (hdates : m.DatesFree) :
    ∀ c' ∈ m'.classes.entries, ∀ q ∈ c'.allQualified, q.isGenerated = true → q.Grounded m' c' :=
  fun _ hc' _ hq hgenerated =>
    grounded_of_mem_allQualified hpristine (compiles_of_compile hcompile) howned hnames hdates hc' hq
      hgenerated

/-- Every accessor of a compiled model of persons and sites is grounded, and there are some. -/
theorem staff_grounded : (staff.compile .builtin {}).toBool = true ∧ ∀ report m',
    staff.compile .builtin {} = .ok (report, m') →
      (∃ c' ∈ m'.classes.entries, ∃ q ∈ c'.allQualified, q.isGenerated = true) ∧
        ∀ c' ∈ m'.classes.entries, ∀ q ∈ c'.allQualified, q.isGenerated = true → q.Grounded m' c' := by
  refine ⟨by decide +kernel, fun report m' hcompile => ⟨?_, ?_⟩⟩
  · have hsome : ((staff.compile .builtin {}).toOption.any fun result =>
        result.2.classes.entries.any fun c' =>
          c'.allQualified.any QualifiedProperty.isGenerated) = true := by
      decide +kernel
    rw [hcompile] at hsome
    obtain ⟨c', hc', hany⟩ := List.any_eq_true.1 hsome
    obtain ⟨q, hq, hgenerated⟩ := List.any_eq_true.1 hany
    exact ⟨c', hc', q, hq, hgenerated⟩
  · exact grounded_of_compile hcompile (by decide +kernel) (by decide +kernel) (by decide +kernel)
      (by decide +kernel)

end Model

end Bitemporal
