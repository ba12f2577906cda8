/-
Bitemporal/Proofs/EdgeAccessors.lean

What a compiled class shows for the edges that it exposes.

The edges of one element, a class or an association, share its lists: an
accessor is left out if its key is taken, by a qualified property that was
declared or by an accessor of an edge before it, and an edge is not recorded if
one before it bears its name.  Whatever is put into the lists of an element is
shown by the class that exposes it.  Together this says of each edge what is
shown for it and what is not (`Model.serves_of_compile`).
-/
import Bitemporal.Proofs.SteadyCalls

namespace Bitemporal

/-! ### The accessors of one edge -/

namespace Edge

variable {e e' : Edge} {form form' : AccessorForm}

/-- The key of an accessor. -/
theorem key_accessorOf : (e.accessorOf form).key = (e.accessorName form, e.accessorArity form) := by
  rw [QualifiedProperty.key, accessorOf_arity]
  rfl

/-- An accessor is offered by the property of its edge. -/
theorem offers_accessorOf (e : Edge) (form : AccessorForm) : e.property.Offers (e.accessorOf form) := by
  refine ⟨e.accessorOf_type form, ?_⟩
  cases form
  · exact .inl rfl
  · exact .inl rfl
  · exact .inr rfl

/-- The receiver of an accessor is typed by the class that its edge starts from. -/
theorem head?_parameters_accessorOf (e : Edge) (form : AccessorForm) :
    (e.accessorOf form).signature.parameters.head? = some (e.this .one) := by
  cases form <;> rfl

/-- An accessor tells which class its edge starts from. -/
theorem source_eq_of_accessorOf_eq (h : e.accessorOf form = e'.accessorOf form') :
    e.source = e'.source := by
  have hhead := e.head?_parameters_accessorOf form
  rw [h, e'.head?_parameters_accessorOf form'] at hhead
  have htype := congrArg (fun v : Variable => v.type) (Option.some.inj hhead)
  exact (TypeRef.ofClass.inj htype).symm

end Edge

namespace Model

variable {m : Model} {filter : RangeFilter} {sourceOf : Property → Option String} {members : Members}
variable {e : Edge} {form : AccessorForm}

theorem keys_accessorsOf (m : Model) (filter : RangeFilter) (e : Edge) :
    (m.accessorsOf filter e).map QualifiedProperty.key =
      (accessorForms (m.shapeAt? e.source) e.shape filter).map fun form =>
        (e.accessorName form, e.accessorArity form) := by
  rw [accessorsOf, List.map_map]
  exact List.map_congr_left fun form _ => Edge.key_accessorOf

/-- No two accessors of an edge have one key. -/
theorem nodup_keys_accessorsOf (m : Model) (filter : RangeFilter) (e : Edge) :
    ((m.accessorsOf filter e).map QualifiedProperty.key).Nodup := by
  have hname := Naming.ne_range e.property.name
  have haxes : e.shape.axes ≠ [] := by
    cases e.shape <;> exact List.cons_ne_nil _ _
  rw [keys_accessorsOf, accessorForms]
  split
  · split <;> simp [Edge.accessorName, Edge.accessorArity, hname, haxes]
  · split <;> simp [Edge.accessorName, hname]

section OneList

variable {before after : List Property} {p : Property}

/-- The edges of a list, cut at one of them. -/
theorem edgesOf_eq_append (hproperties : members.properties = before ++ p :: after)
    (he : m.edge? sourceOf p = some e) :
    m.edgesOf sourceOf members =
      before.filterMap (m.edge? sourceOf) ++ e :: after.filterMap (m.edge? sourceOf) := by
  rw [edgesOf, hproperties, List.filterMap_append, List.filterMap_cons, he]

/-- An edge is recorded unless one before it bears its name. -/
theorem mem_replaced_iff_of_edge? (hreplaced : members.replaced = [])
    (hproperties : members.properties = before ++ p :: after) (hp : p ∉ before)
    (he : m.edge? sourceOf p = some e) :
    p ∈ (m.milestonedMembers filter sourceOf members).replaced ↔
      ∀ e' ∈ before.filterMap (m.edge? sourceOf), e'.property.name ≠ p.name := by
  have hbefore : p ∉ (before.filterMap (m.edge? sourceOf)).map (·.property) := by
    intro hmem
    obtain ⟨e', he', rfl⟩ := List.mem_map.1 hmem
    obtain ⟨p', hp', he'⟩ := List.mem_filterMap.1 he'
    rw [property_of_edge? he'] at hp
    exact hp hp'
  rw [milestonedMembers_replaced, hreplaced, edgesOf_eq_append hproperties he, List.map_append,
    List.map_cons, property_of_edge? he, List.nil_append, mem_news_iff hbefore]
  constructor
  · rintro ⟨-, hkeys⟩ e' he' hname
    exact hkeys (hname ▸ List.mem_map_of_mem (List.mem_map_of_mem he'))
  · intro hnames
    refine ⟨List.not_mem_nil, fun hmem => ?_⟩
    obtain ⟨p', hp', hname⟩ := List.mem_map.1 hmem
    obtain ⟨e', he', rfl⟩ := List.mem_map.1 hp'
    exact hnames e' he' hname

/-- An accessor is put in unless its key is taken. -/
theorem mem_qualified_iff_of_edge? (hqualified : ∀ q ∈ members.qualified, q.isGenerated = false)
    (hproperties : members.properties = before ++ p :: after) (he : m.edge? sourceOf p = some e)
    (hbefore : ∀ e' ∈ before.filterMap (m.edge? sourceOf),
      e.accessorOf form ∉ m.accessorsOf filter e')
    (hform : form ∈ accessorForms (m.shapeAt? e.source) e.shape filter) :
    e.accessorOf form ∈ (m.milestonedMembers filter sourceOf members).qualified ↔
      (e.accessorOf form).key ∉ members.qualified.map QualifiedProperty.key ∧
        ∀ e' ∈ before.filterMap (m.edge? sourceOf),
          (e.accessorOf form).key ∉ (m.accessorsOf filter e').map QualifiedProperty.key := by
  have hdeclared : e.accessorOf form ∉ members.qualified := by
    intro hmem
    have hgenerated := hqualified _ hmem
    rw [Edge.isGenerated_accessorOf] at hgenerated
    cases hgenerated
  -- cut the accessors at the one in question
  obtain ⟨forms, forms', hforms⟩ := List.append_of_mem hform
  have hown : m.accessorsOf filter e =
      forms.map e.accessorOf ++ e.accessorOf form :: forms'.map e.accessorOf := by
    rw [accessorsOf, hforms, List.map_append, List.map_cons]
  have hnodup := m.nodup_keys_accessorsOf filter e
  rw [hown, List.map_append, List.map_cons, List.nodup_append] at hnodup
  have hkeys : (e.accessorOf form).key ∉ (forms.map e.accessorOf).map QualifiedProperty.key :=
    fun hmem => hnodup.2.2 _ hmem _ List.mem_cons_self rfl
  have hcut : (m.edgesOf sourceOf members).flatMap (m.accessorsOf filter) =
      ((before.filterMap (m.edge? sourceOf)).flatMap (m.accessorsOf filter) ++
          forms.map e.accessorOf) ++
        e.accessorOf form :: (forms'.map e.accessorOf ++
          (after.filterMap (m.edge? sourceOf)).flatMap (m.accessorsOf filter)) := by
    rw [edgesOf_eq_append hproperties he, List.flatMap_append, List.flatMap_cons, hown]
    simp only [List.append_assoc, List.cons_append]
  have hfirst : e.accessorOf form ∉ (before.filterMap (m.edge? sourceOf)).flatMap
      (m.accessorsOf filter) ++ forms.map e.accessorOf := by
    intro hmem
    rcases List.mem_append.1 hmem with hmem | hmem
    · obtain ⟨e', he', hmem⟩ := List.mem_flatMap.1 hmem
      exact hbefore e' he' hmem
    · exact hkeys (List.mem_map_of_mem hmem)
  rw [milestonedMembers_qualified, hcut, List.mem_append, or_iff_right hdeclared,
    mem_news_iff hfirst, List.map_append, List.mem_append, or_iff_left hkeys]
  refine and_congr_right fun _ => ⟨fun hbefore e' he' hmem => hbefore ?_, fun hbefore hmem => ?_⟩
  · obtain ⟨q, hq, hkey⟩ := List.mem_map.1 hmem
    exact hkey ▸ List.mem_map_of_mem (List.mem_flatMap.2 ⟨e', he', hq⟩)
  · obtain ⟨q, hq, hkey⟩ := List.mem_map.1 hmem
    obtain ⟨e', he', hq⟩ := List.mem_flatMap.1 hq
    exact hbefore e' he' (hkey ▸ List.mem_map_of_mem hq)

end OneList

/-! ### What the class shows of its own list and of the lists of associations -/

section Views

variable {m' : Model} {settings : Settings} {report : Report} {c c' : Class} {a a' : Association}
variable {as : List Association}

/-- What a class declares once edges are replaced it owns. -/
theorem Owned.owner_equipped (howned : m.Owned) (hc : c ∈ m.classes.entries) {q : QualifiedProperty}
    (hq : q ∈ (c.equipped m filter).qualified) : q.owner = .ofClass c.path := by
  have hown := howned.classes c hc
  rw [equipped_qualified] at hq
  rcases List.mem_append.1 hq with hq | hq
  · exact hown.qualified q hq
  · obtain ⟨e, he, hq⟩ := List.mem_flatMap.1 (mem_of_mem_news hq).1
    rw [(of_mem_accessorsOf hq).2.2.1]
    exact hown.properties _ (mem_properties_of_mem_edgesOf he)

variable (hpristine : m.Pristine) (howned : m.Owned) (h : m.Compiles settings report m')
variable (hc : c ∈ m.classes.entries) (hcompiled : c.Compiled m settings.rangeFilter as c')
variable (hprepared : c.Prepared m settings.rangeFilter (m.arrangement m') c')

include hpristine howned h hc hprepared

/-- Of the entries with an owner that is no association, the views hold no generated ones. -/
theorem notMem_exposedQualified {q : QualifiedProperty} (hq : q.isGenerated = true)
    (howner : q.owner = .ofClass c.path) : q ∉ c'.exposedQualified := by
  rw [hprepared.arranged.exposedQualified]
  intro hmem
  rcases List.mem_append.1 hmem with hmem | hmem
  · exact (hpristine.classes c hc).notMem_exposedQualified hq (List.mem_filter.1 hmem).1
  · obtain ⟨b, hb, hmem⟩ := List.mem_flatMap.1 hmem
    have hother := (h.owners hpristine howned (mem_arrangement.1 hb)).2.1 q
      (Association.mem_qualifiedOn.1 hmem).1
    cases howner.symm.trans hother

omit hc in
/-- The edges that a class has replaced are recorded as far as its own list goes. -/
theorem mem_replaced_of_class {p : Property} (howner : p.owner = .ofClass c.path) :
    p ∈ c'.replaced ↔ p ∈ (c.equipped m settings.rangeFilter).replaced := by
  rw [hprepared.arranged.replaced, List.mem_append, or_iff_left]
  intro hmem
  obtain ⟨b, hb, hmem⟩ := List.mem_flatMap.1 hmem
  have hother := (h.owners hpristine howned (mem_arrangement.1 hb)).2.2 p
    (Association.mem_replacedOn.1 hmem).1
  cases howner.symm.trans hother

/-- The ends that an association has replaced are recorded by the class that exposes them. -/
theorem mem_replaced_of_association (ha : a ∈ m.associations.entries) {p : Property}
    (howner : p.owner = .ofAssociation a.path) (hexposing : m.exposingClass? a p.type = some c.path) :
    p ∈ c'.replaced ↔ p ∈ (a.milestoned m settings.rangeFilter).replaced := by
  obtain ⟨a', ha', hcompiled'⟩ := exists_of_forall₂_left h.forall₂_associations ha
  have hform := hcompiled'.isForm
  have hmember : c.path ∈ m.memberClasses a' := by
    rw [hform.memberClasses]
    exact mem_memberClasses_of_exposingClass? hexposing
  obtain ⟨-, -, hshown⟩ := h.shown hpristine howned hc hprepared ha' hmember
  have hiff : p ∈ c'.replaced ↔ p ∈ a'.replacedOn m c.path := by
    rw [← hshown, List.mem_filter, howner, Owner.isAssociation, hform.path, beq_self_eq_true]
    exact (and_iff_left rfl).symm
  rw [hiff, Association.mem_replacedOn, hform.exposingClass?, hform.replaced]
  exact and_iff_left hexposing

include hcompiled

/-- The accessors that a class has generated it shows. -/
theorem mem_allQualified_of_class {q : QualifiedProperty} (hq : q.isGenerated = true)
    (howner : q.owner = .ofClass c.path) :
    q ∈ c'.allQualified ↔ q ∈ (c.equipped m settings.rangeFilter).qualified := by
  rw [Class.allQualified, List.mem_append, hcompiled.dates.mem_iff hq]
  exact or_iff_left (notMem_exposedQualified hpristine howned h hc hprepared hq howner)

/-- The accessors that an association has generated are shown by the class that exposes them. -/
theorem mem_allQualified_of_association (ha : a ∈ m.associations.entries) {q : QualifiedProperty}
    (hq : q.isGenerated = true) (howner : q.owner = .ofAssociation a.path)
    (hexposing : m.exposingClass? a q.type = some c.path) :
    q ∈ c'.allQualified ↔ q ∈ (a.milestoned m settings.rangeFilter).qualified := by
  obtain ⟨a', ha', hcompiled'⟩ := exists_of_forall₂_left h.forall₂_associations ha
  obtain ⟨n, -, hdates⟩ := hcompiled'.dates
  have hform := hcompiled'.isForm
  have hmember : c.path ∈ m.memberClasses a' := by
    rw [hform.memberClasses]
    exact mem_memberClasses_of_exposingClass? hexposing
  obtain ⟨-, hshown, -⟩ := h.shown hpristine howned hc hprepared ha' hmember
  have hown : q ∉ c'.qualified := by
    rw [hcompiled.dates.mem_iff hq]
    intro hmem
    cases (howned.owner_equipped hc hmem).symm.trans howner
  have hiff : q ∈ c'.exposedQualified ↔ q ∈ a'.qualifiedOn m c.path := by
    rw [← hshown, List.mem_filter, howner, Owner.isAssociation, hform.path, beq_self_eq_true]
    exact (and_iff_left rfl).symm
  rw [Class.allQualified, List.mem_append, or_iff_right hown, hiff, Association.mem_qualifiedOn,
    hform.exposingClass?, hdates.mem_iff hq]
  exact and_iff_left hexposing

omit howned in
/-- Every generated accessor that a class shows belongs to an edge that it exposes. -/
theorem exists_edge_of_mem_allQualified {q : QualifiedProperty} (hmem : q ∈ c'.allQualified)
    (hq : q.isGenerated = true) :
    ∃ e sourceOf, m.edge? sourceOf e.property = some e ∧ e.source = c.path ∧
      e.property ∈ m.presented c ∧ q ∈ m.accessorsOf settings.rangeFilter e := by
  have hcpristine := hpristine.classes c hc
  rcases List.mem_append.1 hmem with hmem | hmem
  · rw [hcompiled.dates.mem_iff hq] at hmem
    obtain ⟨e, he, hmem⟩ := hcpristine.exists_edge_of_mem_equipped hq hmem
    obtain ⟨p, hp, hedge⟩ := mem_edgesOf.1 he
    obtain rfl := property_of_edge? hedge
    have hsource := Option.some.inj (sourceOf_of_mem_edgesOf he)
    exact ⟨e, _, hedge, hsource.symm, List.mem_append_left _ hp, hmem⟩
  · rw [hprepared.arranged.exposedQualified] at hmem
    rcases List.mem_append.1 hmem with hmem | hmem
    · exact (hcpristine.notMem_exposedQualified hq (List.mem_filter.1 hmem).1).elim
    · -- the accessor is exposed where the edge starts that it belongs to
      obtain ⟨a', ha', hmem⟩ := List.mem_flatMap.1 hmem
      obtain ⟨hmem, hexposing⟩ := Association.mem_qualifiedOn.1 hmem
      obtain ⟨a, ha, hcompiled'⟩ := exists_of_forall₂_right h.forall₂_associations
        (mem_arrangement.1 ha')
      obtain ⟨n, -, hdates⟩ := hcompiled'.dates
      rw [hdates.mem_iff hq] at hmem
      rw [hcompiled'.isForm.exposingClass?, hprepared.path] at hexposing
      obtain ⟨e, he, hmem⟩ := (mem_milestonedMembers_qualified hmem).resolve_left
        ((hpristine.associations a ha).notMem_qualified hq)
      obtain ⟨p, hp, hedge⟩ := mem_edgesOf.1 he
      obtain rfl := property_of_edge? hedge
      have hsource : m.exposingClass? a e.property.type = some e.source := sourceOf_of_mem_edgesOf he
      rw [(of_mem_accessorsOf hmem).2.1] at hexposing
      refine ⟨e, _, hedge, Option.some.inj (hsource.symm.trans hexposing), ?_, hmem⟩
      refine List.mem_append_right _ (List.mem_flatMap.2 ⟨a, ha, ?_⟩)
      exact Association.mem_endsOn.2 ⟨hp, hexposing⟩

omit howned hcompiled in
/-- The edge points of what a class presents it shows. -/
theorem edgePoint_mem_allProperties {p : Property} (hp : p ∈ m.presented c) {t : Class}
    {shape : Shape} (ht : m.resolve? p.type = some t) (hshape : t.shape? = some shape) :
    Edge.edgePoint p .generated ∈ c'.allProperties := by
  rcases List.mem_append.1 hp with hp | hp
  · -- a declared edge is replaced in place, with the dates behind
    have he : m.edge? (fun _ => some c.path) p = some ⟨c.path, t.path, shape, p⟩ :=
      edge?_eq_some_iff.2 ⟨(hpristine.classes c hc).members.properties p hp, ⟨t, ht, hshape, rfl⟩, rfl,
        rfl⟩
    rw [Class.allProperties, hprepared.properties]
    apply List.mem_append_left
    refine mem_milestonedMembers_properties.2 ⟨p, c.properties_subset_withDates hp, ?_⟩
    rw [c.withDates_path, he]
    rfl
  · -- an end is replaced in its association, which the views show
    obtain ⟨a, ha, hp⟩ := List.mem_flatMap.1 hp
    obtain ⟨hp, hexposing⟩ := Association.mem_endsOn.1 hp
    have he : m.edge? (fun p => m.exposingClass? a p.type) p = some ⟨c.path, t.path, shape, p⟩ :=
      edge?_eq_some_iff.2 ⟨(hpristine.associations a ha).properties p hp, ⟨t, ht, hshape, rfl⟩,
        hexposing, rfl⟩
    obtain ⟨a', ha', hcompiled'⟩ := exists_of_forall₂_left h.forall₂_associations ha
    have hform := hcompiled'.isForm
    rw [Class.allProperties, hprepared.arranged.exposed, hprepared.path]
    apply List.mem_append_right
    refine List.mem_append_right _ (List.mem_flatMap.2 ⟨a', mem_arrangement.2 ha', ?_⟩)
    rw [Association.mem_endsOn, hform.properties, hform.exposingClass?]
    refine ⟨mem_milestonedMembers_properties.2 ⟨p, hp, ?_⟩, hexposing⟩
    rw [he]
    rfl

end Views

/-- An edge is determined by its property and where it starts from. -/
theorem edge_eq_of_edge? {sourceOf' : Property → Option String} {e' : Edge} {p : Property}
    (he : m.edge? sourceOf p = some e) (he' : m.edge? sourceOf' p = some e')
    (hsource : e.source = e'.source) : e = e' := by
  obtain ⟨-, ⟨t, ht, hshape, htarget⟩, -, hproperty⟩ := edge?_eq_some_iff.1 he
  obtain ⟨-, ⟨t', ht', hshape', htarget'⟩, -, hproperty'⟩ := edge?_eq_some_iff.1 he'
  obtain rfl := Option.some.inj (ht.symm.trans ht')
  have hshapes := Option.some.inj (hshape.symm.trans hshape')
  obtain ⟨source, target, shape, property⟩ := e
  obtain ⟨source', target', shape', property'⟩ := e'
  obtain rfl := hsource
  obtain rfl := hshapes
  obtain rfl := htarget.trans htarget'.symm
  obtain rfl := hproperty.trans hproperty'.symm
  rfl

/-! ### Edges of lists whose names are apart -/

section Apart

variable {before after : List Property} {p : Property} {c : Class}
variable (hnames : m.NamesApart) (hc : c ∈ m.classes.entries)
variable (hlist : (members.properties.filter fun p => sourceOf p == some c.path).Sublist (m.presented c))
variable (hproperties : members.properties = before ++ p :: after)

include hnames hc hlist hproperties

/-- No property that a class presents stands twice in a list. -/
theorem notMem_before (hsource : sourceOf p = some c.path) : p ∉ before := by
  intro hmem
  have hnodup := (hlist.map Property.name).nodup (hnames c hc).nodup
  rw [hproperties, List.filter_append, List.filter_cons, hsource, beq_self_eq_true, if_pos rfl,
    List.map_append, List.map_cons, List.nodup_append] at hnodup
  have hbefore : p ∈ before.filter fun p => sourceOf p == some c.path :=
    List.mem_filter.2 ⟨hmem, beq_iff_eq.2 hsource⟩
  exact hnodup.2.2 _ (List.mem_map_of_mem hbefore) _ List.mem_cons_self rfl

/-- An accessor of an edge is none of an edge before it. -/
theorem accessorOf_notMem_accessorsOf (he : m.edge? sourceOf p = some e) (hsource : e.source = c.path)
    (form : AccessorForm) :
    ∀ e' ∈ before.filterMap (m.edge? sourceOf), e.accessorOf form ∉ m.accessorsOf filter e' := by
  intro e' he' hmem
  obtain ⟨p', hp', he'⟩ := List.mem_filterMap.1 he'
  have hpresented : ∀ {p : Property}, p ∈ members.properties → sourceOf p = some c.path →
      p ∈ m.presented c :=
    fun hp hs => hlist.subset (List.mem_filter.2 ⟨hp, beq_iff_eq.2 hs⟩)
  -- both edges start from the class, so that their properties are told apart there
  obtain ⟨form', -, hsame⟩ := mem_accessorsOf.1 hmem
  have hsource' : e'.source = c.path := (Edge.source_eq_of_accessorOf_eq hsame).trans hsource
  obtain ⟨-, -, hexposed, hproperty⟩ := edge?_eq_some_iff.1 he
  obtain ⟨-, -, hexposed', hproperty'⟩ := edge?_eq_some_iff.1 he'
  have hp : p ∈ m.presented c := by
    refine hpresented ?_ (hexposed.trans (congrArg some hsource))
    rw [hproperties]
    exact List.mem_append_right before List.mem_cons_self
  have hp'' : p' ∈ m.presented c := by
    refine hpresented ?_ (hexposed'.trans (congrArg some hsource'))
    rw [hproperties]
    exact List.mem_append_left _ hp'
  have hoffers : p.Offers (e.accessorOf form) := hproperty ▸ e.offers_accessorOf form
  have hoffers' : p'.Offers (e.accessorOf form) := hproperty' ▸ offers_of_mem_accessorsOf hmem
  have hsameProperty := hnames.eq_of_offers hc hp hp'' hoffers hoffers' rfl
  exact notMem_before hnames hc hlist hproperties (hexposed.trans (congrArg some hsource))
    (hsameProperty ▸ hp')

end Apart

end Model

/-- What the class `c` shows for the edge `e`, where `declared` are the qualified properties in the same
list and `before` the edges ahead of it: its edge point in any case; the edge as replaced, unless one
ahead has its name; each accessor, unless its key is taken, and no other with that key. -/
structure Class.Serves (m : Model) (filter : RangeFilter) (declared : List QualifiedProperty)
    (before : List Edge) (e : Edge) (c : Class) : Prop where
  edgePoint : Edge.edgePoint e.property .generated ∈ c.allProperties
  replaced : e.property ∈ c.replaced ↔ ∀ e' ∈ before, e'.property.name ≠ e.property.name
  accessors : ∀ form ∈ accessorForms (m.shapeAt? e.source) e.shape filter,
    (e.accessorOf form ∈ c.allQualified ↔
      (e.accessorOf form).key ∉ declared.map QualifiedProperty.key ∧
        ∀ e' ∈ before, (e.accessorOf form).key ∉ (m.accessorsOf filter e').map QualifiedProperty.key)
  alone : ∀ form ∈ accessorForms (m.shapeAt? e.source) e.shape filter, ∀ q ∈ c.allQualified,
    q.isGenerated = true → q.key = (e.accessorOf form).key → q = e.accessorOf form

namespace Model

variable {m m' : Model} {settings : Settings} {report : Report}

section OneClass

variable {c c' : Class} {as : List Association}
variable (hpristine : m.Pristine) (howned : m.Owned) (hnames : m.NamesApart)
variable (h : m.Compiles settings report m') (hc : c ∈ m.classes.entries)
variable (hcompiled : c.Compiled m settings.rangeFilter as c')
variable (hprepared : c.Prepared m settings.rangeFilter (m.arrangement m') c')

include hpristine hnames h hc hcompiled hprepared in
/-- Accessors with one key are offered by one property, which has one edge on the class. -/
theorem eq_accessorOf_of_key {sourceOf : Property → Option String} {e : Edge}
    (he : m.edge? sourceOf e.property = some e) (hsource : e.source = c.path)
    (hpresented : e.property ∈ m.presented c) :
    ∀ form ∈ accessorForms (m.shapeAt? e.source) e.shape settings.rangeFilter,
      ∀ q ∈ c'.allQualified, q.isGenerated = true → q.key = (e.accessorOf form).key →
        q = e.accessorOf form := by
  intro form hform q hq hgenerated hkey
  obtain ⟨e', sourceOf', he', hsource', hpresented', hmem⟩ :=
    exists_edge_of_mem_allQualified hpristine h hc hcompiled hprepared hq hgenerated
  have hproperty := hnames.eq_of_offers hc hpresented' hpresented (offers_of_mem_accessorsOf hmem)
    (e.offers_accessorOf form) (congrArg Prod.fst hkey)
  rw [hproperty] at he'
  obtain rfl := edge_eq_of_edge? he' he (hsource'.trans hsource.symm)
  exact List.inj_on_of_nodup_map (m.nodup_keys_accessorsOf settings.rangeFilter e') hmem
    (mem_accessorsOf.2 ⟨form, hform, rfl⟩) hkey

variable {before after : List Property} {p : Property} {t : Class} {shape : Shape}
variable (ht : m.resolve? p.type = some t) (hshape : t.shape? = some shape)

include hpristine howned hnames h hc hcompiled hprepared ht hshape

/-- What a class shows for an edge that it declares. -/
theorem serves_of_class (hproperties : c.properties = before ++ p :: after) :
    c'.Serves m settings.rangeFilter c.qualified
      (before.filterMap (m.edge? fun _ => some c.path)) ⟨c.path, t.path, shape, p⟩ := by
  have hcpristine := (hpristine.classes c hc).members
  have hp : p ∈ c.properties := hproperties ▸ List.mem_append_right before List.mem_cons_self
  have howner := (howned.classes c hc).properties p hp
  have he : m.edge? (fun _ => some c.path) p = some ⟨c.path, t.path, shape, p⟩ :=
    edge?_eq_some_iff.2 ⟨hcpristine.properties p hp, ⟨t, ht, hshape, rfl⟩, rfl, rfl⟩
  have hlist : (c.properties.filter fun _ => some c.path == some c.path).Sublist (m.presented c) :=
    List.filter_sublist.trans (List.sublist_append_left _ _)
  refine ⟨?_, ?_, fun form hform => ?_, ?_⟩
  · exact edgePoint_mem_allProperties hpristine h hc hprepared (List.mem_append_left _ hp) ht hshape
  · rw [mem_replaced_of_class hpristine howned h hprepared howner, equipped_replaced_eq]
    exact mem_replaced_iff_of_edge? hcpristine.replaced hproperties
      (notMem_before hnames hc hlist hproperties rfl) he
  · have hgenerated := Edge.isGenerated_accessorOf ⟨c.path, t.path, shape, p⟩ form
    have howner' : (Edge.accessorOf ⟨c.path, t.path, shape, p⟩ form).owner = .ofClass c.path := howner
    rw [mem_allQualified_of_class hpristine howned h hc hcompiled hprepared hgenerated howner',
      equipped_qualified_eq]
    exact mem_qualified_iff_of_edge? hcpristine.qualified hproperties he
      (accessorOf_notMem_accessorsOf hnames hc hlist hproperties he rfl form) hform
  · apply eq_accessorOf_of_key hpristine hnames h hc hcompiled hprepared he rfl
    exact List.mem_append_left _ hp

/-- What a class shows for an edge that an association exposes on it. -/
theorem serves_of_association {a : Association} (ha : a ∈ m.associations.entries)
    (hproperties : a.properties = before ++ p :: after)
    (hexposing : m.exposingClass? a p.type = some c.path) :
    c'.Serves m settings.rangeFilter a.qualified
      (before.filterMap (m.edge? fun p => m.exposingClass? a p.type))
      ⟨c.path, t.path, shape, p⟩ := by
  have hapristine := hpristine.associations a ha
  have hp : p ∈ a.properties := hproperties ▸ List.mem_append_right before List.mem_cons_self
  have howner := (howned.associations a ha).properties p hp
  have he : m.edge? (fun p => m.exposingClass? a p.type) p = some ⟨c.path, t.path, shape, p⟩ :=
    edge?_eq_some_iff.2 ⟨hapristine.properties p hp, ⟨t, ht, hshape, rfl⟩, hexposing, rfl⟩
  have hlist : (a.endsOn m c.path).Sublist (m.presented c) := by
    have hends := List.mem_map_of_mem (f := fun a : Association => a.endsOn m c.path) ha
    exact (List.sublist_flatten_of_mem hends).trans (List.sublist_append_right _ _)
  have hpresented : p ∈ m.presented c := hlist.subset (Association.mem_endsOn.2 ⟨hp, hexposing⟩)
  refine ⟨?_, ?_, fun form hform => ?_, ?_⟩
  · exact edgePoint_mem_allProperties hpristine h hc hprepared hpresented ht hshape
  · rw [mem_replaced_of_association hpristine howned h hc hprepared ha howner hexposing]
    exact mem_replaced_iff_of_edge? hapristine.replaced hproperties
      (notMem_before hnames hc hlist hproperties hexposing) he
  · have hgenerated := Edge.isGenerated_accessorOf ⟨c.path, t.path, shape, p⟩ form
    have howner' : (Edge.accessorOf ⟨c.path, t.path, shape, p⟩ form).owner =
        .ofAssociation a.path := howner
    have hexposing' : m.exposingClass? a (Edge.accessorOf ⟨c.path, t.path, shape, p⟩ form).type =
        some c.path := by
      rw [Edge.accessorOf_type]
      exact hexposing
    rw [mem_allQualified_of_association hpristine howned h hc hcompiled hprepared ha hgenerated
      howner' hexposing']
    exact mem_qualified_iff_of_edge? hapristine.qualified hproperties he
      (accessorOf_notMem_accessorsOf hnames hc hlist hproperties he rfl form) hform
  · apply eq_accessorOf_of_key hpristine hnames h hc hcompiled hprepared he rfl hpresented

end OneClass

/-- **What a compiled class shows for each edge that it exposes**, declared by itself or listed by an
association. -/
theorem serves_of_compile (hcompile : m.compile .builtin settings = .ok (report, m'))
    (hpristine : m.Pristine) (howned : m.Owned) (hnames : m.NamesApart) {c : Class}
    (hc : c ∈ m.classes.entries) :
    ∃ c', m'.class? c.path = some c' ∧
      (∀ before p after, c.properties = before ++ p :: after →
        ∀ t shape, m.resolve? p.type = some t → t.shape? = some shape →
          c'.Serves m settings.rangeFilter c.qualified
            (before.filterMap (m.edge? fun _ => some c.path)) ⟨c.path, t.path, shape, p⟩) ∧
      ∀ a ∈ m.associations.entries, ∀ before p after, a.properties = before ++ p :: after →
        m.exposingClass? a p.type = some c.path →
          ∀ t shape, m.resolve? p.type = some t → t.shape? = some shape →
            c'.Serves m settings.rangeFilter a.qualified
              (before.filterMap (m.edge? fun p => m.exposingClass? a p.type))
              ⟨c.path, t.path, shape, p⟩ := by
  have h := compiles_of_compile hcompile
  obtain ⟨c', hc', hcompiled, hprepared⟩ := h.exists_class hpristine howned hnames.distinct hc
  refine ⟨c', hc', ?_, ?_⟩
  · intro before p after hproperties t shape ht hshape
    exact serves_of_class hpristine howned hnames h hc hcompiled hprepared ht hshape hproperties
  · intro a ha before p after hproperties hexposing t shape ht hshape
    exact serves_of_association hpristine howned hnames h hc hcompiled hprepared ht hshape ha
      hproperties hexposing

/-- An association whose ends lead to different classes and bear one name. -/
def namesakeEnds : Association where
  path := "m::A"
  properties := [
    { name := "x", type := .ofClass "m::S", multiplicity := .one, owner := .ofAssociation "m::A" },
    { name := "x", type := .ofClass "m::T", multiplicity := .one, owner := .ofAssociation "m::A" }]

/-- The temporal classes that it joins. -/
def namesakes : Model :=
  ofDocument {
    classes := [
      { path := "m::S", stereotypes := [.resolved temporalProfile Shape.business.name] },
      { path := "m::T", stereotypes := [.resolved temporalProfile Shape.business.name] }]
    associations := [namesakeEnds] }

/-- The class that exposes the second of the ends neither records it nor has any accessor of it. -/
theorem namesakes_unserved :
    (namesakes.compile .builtin {}).toBool = true ∧ ∀ report m', namesakes.compile .builtin {} =
      .ok (report, m') → ∃ c', m'.class? "m::S" = some c' ∧ ∃ p ∈ namesakeEnds.properties,
        namesakes.exposingClass? namesakeEnds p.type = some "m::S" ∧ p ∉ c'.replaced ∧
          ∀ form ∈ accessorForms (namesakes.shapeAt? "m::S") .business .startEquality,
            Edge.accessorOf ⟨"m::S", "m::T", .business, p⟩ form ∉ c'.allQualified := by
  refine ⟨by decide +kernel, fun report m' hcompile => ?_⟩
  obtain ⟨s, hs⟩ := Option.isSome_iff_exists.1
    (show (namesakes.class? "m::S").isSome = true by decide +kernel)
  obtain ⟨hs, hpath⟩ := class?_eq_some_iff.1 hs
  obtain ⟨t, ht⟩ := Option.isSome_iff_exists.1
    (show (namesakes.resolve? (.ofClass "m::T")).isSome = true by decide +kernel)
  have htpath : t.path = "m::T" := (class?_eq_some_iff.1 ht).2
  have hshape : t.shape? = some .business := by
    have hshapeOf : namesakes.shapeOf? (.ofClass "m::T") = some .business := by decide +kernel
    rw [shapeOf?, ht] at hshapeOf
    exact hshapeOf
  obtain ⟨c', hc', -, hserves⟩ := serves_of_compile hcompile (by decide +kernel) (by decide +kernel)
    (by decide +kernel) hs
  have hserved := hserves namesakeEnds (by decide +kernel) [_] _ [] rfl
    (by rw [hpath]; decide +kernel) t .business ht hshape
  rw [hpath] at hc' hserved
  rw [htpath] at hserved
  refine ⟨c', hc', _, List.mem_cons_of_mem _ List.mem_cons_self, by decide +kernel, ?_, ?_⟩
  · rw [hserved.replaced]
    decide +kernel
  · intro form hform
    rw [hserved.accessors form hform]
    revert form
    decide +kernel

end Model

end Bitemporal
