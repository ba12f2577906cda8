/-
Bitemporal/Proofs/Overloads.lean

When the accessor that takes all dates is missing.

Dating finds a call by the name of an accessor, and only then asks for the
accessor of that name that takes all dates.  Both are put into one list of
members, by one edge, but each only if its key is free there.  So the second
can be missing although the first is there.

Within one list, whose edges all start from one class or lead one of two
opposite ways (`Lists.opposite`), no other edge can bring this about
(`Lists.exists_allDates`): its keys run parallel.  And what is put into a list
is shown by the class it is for, whatever views have been renewed on the way
(`Midway.takes`).  What remains is a qualified property that is declared in the
list and has the key itself (`Model.Overloads`), apart from a property without
a name, whose range accessor is taken for a date accessor.

With `fails_of_compile_eq_error` this says how a compilation can fail, and that
faults of the category `internal` are a matter of overloading
(`Model.faults_of_compile`).
-/
import Bitemporal.Proofs.Faults
import Bitemporal.Proofs.Omission

namespace Bitemporal

/-! ### Edges of one list -/

namespace Model

/-- The lists of members that a model has, each with where the edges in it start from. -/
inductive Lists (m : Model) : (Property → Option String) → Members → Prop
  | ofClass {c : Class} (hc : c ∈ m.classes.entries) : Lists m (fun _ => some c.path) c.toMembers
  | ofAssociation {a : Association} (ha : a ∈ m.associations.entries) :
      Lists m (fun p => m.exposingClass? a p.type) a.toMembers

/-- The accessors that milestoning puts into a list. -/
def additions (m : Model) (filter : RangeFilter) (sourceOf : Property → Option String)
    (members : Members) : List QualifiedProperty :=
  news QualifiedProperty.key (members.qualified.map QualifiedProperty.key)
    ((m.edgesOf sourceOf members).flatMap (m.accessorsOf filter))

/-- Beside an edge of this name from the class of this path, the same list has a qualified property
with the name and the number of parameters of the accessor that takes all dates of the edge. -/
def Overloads (m : Model) (owner name : String) (count : Nat) : Prop :=
  ∃ sourceOf members, m.Lists sourceOf members ∧ ∃ e ∈ m.edgesOf sourceOf members,
    e.source = owner ∧ e.property.name = name ∧ 1 + e.shape.axes.length = count ∧
      (name, count) ∈ members.qualified.map QualifiedProperty.key

variable {m : Model} {filter : RangeFilter} {sourceOf : Property → Option String} {members : Members}
variable {e e' : Edge}

/-- What a path denotes as a type it also denotes as a member. -/
theorem member?_of_resolve? {type : TypeRef} {path : String} {c : Class}
    (hpath : type.path? = some path) (h : m.resolve? type = some c) : m.member? path = some c := by
  cases type with
  | primitive p => cases hpath
  | ofClass p =>
    obtain rfl := Option.some.inj hpath
    rw [member?, resolve?, show m.class? p = some c from h]
    rfl
  | abbreviated p =>
    obtain rfl := Option.some.inj hpath
    exact h

/-- Where an end leads to one member of its association, the other one exposes it. -/
theorem members_of_exposingClass? {a : Association} {type : TypeRef} {path : String} {t : Class}
    (ht : m.resolve? type = some t) (h : m.exposingClass? a type = some path) :
    ∃ first second, a.memberPaths = [first, second] ∧
      (m.member? first = some t ∧ (m.member? second).map (·.path) = some path ∨
        m.member? second = some t ∧ (m.member? first).map (·.path) = some path) := by
  obtain ⟨opposite, hexposing, hpath⟩ := Option.bind_eq_some_iff.1 h
  obtain ⟨target, htarget, hexposing⟩ := Option.bind_eq_some_iff.1 hexposing
  obtain ⟨first, second, hends, hside⟩ := exposing?_eq_some hexposing
  have hmember := member?_of_resolve? htarget ht
  refine ⟨first, second, hends, ?_⟩
  rcases hside with ⟨rfl, rfl⟩ | ⟨rfl, rfl⟩
  · exact .inl ⟨hmember, hpath⟩
  · exact .inr ⟨hmember, hpath⟩

/-- **Two edges of a list start from one class, or lead opposite ways**, so that the target of either
has the shape of the source of the other. -/
theorem Lists.opposite (h : m.Lists sourceOf members) (he : e ∈ m.edgesOf sourceOf members)
    (he' : e' ∈ m.edgesOf sourceOf members) :
    e.source = e'.source ∨
      m.shapeAt? e.source = some e'.shape ∧ m.shapeAt? e'.source = some e.shape := by
  have hsource := sourceOf_of_mem_edgesOf he
  have hsource' := sourceOf_of_mem_edgesOf he'
  cases h with
  | ofClass hc => exact .inl (Option.some.inj (hsource.symm.trans hsource'))
  | ofAssociation ha =>
    obtain ⟨p, -, hedge⟩ := mem_edgesOf.1 he
    obtain ⟨p', -, hedge'⟩ := mem_edgesOf.1 he'
    obtain ⟨-, ⟨t, ht, hshape, -⟩, -, rfl⟩ := edge?_eq_some_iff.1 hedge
    obtain ⟨-, ⟨t', ht', hshape', -⟩, -, rfl⟩ := edge?_eq_some_iff.1 hedge'
    have hat : ∀ {c : Class} {type : TypeRef}, m.resolve? type = some c →
        m.shapeAt? c.path = c.shape? := by
      intro c type hc
      rw [shapeAt?, class?_path (mem_of_resolve? hc)]
      rfl
    obtain ⟨first, second, hends, hside⟩ := members_of_exposingClass? ht hsource
    obtain ⟨first', second', hends', hside'⟩ := members_of_exposingClass? ht' hsource'
    obtain ⟨rfl, rfl⟩ : first = first' ∧ second = second' := by
      simpa using hends.symm.trans hends'
    rcases hside with ⟨hfirst, hsecond⟩ | ⟨hsecond, hfirst⟩
    · rcases hside' with ⟨-, hsecond'⟩ | ⟨hsecond', hfirst'⟩
      · exact .inl (Option.some.inj (hsecond.symm.trans hsecond'))
      · rw [hsecond'] at hsecond
        rw [hfirst] at hfirst'
        rw [← Option.some.inj hsecond, ← Option.some.inj hfirst', hat ht, hat ht']
        exact .inr ⟨hshape', hshape⟩
    · rcases hside' with ⟨hfirst', hsecond'⟩ | ⟨-, hfirst'⟩
      · rw [hfirst'] at hfirst
        rw [hsecond] at hsecond'
        rw [← Option.some.inj hfirst, ← Option.some.inj hsecond', hat ht, hat ht']
        exact .inr ⟨hshape', hshape⟩
      · exact .inl (Option.some.inj (hfirst.symm.trans hfirst'))

end Model

/-! ### Keys that run parallel -/

theorem Shape.eq_of_fixedBy {shape shape' : Shape} (h : shape.FixedBy (some shape'))
    (hlength : shape'.axes.length = shape.axes.length) : shape' = shape := by
  rcases h with h | h
  · obtain rfl := Option.some.inj h
    cases shape with
    | bitemporal => rfl
    | business => cases hlength
    | processing => cases hlength
  · exact Option.some.inj h

/-- An edge against one that leads opposite and can leave its dates out: with the key of the accessor
that takes all dates of the one, it has that of the accessor without dates as well. -/
theorem Edge.mem_keys_noDates {m : Model} {filter : RangeFilter} {e e' : Edge}
    (hshape : m.shapeAt? e.source = some e'.shape) (hshape' : m.shapeAt? e'.source = some e.shape)
    (hform : AccessorForm.noDates ∈ accessorForms (m.shapeAt? e.source) e.shape filter)
    (hkey : (e.accessorOf .allDates).key ∈ (m.accessorsOf filter e').map QualifiedProperty.key) :
    (e.accessorOf .noDates).key ∈ (m.accessorsOf filter e').map QualifiedProperty.key := by
  rw [hshape, noDates_mem_accessorForms] at hform
  rw [Model.keys_accessorsOf, hshape'] at hkey ⊢
  obtain ⟨form, hform', hkey⟩ := List.mem_map.1 hkey
  rw [key_accessorOf, Prod.mk.injEq] at hkey
  obtain ⟨hname, harity⟩ := hkey
  cases form with
  | allDates =>
    have hsame := Shape.eq_of_fixedBy hform (Nat.add_left_cancel harity)
    refine List.mem_map.2 ⟨.noDates, noDates_mem_accessorForms.2 (.inr (congrArg some hsame.symm)), ?_⟩
    rw [key_accessorOf]
    exact Prod.ext hname rfl
  | noDates =>
    -- one parameter is not enough for any date
    have hnone : e.shape.axes.length = 0 := (Nat.add_left_cancel harity).symm
    cases hshapes : e.shape with
    | business | processing | bitemporal =>
      rw [hshapes] at hnone
      cases hnone
  | range filter' =>
    -- ranges run along one axis, but two parameters are dates of a bitemporal target
    have htwo : e.shape.axes.length = 2 := (Nat.add_left_cancel harity).symm
    have hboth : e.shape = .bitemporal := by
      cases hshapes : e.shape with
      | bitemporal => rfl
      | business | processing =>
        rw [hshapes] at htwo
        cases htwo
    have hboth' : e'.shape = .bitemporal := by
      rw [hboth] at hform
      exact hform.elim Option.some.inj Option.some.inj
    rw [hboth, hboth'] at hform'
    simp [accessorForms, Shape.isUnitemporal] at hform'

/-- Of two places in a list, one is before the other, or they hold the same. -/
theorem eq_or_mem_of_append_cons_eq {α : Type} {l₁ l₂ r₁ r₂ : List α} {x y : α}
    (h : l₁ ++ x :: r₁ = l₂ ++ y :: r₂) : x = y ∨ x ∈ l₂ ∨ y ∈ l₁ := by
  rcases List.append_eq_append_iff.1 h with ⟨l, rfl, hl⟩ | ⟨l, rfl, hl⟩
  · rcases l with - | ⟨z, l⟩
    · exact .inl (List.cons.inj hl).1
    · obtain ⟨rfl, -⟩ := List.cons.inj hl
      exact .inr (.inl (List.mem_append_cons_self))
  · rcases l with - | ⟨z, l⟩
    · exact .inl (List.cons.inj hl).1.symm
    · obtain ⟨rfl, -⟩ := List.cons.inj hl
      exact .inr (.inr (List.mem_append_cons_self))

namespace Model

variable {m : Model} {filter : RangeFilter} {sourceOf : Property → Option String} {members : Members}
variable {e : Edge} {before after : List Edge}

/-- **Where an edge is the first to have an accessor without dates, and no qualified property is in
the way, an accessor that takes all dates is put in for its source.** -/
theorem Lists.exists_allDates (h : m.Lists sourceOf members)
    (hsplit : m.edgesOf sourceOf members = before ++ e :: after)
    (hform : AccessorForm.noDates ∈ accessorForms (m.shapeAt? e.source) e.shape filter)
    (hbefore : ∀ e' ∈ before,
      (e.accessorOf .noDates).key ∉ (m.accessorsOf filter e').map QualifiedProperty.key)
    (hdeclared : (e.accessorOf .allDates).key ∉ members.qualified.map QualifiedProperty.key) :
    ∃ q ∈ m.additions filter sourceOf members, q.key = (e.accessorOf .allDates).key ∧
      ∃ e' ∈ m.edgesOf sourceOf members, e'.source = e.source ∧ q ∈ m.accessorsOf filter e' := by
  have he : e ∈ m.edgesOf sourceOf members := hsplit ▸ List.mem_append_cons_self
  have hall : (e.accessorOf .allDates).key ∈ (m.accessorsOf filter e).map QualifiedProperty.key :=
    List.mem_map_of_mem (mem_accessorsOf.2
      ⟨.allDates, List.mem_append_left _ (List.mem_append_left _ List.mem_cons_self), rfl⟩)
  have hkeys : (e.accessorOf .allDates).key ∈
      ((m.edgesOf sourceOf members).flatMap (m.accessorsOf filter)).map QualifiedProperty.key := by
    rw [List.map_flatMap]
    exact List.mem_flatMap.2 ⟨e, he, hall⟩
  obtain ⟨q, hq, hkey⟩ := exists_mem_news hkeys hdeclared
  refine ⟨q, hq, hkey, ?_⟩
  -- the accessor is of the first edge with its key
  obtain ⟨before', e', after', hsplit', hmem, hbefore'⟩ := exists_first_of_mem_news hq
  have he' : e' ∈ m.edgesOf sourceOf members := hsplit' ▸ List.mem_append_cons_self
  have hmem' := List.mem_map_of_mem (f := QualifiedProperty.key) hmem
  rw [hkey] at hmem' hbefore'
  refine ⟨e', he', ?_, hmem⟩
  rcases h.opposite he he' with hsource | ⟨hshape, hshape'⟩
  · exact hsource.symm
  · rcases eq_or_mem_of_append_cons_eq (hsplit.symm.trans hsplit') with rfl | hfirst | hfirst
    · rfl
    · exact (hbefore' e hfirst hall).elim
    · exact (hbefore e' hfirst (Edge.mem_keys_noDates hshape hshape' hform hmem')).elim

end Model

/-! ### Accessors that classes show -/

/-- The class shows, up to their bodies, all accessors of an association that it exposes. -/
def Class.Exposes (m : Model) (filter : RangeFilter) (a : Association) (c : Class) : Prop :=
  ∀ q ∈ m.endAccessors filter a, m.exposingClass? a q.type = some c.path →
    q.header ∈ c.exposedQualified.map QualifiedProperty.header

namespace Class

variable {m : Model} {filter : RangeFilter} {a b : Association} {as : List Association} {c : Class}

/-- Renewing the views of an association, in whatever form, exposes its accessors. -/
theorem exposes_renewed (hform : a.IsForm m filter b) (c : Class) :
    (c.renewed m b).Exposes m filter a := by
  intro q hq hexposing
  have hmem : q.header ∈ b.qualified.map QualifiedProperty.header := by
    rw [hform.headers, a.milestoned_qualified]
    exact List.mem_map_of_mem (List.mem_append_right _ hq)
  obtain ⟨q', hq', hheader⟩ := List.mem_map.1 hmem
  have htype : q'.header.type = q.header.type := by rw [hheader]
  change q'.type = q.type at htype
  rw [← hheader]
  refine List.mem_map_of_mem (List.mem_append_right _ (Association.mem_qualifiedOn.2 ⟨hq', ?_⟩))
  rw [hform.exposingClass?, htype]
  exact hexposing

/-- Renewing the views of another association keeps them. -/
theorem Exposes.renewed (howned : m.Owned) (ha : a ∈ m.associations.entries)
    (hpath : b.path ≠ a.path) (h : c.Exposes m filter a) : (c.renewed m b).Exposes m filter a := by
  intro q hq hexposing
  obtain ⟨q', hq', hheader⟩ := List.mem_map.1 (h q hq hexposing)
  have howner : q'.owner = .ofAssociation a.path := by
    obtain ⟨e, he, hmem⟩ := List.mem_flatMap.1 (mem_of_mem_news hq).1
    have hsame : q'.header.owner = q.header.owner := by rw [hheader]
    change q'.owner = q.owner at hsame
    rw [hsame, (Model.of_mem_accessorsOf hmem).2.2.1]
    exact (howned.associations a ha).properties _ (Model.mem_properties_of_mem_edgesOf he)
  rw [← hheader]
  refine List.mem_map_of_mem (List.mem_append_left _ (List.mem_filter.2 ⟨hq', ?_⟩))
  rw [drops, howner, Owner.isAssociation,
    beq_eq_false_iff_ne.2 fun he => hpath (Owner.ofAssociation.inj he).symm, Bool.and_false]
  rfl

/-- **Once the views of an association have been renewed, its accessors stay exposed.** -/
theorem exposes_renewedAll (howned : m.Owned) (ha : a ∈ m.associations.entries)
    (hforms : m.Forms filter as) (h : c.Exposes m filter a ∨ ∃ b ∈ as, b.path = a.path) :
    (renewedAll m as c).Exposes m filter a := by
  induction as generalizing c with
  | nil => exact h.resolve_right (by simp)
  | cons b as ih =>
    rw [renewedAll_cons]
    apply ih (hforms.subset (List.subset_cons_self b as))
    by_cases hpath : b.path = a.path
    · -- a form of the association itself
      obtain ⟨a₀, ha₀, hform⟩ := hforms b List.mem_cons_self
      obtain rfl : a₀ = a := m.associations.eq_of_path_eq ha₀ ha (hform.path.symm.trans hpath)
      exact .inl (exposes_renewed hform c)
    · rcases h with h | ⟨b', hb', hpath'⟩
      · exact .inl (h.renewed howned ha hpath)
      · rcases List.mem_cons.1 hb' with rfl | hb'
        · exact (hpath hpath').elim
        · exact .inr ⟨b', hb', hpath'⟩

end Class

namespace Model

variable {m d : Model} {filter : RangeFilter} {a : Association}

/-- On the way from the prepared to the compiled model, classes expose all accessors of associations. -/
theorem Midway.exposes (howned : m.Owned) (ha : a ∈ m.associations.entries) (h : m.Midway filter d)
    {c : Class} (hc : c ∈ d.classes.entries) : c.Exposes m filter a := by
  obtain ⟨as, hforms, bs, hbs, hclasses⟩ := h
  obtain ⟨c', hc', hrearranged, -⟩ := exists_of_forall₂_right hclasses hc
  obtain ⟨c₀, -, rfl⟩ := List.mem_map.1 hc'
  rw [Class.renewedAll_of_frame (m.prepared_frame filter), ← Class.renewedAll_append] at hrearranged
  have hexposes : (Class.renewedAll m (m.milestonedAssociations filter ++ bs)
      (c₀.equipped m filter)).Exposes m filter a := by
    apply Class.exposes_renewedAll howned ha
    · exact (m.forms_milestonedAssociations filter).append (hforms.subset hbs.subset)
    · exact .inr ⟨a.milestoned m filter, List.mem_append_left _ (List.mem_map_of_mem ha), rfl⟩
  intro q hq hexposing
  rw [hrearranged] at hexposing ⊢
  exact hexposes q hq hexposing

/-- **An accessor that is generated for a class answers the calls of its name and arity**, in every
model in which bodies are dated. -/
theorem Midway.takes (hpristine : m.Pristine) (howned : m.Owned) (h : m.Midway filter d)
    {path : String} {q : QualifiedProperty} (hq : q ∈ m.accessorsAt filter path) :
    d.takes path q.name q.arity = true := by
  have hcarries : m.Carries filter d := by
    obtain ⟨as, hforms, hbetween⟩ := h
    exact hbetween.carries hpristine hforms
  rcases List.mem_append.1 hq with hq | hq
  · -- of an edge that the class declares
    obtain ⟨c, hc, hq⟩ := List.mem_flatMap.1 hq
    obtain ⟨c', hc', hown⟩ := hcarries.exists_class (Option.mem_toList.1 hc)
    rw [Model.takes, hc']
    exact hown.hasAccessor_of_mem (List.mem_map_of_mem hq)
  · -- of an end that an association exposes on it
    obtain ⟨a, ha, hfiltered⟩ := List.mem_flatMap.1 hq
    obtain ⟨hadded, hpath⟩ := List.mem_filter.1 hfiltered
    have hexposing : m.exposingClass? a q.type = some path := beq_iff_eq.1 hpath
    obtain ⟨opposite, -, hmember⟩ := Option.bind_eq_some_iff.1 hexposing
    obtain ⟨c, hc, rfl⟩ := Option.map_eq_some_iff.1 hmember
    obtain ⟨c', hc', -⟩ := hcarries.exists_class (class?_path (mem_of_resolve? hc))
    obtain ⟨hmem, hpath⟩ := class?_eq_some_iff.1 hc'
    rw [← hpath] at hexposing
    have hheader := h.exposes howned ha hmem q hadded hexposing
    rw [Model.takes, hc', Option.any_some, Class.hasAccessor_eq_headers, List.any_eq_true]
    refine ⟨q.header, Class.mem_headers.2 (.inr hheader), ?_⟩
    obtain ⟨e, -, hmem⟩ := List.mem_flatMap.1 (mem_of_mem_news hadded).1
    show (q.name == q.name && q.arity == q.arity && q.isGenerated) = true
    rw [(of_mem_accessorsOf hmem).1, beq_self_eq_true, beq_self_eq_true]
    rfl

/-- The accessors that are generated for a class are put into the lists of the model, by edges from
the class. -/
theorem mem_accessorsAt_iff {path : String} {q : QualifiedProperty} :
    q ∈ m.accessorsAt filter path ↔ ∃ sourceOf members, m.Lists sourceOf members ∧
      q ∈ m.additions filter sourceOf members ∧
        ∃ e ∈ m.edgesOf sourceOf members, e.source = path ∧ q ∈ m.accessorsOf filter e := by
  rw [accessorsAt, List.mem_append]
  constructor
  · rintro (hq | hq)
    · obtain ⟨c, hclass, hadded⟩ := List.mem_flatMap.1 hq
      obtain ⟨hc, rfl⟩ := class?_eq_some_iff.1 (Option.mem_toList.1 hclass)
      obtain ⟨e, he, hmem⟩ := List.mem_flatMap.1 (mem_of_mem_news hadded).1
      exact ⟨_, _, .ofClass hc, hadded, e, he, (Option.some.inj (sourceOf_of_mem_edgesOf he)).symm, hmem⟩
    · obtain ⟨a, ha, hfiltered⟩ := List.mem_flatMap.1 hq
      obtain ⟨hadded, hexposing⟩ := List.mem_filter.1 hfiltered
      obtain ⟨e, he, hmem⟩ := List.mem_flatMap.1 (mem_of_mem_news hadded).1
      have hsource : m.exposingClass? a e.property.type = some e.source := sourceOf_of_mem_edgesOf he
      rw [(of_mem_accessorsOf hmem).2.1, hsource] at hexposing
      exact ⟨_, _, .ofAssociation ha, hadded, e, he, Option.some.inj (beq_iff_eq.1 hexposing), hmem⟩
  · rintro ⟨sourceOf, members, hlists, hq, e, he, rfl, hmem⟩
    have hsource := sourceOf_of_mem_edgesOf he
    cases hlists with
    | @ofClass c hc =>
      left
      rw [← Option.some.inj hsource, class?_path hc]
      exact List.mem_flatMap.2 ⟨c, List.mem_singleton_self c, hq⟩
    | @ofAssociation a ha =>
      right
      refine List.mem_flatMap.2 ⟨a, ha, List.mem_filter.2 ⟨hq, beq_iff_eq.2 ?_⟩⟩
      rw [(of_mem_accessorsOf hmem).2.1]
      exact hsource

/-! ### What stands in the way -/

/-- **If calls of a name are dated but the accessor that takes all dates is missing, the name is
overloaded.**  The name of a range accessor without any other is an exception. -/
theorem Midway.overloads (hpristine : m.Pristine) (howned : m.Owned) (h : m.Midway filter d)
    {owner name : String} {target : Shape} (hcall : d.callShape? owner name = some target)
    (hnone : d.takes owner name (1 + target.axes.length) = false) :
    name = Naming.rangeEnding ∨ m.Overloads owner name (1 + target.axes.length) := by
  have haccounts : m.Accounts filter d := by
    obtain ⟨as, hforms, hbetween⟩ := h
    exact hbetween.accounts hpristine hforms
  obtain ⟨q, hq, rfl, hrange, hshape⟩ := haccounts.exists_of_callShape? hcall
  obtain ⟨sourceOf, members, hlists, hadded, e₀, -, hsource, hmem₀⟩ := mem_accessorsAt_iff.1 hq
  -- the first edge of the list that has the key of the accessor
  obtain ⟨before, e, after, hsplit, hmem, hbefore⟩ := exists_first_of_mem_news hadded
  have he : e ∈ m.edgesOf sourceOf members := hsplit ▸ List.mem_append_cons_self
  obtain ⟨form₀, -, hform₀⟩ := mem_accessorsOf.1 hmem₀
  obtain ⟨form, hform, rfl⟩ := mem_accessorsOf.1 hmem
  have howner : e.source = owner := (Edge.source_eq_of_accessorOf_eq hform₀.symm).trans hsource
  rw [Edge.accessorOf_type, shapeOf?_of_mem_edgesOf he] at hshape
  obtain rfl := Option.some.inj hshape
  cases form with
  | range filter' =>
    left
    have hempty : Naming.isRange (Naming.range e.property.name) = false := by
      rw [QualifiedProperty.isRange, e.isGenerated_accessorOf, Bool.true_and] at hrange
      exact hrange
    rw [Naming.isRange, Naming.range, Text.dropEnding?_append] at hempty
    have hname : e.property.name = "" := by simpa using hempty
    show Naming.range e.property.name = _
    rw [hname, Naming.range, String.empty_append]
  | allDates =>
    have htakes := h.takes hpristine howned hq
    rw [Edge.accessorOf_arity] at htakes
    cases htakes.symm.trans hnone
  | noDates =>
    right
    refine ⟨sourceOf, members, hlists, e, he, howner, rfl, rfl, ?_⟩
    have hkeyOf : (e.accessorOf .allDates).key = (e.property.name, 1 + e.shape.axes.length) :=
      Edge.key_accessorOf
    show (e.property.name, 1 + e.shape.axes.length) ∈ _
    by_contra hdeclared
    rw [← hkeyOf] at hdeclared
    obtain ⟨q, hq, hkey, e', he', hsource', hmem'⟩ :=
      hlists.exists_allDates hsplit hform hbefore hdeclared
    have htakes := h.takes hpristine howned
      (mem_accessorsAt_iff.2 ⟨_, _, hlists, hq, e', he', hsource'.trans howner, hmem'⟩)
    obtain ⟨hname, harity⟩ := Prod.mk.inj (hkey.trans hkeyOf)
    rw [hname, harity] at htakes
    cases htakes.symm.trans hnone

/-- **How a compilation can fail** with the built-in symbols: at a class with several shapes, under the
strict setting, or at a call that leaves dates out, or at one whose accessor with all dates is missing;
never for want of a symbol, a class or an association.  Only the last of these is an internal fault,
and if the model has no generated members, it means that a qualified property which is declared beside
the edge has taken the place of the accessor, unless the edge has no name. -/
theorem faults_of_compile {settings : Settings} {fault : Fault}
    (hcompile : m.compile .builtin settings = .error fault) (hreceived : m.Received) :
    m.Fails settings fault ∧ (m.Pristine → m.Owned → fault.category = .internal →
      ∃ name owner count span, fault = .accessorNotFound name owner count span ∧
        (name = Naming.rangeEnding ∨ m.Overloads owner name count)) := by
  have hfails := fails_of_compile_eq_error hreceived hcompile
  refine ⟨hfails, fun hpristine howned hinternal => ?_⟩
  cases hfails with
  | conflictingShapes => cases hinternal
  | raised hraised =>
    obtain ⟨d, hd, q, -, -, n, -, hraises⟩ := hraised
    cases hraises with
    | missingDate => cases hinternal
    | accessorNotFound hcall _ hnone =>
      exact ⟨_, _, _, _, rfl, hd.overloads hpristine howned hcall hnone⟩

/-- A class with an edge to itself, a qualified property of the given name that takes a text, and a
body that navigates by the edge. -/
def overloadedClass (name : String) : Class where
  path := "m::K"
  stereotypes := [.resolved temporalProfile Shape.business.name]
  properties := [
    { name := "next", type := .ofClass "m::K", multiplicity := .zeroOne, owner := .ofClass "m::K" }]
  qualified := [
    labelled name,
    { labelled "successor" with
      signature := {
        parameters := [{ name := "this", type := .ofClass "m::K", multiplicity := .one }]
        result := ⟨.ofClass "m::K", .zeroOne⟩ }
      body := [
        (Navigation.plain "m::K" "next" (.reference "this" ⟨.ofClass "m::K", .one⟩) []).toExpression
          ⟨.ofClass "m::K", .zeroOne⟩] }]

def overloaded (name : String) : Model :=
  ofDocument { classes := [overloadedClass name] }

/-- If that qualified property is named like the edge, the compilation fails with an internal fault,
which is due to it; under another name it is not in the way. -/
theorem overloaded_faults : ((overloaded "labelled").compile .builtin {}).toBool = true ∧
    (overloaded "next").compile .builtin {} = .error (.accessorNotFound "next" "m::K" 2 none) ∧
      (overloaded "next").Overloads "m::K" "next" 2 := by
  have hcompile : (overloaded "next").compile .builtin {} =
      .error (.accessorNotFound "next" "m::K" 2 none) := by
    decide +kernel
  refine ⟨by decide +kernel, hcompile, ?_⟩
  obtain ⟨-, hinternal⟩ := faults_of_compile hcompile (by decide +kernel)
  obtain ⟨name, owner, count, span, hfault, hcause⟩ :=
    hinternal (by decide +kernel) (by decide +kernel) rfl
  obtain ⟨rfl, rfl, rfl, -⟩ := Fault.accessorNotFound.inj hfault
  exact hcause.resolve_left (by decide)

end Model

end Bitemporal
