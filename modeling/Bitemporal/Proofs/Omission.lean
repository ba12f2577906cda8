/-
Bitemporal/Proofs/Omission.lean

When dates may be left out.

The rule stands twice: an edge gets an accessor without dates if its source
fixes a date on each axis of its target, and a call without dates has them
filled in by a match over the shapes at both ends.  Both come to one condition
on shapes (`Shape.FixedBy`), the first by `noDates_mem_accessorForms`, the
second by `exists_fills_iff`, provided that dates are available on both axes.

For a compiled model this has to be carried over to what a class shows.  A
property that a class records as replaced is the first of its name in its list,
so that its accessors have been put in there unless their keys are declared
(`Model.mem_qualified_of_mem_replaced`), and the class shows them
(`Model.exists_edge_of_mem_replaced`).  Conversely a generated accessor of its
name belongs to no other edge.  With the names of properties distinct, none of
them that of a range accessor or of a declared qualified property beside it, a
call without dates succeeds exactly if the class shows an accessor that takes
none (`Model.omits_iff_of_compile`).
-/
import Bitemporal.Proofs.Chains
import Bitemporal.Proofs.EdgeAccessors
import Bitemporal.Proofs.Unhindered

namespace Bitemporal

/-! ### One rule on shapes -/

/-- A source of this shape fixes a date on each axis of the target. -/
def Shape.FixedBy (source : Option Shape) (target : Shape) : Prop :=
  source = some .bitemporal ∨ source = some target

theorem noDates_mem_accessorForms {source : Option Shape} {target : Shape} {filter : RangeFilter} :
    AccessorForm.noDates ∈ accessorForms source target filter ↔ target.FixedBy source := by
  rw [accessorForms, Shape.FixedBy]
  by_cases hfixed : source = some .bitemporal ∨ source = some target
  · simp [hfixed]
  · rw [if_neg hfixed]
    cases target <;> simpa [Shape.isUnitemporal] using hfixed

/-- With a date available on every axis, a call can leave all dates out exactly if its source fixes
them. -/
theorem exists_fills_iff {available : Axis → Expression → Prop} {source : Option Shape} {target : Shape}
    (h : ∀ axis, ∃ date, available axis date) :
    (∃ dates, Fills available target source [] dates) ↔ target.FixedBy source := by
  constructor
  · rintro ⟨dates, hfills⟩
    cases hfills with
    | both => exact .inl rfl
    | one _ hsource => exact hsource
  · intro hfixed
    obtain ⟨processing, hp⟩ := h .processing
    obtain ⟨business, hb⟩ := h .business
    obtain ⟨primary, hprimary⟩ := h target.primary
    by_cases hone : target = .bitemporal
    · obtain rfl := hone
      obtain rfl : source = some .bitemporal := hfixed.elim id id
      exact ⟨_, .both hp hb⟩
    · exact ⟨_, .one hone hfixed hprimary⟩

/-- **A call on a variable that is given no date succeeds exactly if its source fixes the dates**, if
they are in force and the accessor that takes all of them is there. -/
theorem Navigation.dated_succeeds_iff {m : Model} {n : Navigation} {target : Shape} {x : String}
    {t : Typing} {ambient : Ambient} (hcall : m.callShape? n.owner n.property = some target)
    (htakes : m.takes n.owner n.property (1 + target.axes.length) = true)
    (hargs : n.arguments = [.reference x t])
    (hambient : ∀ axis, ∃ date, ambient.date? axis = some date) :
    (∃ n' after, (n.dated m).from ambient = (.ok n', after)) ↔
      target.FixedBy (m.shapeAt? n.owner) := by
  have hreceiver : n.receiver? = some (.reference x t) := congrArg List.head? hargs
  have hexplicit : n.explicit = [] := congrArg List.tail hargs
  have hlt : n.explicit.length < target.axes.length := by
    rw [hexplicit]
    exact List.length_pos_of_mem (List.mem_of_mem_head? target.axes_head)
  have hatom := Expression.dated_of_isAtom (m := m) (e := .reference x t) trivial ambient
  have hrun : (n.dated m).from ambient = n.settledFrom m ambient := by
    apply dated_from
    have hatoms : ∀ e ∈ n.arguments, e.IsAtom := by
      rw [hargs]
      exact List.forall_mem_singleton.2 trivial
    exact Expression.datedAll_of_isAtom hatoms ambient
  have havailable : ∀ axis, ∃ date, Available m (.reference x t) ambient axis date := by
    intro axis
    obtain ⟨date, hdate⟩ := hambient axis
    exact ⟨date, .inr ⟨nofun, hdate⟩⟩
  have hfills : (∃ dates, Fills (Available m (.reference x t) ambient) target (m.shapeAt? n.owner) []
      dates) ↔ target.FixedBy (m.shapeAt? n.owner) :=
    exists_fills_iff havailable
  rw [hrun, ← hfills, ← hexplicit]
  constructor
  · rintro ⟨n', after, hok⟩
    by_contra hnone
    rw [settledFrom_of_forall_not_fills hreceiver hatom hcall hlt (not_exists.1 hnone)] at hok
    cases (Prod.mk.inj hok).1
  · rintro ⟨dates, hdates⟩
    have hlength : (n.supply dates).arguments.length = 1 + target.axes.length := by
      show (n.arguments.take 1 ++ dates).length = _
      rw [hargs, List.length_append, hdates.length_eq]
      rfl
    rw [settledFrom_of_fills hreceiver hatom hcall hlt hdates, called_of_takes (hlength ▸ htakes)]
    exact ⟨_, _, rfl⟩

/-! ### Names that accessors do not share -/

/-- No qualified property bears the name of a property in the same list. -/
def Members.Unshadowed (ms : Members) : Prop :=
  ∀ p ∈ ms.properties, ∀ q ∈ ms.qualified, q.name ≠ p.name

/-- No qualified property that an element declares bears the name of one of its properties. -/
def Model.Unshadowed (m : Model) : Prop :=
  (∀ c ∈ m.classes.entries, c.toMembers.Unshadowed) ∧
    ∀ a ∈ m.associations.entries, a.toMembers.Unshadowed

/-- No property that a class presents has a name that ends as those of range accessors. -/
def Model.NoRangeNames (m : Model) : Prop :=
  ∀ c ∈ m.classes.entries, ∀ p ∈ m.presented c, Text.dropEnding? Naming.rangeEnding p.name = none

instance : DecidablePred Members.Unshadowed := fun ms =>
  inferInstanceAs (Decidable (∀ p ∈ ms.properties, ∀ q ∈ ms.qualified, q.name ≠ p.name))

instance : DecidablePred Model.Unshadowed := fun _ => inferInstanceAs (Decidable (_ ∧ _))

instance : DecidablePred Model.NoRangeNames := fun m =>
  inferInstanceAs (Decidable (∀ c ∈ m.classes.entries, ∀ p ∈ m.presented c,
    Text.dropEnding? Naming.rangeEnding p.name = none))

theorem Naming.ne_range_of_dropEnding? {name : String}
    (h : Text.dropEnding? Naming.rangeEnding name = none) (s : String) : name ≠ range s := by
  rintro rfl
  rw [range, Text.dropEnding?_append] at h
  cases h

namespace Model

/-! ### What is put into a list -/

section OneList

variable {m : Model} {filter : RangeFilter} {sourceOf : Property → Option String} {members : Members}

/-- The accessors under the name of a replaced property are those of its edge. -/
theorem mem_qualified_of_mem_replaced (hpristine : members.Pristine) (hunshadowed : members.Unshadowed)
    {p : Property} (hp : p ∈ (m.milestonedMembers filter sourceOf members).replaced)
    (hrange : ∀ s, p.name ≠ Naming.range s) :
    p ∈ members.properties ∧ ∃ e, m.edge? sourceOf p = some e ∧
      ∀ form ∈ accessorForms (m.shapeAt? e.source) e.shape filter, e.accessorName form = p.name →
        e.accessorOf form ∈ (m.milestonedMembers filter sourceOf members).qualified := by
  obtain ⟨e, he, rfl⟩ : ∃ e ∈ m.edgesOf sourceOf members, e.property = p := by
    refine (mem_milestonedMembers_replaced hp).resolve_left fun hmem => ?_
    rw [hpristine.replaced] at hmem
    cases hmem
  obtain ⟨p, hmem, hedge⟩ := mem_edgesOf.1 he
  obtain rfl := property_of_edge? hedge
  -- cut the list at the property, before which no edge has its name
  obtain ⟨before, after, hproperties, hbefore⟩ := List.eq_append_cons_of_mem hmem
  have hahead := (mem_replaced_iff_of_edge? hpristine.replaced hproperties hbefore hedge).1 hp
  have hother : ∀ e' ∈ before.filterMap (m.edge? sourceOf), ∀ q ∈ m.accessorsOf filter e',
      q.name ≠ e.property.name := by
    intro e' he' q hq hname
    rcases (of_mem_accessorsOf hq).2.2.2 with hplain | hranged
    · exact hahead e' he' (hplain.symm.trans hname)
    · exact hrange _ (hname.symm.trans hranged)
  refine ⟨hmem, e, hedge, fun form hform hname => ?_⟩
  refine (mem_qualified_iff_of_edge? hpristine.qualified hproperties hedge ?_ hform).2 ⟨?_, ?_⟩
  · exact fun e' he' hmem => hother e' he' _ hmem hname
  · intro hkey
    obtain ⟨q, hq, hkey⟩ := List.mem_map.1 hkey
    exact hunshadowed _ hmem q hq ((congrArg Prod.fst hkey).trans hname)
  · intro e' he' hkey
    obtain ⟨q, hq, hkey⟩ := List.mem_map.1 hkey
    exact hother e' he' q hq ((congrArg Prod.fst hkey).trans hname)

end OneList

/-! ### What the class shows of it -/

section OneClass

variable {m m' : Model} {settings : Settings} {report : Report} {c c' : Class} {as : List Association}
variable (hpristine : m.Pristine) (howned : m.Owned) (hdistinct : m.NamesDistinct)
variable (hranges : m.NoRangeNames) (hunshadowed : m.Unshadowed) (h : m.Compiles settings report m')
variable (hc : c ∈ m.classes.entries) (hcompiled : c.Compiled m settings.rangeFilter as c')
variable (hprepared : c.Prepared m settings.rangeFilter (m.arrangement m') c')

include hpristine howned hranges hunshadowed h hc hcompiled hprepared

/-- A property that a class records as replaced has an edge from it, of which it shows every accessor
under the property's name. -/
theorem exists_edge_of_mem_replaced {p : Property} (hp : p ∈ c'.replaced) :
    p ∈ m.presented c ∧ ∃ e sourceOf, m.edge? sourceOf p = some e ∧ e.source = c.path ∧
      ∀ form ∈ accessorForms (m.shapeAt? e.source) e.shape settings.rangeFilter,
        e.accessorName form = p.name → e.accessorOf form ∈ c'.allQualified := by
  rw [hprepared.arranged.replaced] at hp
  rcases List.mem_append.1 hp with hp | hp
  · -- the class declares it
    have hmem := Class.mem_properties_of_mem_replaced hpristine hc hp
    have hpresented : p ∈ m.presented c := List.mem_append_left _ hmem
    have hrange := Naming.ne_range_of_dropEnding? (hranges c hc p hpresented)
    rw [equipped_replaced_eq] at hp
    obtain ⟨-, e, he, haccessors⟩ := mem_qualified_of_mem_replaced (hpristine.classes c hc).members
      (hunshadowed.1 c hc) hp hrange
    obtain ⟨-, -, hsource, rfl⟩ := edge?_eq_some_iff.1 he
    refine ⟨hpresented, e, _, he, (Option.some.inj hsource).symm, fun form hform hname => ?_⟩
    rw [mem_allQualified_of_class hpristine howned h hc hcompiled hprepared
      (e.isGenerated_accessorOf form) ((howned.classes c hc).properties _ hmem), equipped_qualified_eq]
    exact haccessors form hform hname
  · -- an association lists it
    obtain ⟨a', ha', hp⟩ := List.mem_flatMap.1 hp
    obtain ⟨a, ha, hcompiled'⟩ := exists_of_forall₂_right h.forall₂_associations (mem_arrangement.1 ha')
    have hform := hcompiled'.isForm
    have hapristine := hpristine.associations a ha
    rw [hprepared.path] at hp
    have hend := hform.mem_endsOn_of_mem_replacedOn hapristine hp
    have hpresented : p ∈ m.presented c :=
      List.mem_append_right _ (List.mem_flatMap.2 ⟨a, ha, hend⟩)
    have hrange := Naming.ne_range_of_dropEnding? (hranges c hc p hpresented)
    obtain ⟨hmem, hexposing⟩ := Association.mem_endsOn.1 hend
    have hreplaced := (Association.mem_replacedOn.1 hp).1
    rw [hform.replaced] at hreplaced
    obtain ⟨-, e, he, haccessors⟩ := mem_qualified_of_mem_replaced hapristine (hunshadowed.2 a ha)
      hreplaced hrange
    obtain ⟨-, -, hsource, rfl⟩ := edge?_eq_some_iff.1 he
    refine ⟨hpresented, e, _, he, Option.some.inj (hsource.symm.trans hexposing), ?_⟩
    intro form hform hname
    have hexposing' : m.exposingClass? a (e.accessorOf form).type = some c.path := by
      rw [Edge.accessorOf_type]
      exact hexposing
    rw [mem_allQualified_of_association hpristine howned h hc hcompiled hprepared ha
      (e.isGenerated_accessorOf form) ((howned.associations a ha).properties _ hmem) hexposing']
    exact haccessors form hform hname

omit howned hunshadowed in
include hdistinct in
/-- No other edge has a generated accessor of that name. -/
theorem mem_accessorsOf_of_name {e : Edge} {sourceOf : Property → Option String}
    (he : m.edge? sourceOf e.property = some e) (hsource : e.source = c.path)
    (hpresented : e.property ∈ m.presented c) {q : QualifiedProperty} (hmem : q ∈ c'.allQualified)
    (hq : q.isGenerated = true) (hname : q.name = e.property.name) :
    q ∈ m.accessorsOf settings.rangeFilter e := by
  obtain ⟨e', sourceOf', he', hsource', hpresented', hmem⟩ :=
    exists_edge_of_mem_allQualified hpristine h hc hcompiled hprepared hmem hq
  have hrange := Naming.ne_range_of_dropEnding? (hranges c hc _ hpresented)
  have hsame : e'.property.name = e.property.name := by
    rcases (of_mem_accessorsOf hmem).2.2.2 with hplain | hranged
    · exact hplain.symm.trans hname
    · exact (hrange _ (hname.symm.trans hranged)).elim
  have hproperty := List.inj_on_of_nodup_map (hdistinct c hc) hpresented' hpresented hsame
  rw [hproperty] at he'
  obtain rfl := edge_eq_of_edge? he' he (hsource'.trans hsource.symm)
  exact hmem

variable {e : Edge} {sourceOf : Property → Option String}
variable (he : m.edge? sourceOf e.property = some e) (hsource : e.source = c.path)
variable (hpresented : e.property ∈ m.presented c)
variable (haccessors : ∀ form ∈ accessorForms (m.shapeAt? e.source) e.shape settings.rangeFilter,
  e.accessorName form = e.property.name → e.accessorOf form ∈ c'.allQualified)

omit howned hunshadowed in
include hdistinct he hsource hpresented haccessors in
/-- The class shows an accessor without dates exactly if the edge has one. -/
theorem hasAccessor_one_iff :
    c'.hasAccessor e.property.name 1 = true ↔ e.shape.FixedBy (m.shapeAt? e.source) := by
  have hfixed : AccessorForm.noDates ∈
      accessorForms (m.shapeAt? e.source) e.shape settings.rangeFilter ↔
        e.shape.FixedBy (m.shapeAt? e.source) :=
    noDates_mem_accessorForms
  rw [← hfixed, Class.hasAccessor, List.any_eq_true]
  constructor
  · rintro ⟨q, hq, htest⟩
    simp only [Bool.and_eq_true, beq_iff_eq] at htest
    obtain ⟨⟨hname, harity⟩, hgenerated⟩ := htest
    obtain ⟨form, hform, rfl⟩ := mem_accessorsOf.1 (mem_accessorsOf_of_name hpristine hdistinct hranges
      h hc hcompiled hprepared he hsource hpresented hq hgenerated hname)
    -- only the form without dates has a single parameter
    rw [Edge.accessorOf_arity] at harity
    cases form with
    | noDates => exact hform
    | allDates =>
      have haxes : e.shape.axes ≠ [] := by
        cases e.shape <;> exact List.cons_ne_nil _ _
      exact (haxes (List.length_eq_zero_iff.1 (Nat.add_left_cancel harity))).elim
    | range filter => cases harity
  · intro hform
    refine ⟨_, haccessors _ hform rfl, ?_⟩
    simp [Edge.accessorName, Edge.accessorArity]

omit howned hunshadowed in
include hdistinct he hsource hpresented haccessors in
/-- Calls of the edge are dated for its shape, and the accessor with all dates is there. -/
theorem leads_of_edge (hc' : c' ∈ m'.classes.entries) :
    m'.callShape? c'.path e.property.name = some e.shape ∧
      m'.takes c'.path e.property.name (1 + e.shape.axes.length) = true := by
  have hall : e.accessorOf .allDates ∈ c'.allQualified :=
    haccessors _ (List.mem_append_left _ (List.mem_append_left _ List.mem_cons_self)) rfl
  have hranged : Naming.isRange e.property.name = false := by
    rw [Naming.isRange, hranges c hc _ hpresented]
  constructor
  · -- whichever accessor a call of this name asks, it is one of the edge
    obtain ⟨q, hq⟩ : ∃ q, c'.dateAccessor? e.property.name = some q := by
      rw [← Option.isSome_iff_exists, Class.dateAccessor?, List.find?_isSome]
      refine ⟨_, hall, ?_⟩
      simp [QualifiedProperty.isRange, Edge.accessorName, hranged]
    obtain ⟨hmem, hname, hgenerated, -⟩ := Class.of_dateAccessor? hq
    have hown := mem_accessorsOf_of_name hpristine hdistinct hranges h hc hcompiled hprepared he hsource
      hpresented hmem hgenerated hname
    obtain ⟨-, ⟨t, ht, hshape, -⟩, -, -⟩ := edge?_eq_some_iff.1 he
    rw [callShape?, class?_path hc', Option.bind_some, hq, Option.bind_some,
      (of_mem_accessorsOf hown).2.1, shapeOf?_frame h.frame, shapeOf?, ht]
    exact hshape
  · rw [takes, class?_path hc']
    refine List.any_eq_true.2 ⟨_, hall, ?_⟩
    simp [Edge.accessorName, Edge.accessorArity]

end OneClass

/-! ### Calls without dates -/

variable {m m' : Model} {settings : Settings} {report : Report}

/-- **The rewriting of edges and the dating of calls agree on when dates may be left out.**  Let no name
that a class presents be that of another property, of a range accessor or of a qualified property
declared beside it.  In the compiled model, let a class record a property as replaced, and let dates be
in force on both axes.  A call of the property on a variable that is given no date succeeds exactly if
the class shows a generated accessor of that name that takes none; and this is so exactly if the shape
of the class fixes a date on each axis of the shape that the property leads to. -/
theorem omits_iff_of_compile (hcompile : m.compile .builtin settings = .ok (report, m'))
    (hpristine : m.Pristine) (howned : m.Owned) (hdistinct : m.NamesDistinct)
    (hranges : m.NoRangeNames) (hunshadowed : m.Unshadowed) {c' : Class}
    (hc' : c' ∈ m'.classes.entries) {p : Property} (hp : p ∈ c'.replaced) :
    ∃ target, m'.shapeOf? p.type = some target ∧
      (c'.hasAccessor p.name 1 = true ↔ target.FixedBy c'.shape?) ∧
      ∀ (n : Navigation) (x : String) (t : Typing) (ambient : Ambient), n.owner = c'.path →
        n.property = p.name → n.arguments = [.reference x t] →
          (∀ axis, ∃ date, ambient.date? axis = some date) →
            ((∃ n' after, (n.dated m').from ambient = (.ok n', after)) ↔
              c'.hasAccessor p.name 1 = true) := by
  have h := compiles_of_compile hcompile
  obtain ⟨c, hc, hcompiled, hprepared⟩ := h.exists_source hpristine howned hdistinct hc'
  obtain ⟨hpresented, e, sourceOf, he, hsource, haccessors⟩ :=
    exists_edge_of_mem_replaced hpristine howned hranges hunshadowed h hc hcompiled hprepared hp
  obtain ⟨-, ⟨t, ht, hshape, htarget⟩, -, rfl⟩ := edge?_eq_some_iff.1 he
  have hiff := hasAccessor_one_iff hpristine hdistinct hranges h hc hcompiled hprepared he hsource
    hpresented haccessors
  have hshape' : c'.shape? = m.shapeAt? e.source := by
    rw [hcompiled.shape?, shapeAt?, hsource, class?_path hc]
    rfl
  obtain ⟨hcall, htakes⟩ := leads_of_edge hpristine hdistinct hranges h hc hcompiled hprepared he hsource
    hpresented haccessors hc'
  refine ⟨e.shape, ?_, hshape' ▸ hiff, ?_⟩
  · rw [shapeOf?_frame h.frame, shapeOf?, ht]
    exact hshape
  · intro n x t ambient howner hproperty hargs hambient
    rw [← howner, ← hproperty] at hcall htakes
    rw [Navigation.dated_succeeds_iff hcall htakes hargs hambient, hiff, howner, shapeAt?,
      class?_path hc', Option.bind_some, hshape']

/-- A bitemporal class and one with business time only, with an edge either way. -/
def premises : Model :=
  ofDocument {
    classes := [
      { path := "m::Person"
        stereotypes := [.resolved temporalProfile Shape.bitemporal.name]
        properties := [
          { name := "site", type := .ofClass "m::Site", multiplicity := .one
            owner := .ofClass "m::Person" }] },
      { path := "m::Site"
        stereotypes := [.resolved temporalProfile Shape.business.name]
        properties := [
          { name := "tenant", type := .ofClass "m::Person", multiplicity := .zeroOne
            owner := .ofClass "m::Site" }] }] }

/-- The date of a site can be left out on a person, and the dates of a person not on a site, whatever
dates are in force. -/
theorem premises_omits : (premises.compile .builtin {}).toBool = true ∧ ∀ report m',
    premises.compile .builtin {} = .ok (report, m') → ∀ x t (ambient : Ambient),
      (∀ axis, ∃ date, ambient.date? axis = some date) →
        (∃ n' after, ((Navigation.plain "m::Person" "site" (.reference x t) []).dated m').from ambient =
          (.ok n', after)) ∧
        ¬ ∃ n' after, ((Navigation.plain "m::Site" "tenant" (.reference x t) []).dated m').from ambient =
          (.ok n', after) := by
  refine ⟨by decide +kernel, fun report m' hcompile x t ambient hambient => ?_⟩
  -- both classes record their edge, and one has the accessor without dates
  have hshown : ((premises.compile .builtin {}).toOption.any fun result =>
      (result.2.class? "m::Person").any (fun c => c.replaced.any (·.name == "site") &&
        c.hasAccessor "site" 1) &&
      (result.2.class? "m::Site").any fun c => c.replaced.any (·.name == "tenant") &&
        !c.hasAccessor "tenant" 1) = true := by
    decide +kernel
  rw [hcompile] at hshown
  simp only [Except.toOption, Option.any_some, Bool.and_eq_true, Option.any_eq_true, List.any_eq_true,
    beq_iff_eq, Bool.not_eq_true'] at hshown
  obtain ⟨⟨person, hperson, ⟨p, hp, hsite⟩, haccessor⟩, site, hclass, ⟨p', hp', htenant⟩, hnone⟩ :=
    hshown
  obtain ⟨hperson, hpath⟩ := class?_eq_some_iff.1 hperson
  obtain ⟨hclass, hpath'⟩ := class?_eq_some_iff.1 hclass
  obtain ⟨-, -, -, hcall⟩ := omits_iff_of_compile hcompile (by decide +kernel) (by decide +kernel)
    (by decide +kernel) (by decide +kernel) (by decide +kernel) hperson hp
  obtain ⟨-, -, -, hcall'⟩ := omits_iff_of_compile hcompile (by decide +kernel) (by decide +kernel)
    (by decide +kernel) (by decide +kernel) (by decide +kernel) hclass hp'
  constructor
  · rw [hcall _ x t ambient hpath.symm hsite.symm rfl hambient, hsite]
    exact haccessor
  · rw [hcall' _ x t ambient hpath'.symm htenant.symm rfl hambient, htenant, hnone]
    exact Bool.false_ne_true

end Model

end Bitemporal
