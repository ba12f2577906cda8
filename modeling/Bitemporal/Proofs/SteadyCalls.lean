/-
Bitemporal/Proofs/SteadyCalls.lean

Calls mean the same from the moment that edges are replaced.

Where the names that a class presents are apart, the generated accessors of one
name that the class shows lead to one type (`Prepared.typesAgree`).  The order
in which views are renewed then cannot matter to any call
(`Model.Compiles.sameCalls`), and so the bodies that a compilation dates are
settled in the compiled model (`Model.Compiles.settled`).
-/
import Bitemporal.Proofs.Arrangement

namespace Bitemporal

/-! ### Headers in any order -/

/-- What is found in a list is found in one with the same elements, up to what all candidates have in
common. -/
theorem map_find?_of_mem_iff {α β : Type} {l l' : List α} {P : α → Bool} {f : α → β}
    (h : ∀ x, x ∈ l' ↔ x ∈ l) (hf : ∀ x ∈ l, ∀ y ∈ l, P x = true → P y = true → f x = f y) :
    (l'.find? P).map f = (l.find? P).map f := by
  rcases hx : l.find? P with - | x
  · rcases hy : l'.find? P with - | y
    · rfl
    · have hnone := List.find?_eq_none.1 hx y ((h y).1 (List.mem_of_find?_eq_some hy))
      exact (hnone (List.find?_some hy)).elim
  · rcases hy : l'.find? P with - | y
    · have hnone := List.find?_eq_none.1 hy x ((h x).2 (List.mem_of_find?_eq_some hx))
      exact (hnone (List.find?_some hx)).elim
    · rw [Option.map_some, Option.map_some,
        hf y ((h y).1 (List.mem_of_find?_eq_some hy)) x (List.mem_of_find?_eq_some hx)
          (List.find?_some hy) (List.find?_some hx)]

/-- Generated headers of one name lead to one type. -/
def Class.TypesAgree (c : Class) : Prop :=
  ∀ q ∈ c.headers, ∀ q' ∈ c.headers, q.isGenerated = true → q'.isGenerated = true →
    q.name = q'.name → q.type = q'.type

namespace Model

/-- Models whose classes show the same headers, in whatever order, answer calls alike, if types
agree. -/
theorem SameCalls.of_mem_headers {m m' : Model}
    (h : List.Forall₂ (fun c c' : Class => c'.frame = c.frame ∧ ∀ q, q ∈ c'.headers ↔ q ∈ c.headers)
      m.classes.entries m'.classes.entries)
    (htypes : ∀ c ∈ m.classes.entries, c.TypesAgree) : SameCalls m' m := by
  have hframe : m'.frame = m.frame := map_eq_of_forall₂ h And.left
  -- a path finds a class with the same headers, or none, in both models
  have hclass : ∀ path, m.class? path = none ∧ m'.class? path = none ∨
      ∃ c ∈ m.classes.entries, ∃ c', m.class? path = some c ∧ m'.class? path = some c' ∧
        ∀ q, q ∈ c'.headers ↔ q ∈ c.headers := by
    intro path
    have hpath := class?_frame hframe path
    rcases hc : m.class? path with - | c
    · rw [hc, Option.map_none, Option.map_eq_none_iff] at hpath
      exact .inl ⟨rfl, hpath⟩
    · obtain ⟨hmem, rfl⟩ := class?_eq_some_iff.1 hc
      obtain ⟨c', hmem', hcc', hheaders⟩ := exists_of_forall₂_left h hmem
      have hpath' : c'.path = c.path := congrArg Prod.fst hcc'
      exact .inr ⟨c, hmem, c', rfl, hpath' ▸ class?_path hmem', hheaders⟩
  refine ⟨hframe, fun owner property => ?_, fun owner property arity => ?_⟩
  · have hs : m'.shapeOf? = m.shapeOf? := funext (shapeOf?_frame hframe)
    rw [callShape?_eq_headers, callShape?_eq_headers, hs]
    rcases hclass owner with ⟨hc, hc'⟩ | ⟨c, hmem, c', hc, hc', hheaders⟩
    · rw [hc, hc']
    · rw [hc, hc']
      apply congrArg fun t : Option TypeRef => t.bind m.shapeOf?
      refine map_find?_of_mem_iff hheaders fun q hq q' hq' hfound hfound' => ?_
      simp only [Bool.and_eq_true, beq_iff_eq] at hfound hfound'
      exact htypes c hmem q hq q' hq' hfound.1.2 hfound'.1.2 (hfound.1.1.trans hfound'.1.1.symm)
  · rw [takes_eq_headers, takes_eq_headers]
    rcases hclass owner with ⟨hc, hc'⟩ | ⟨c, hmem, c', hc, hc', hheaders⟩
    · rw [hc, hc']
    · rw [hc, hc']
      show c'.headers.any _ = c.headers.any _
      rw [Bool.eq_iff_iff, List.any_eq_true, List.any_eq_true]
      simp only [hheaders]

end Model

/-! ### What generated accessors stem from -/

/-- A generated qualified property that looks like an accessor of the property `p`. -/
def Property.Offers (p : Property) (q : QualifiedProperty) : Prop :=
  q.type = p.type ∧ (q.name = p.name ∨ q.name = Naming.range p.name)

namespace Model

variable {m : Model} {filter : RangeFilter}

theorem offers_of_mem_accessorsOf {e : Edge} {q : QualifiedProperty} (h : q ∈ m.accessorsOf filter e) :
    e.property.Offers q := by
  obtain ⟨-, htype, -, hname⟩ := of_mem_accessorsOf h
  exact ⟨htype, hname⟩

/-- Of properties with names apart, one at most offers accessors of any one name. -/
theorem NamesApart.eq_of_offers (hnames : m.NamesApart) {c : Class} (hc : c ∈ m.classes.entries)
    {p p' : Property} (hp : p ∈ m.presented c) (hp' : p' ∈ m.presented c) {q q' : QualifiedProperty}
    (hq : p.Offers q) (hq' : p'.Offers q') (hname : q.name = q'.name) : p = p' := by
  have happart := hnames c hc
  refine List.inj_on_of_nodup_map happart.nodup hp hp' ?_
  exact happart.eq_of_accessor (List.mem_map_of_mem hp) (List.mem_map_of_mem hp') hq.2
    (hname ▸ hq'.2)

end Model

namespace Class

variable {m : Model} {filter : RangeFilter} {as bs : List Association} {c c' c'' : Class}

theorem mem_headers {q : QualifiedProperty} :
    q ∈ c.headers ↔ q ∈ c.qualified.map QualifiedProperty.header ∨
      q ∈ c.exposedQualified.map QualifiedProperty.header := by
  rw [headers, allQualified, List.map_append, List.mem_append]

variable (hpristine : m.Pristine)

include hpristine in
/-- **A generated accessor that a prepared class shows is offered by a property that the class
presents.** -/
theorem Prepared.exists_offers (h : c.Prepared m filter as c') (hc : c ∈ m.classes.entries)
    (hforms : m.Forms filter as) {q : QualifiedProperty} (hq : q ∈ c'.headers)
    (hgenerated : q.isGenerated = true) : ∃ p ∈ m.presented c, p.Offers q := by
  have hcpristine := hpristine.classes c hc
  rcases mem_headers.1 hq with hq | hq
  · -- the class declares it
    rw [h.headers] at hq
    obtain ⟨q₀, hq₀, rfl⟩ := List.mem_map.1 hq
    change q₀.isGenerated = true at hgenerated
    obtain ⟨e, he, hq₀⟩ := hcpristine.exists_edge_of_mem_equipped hgenerated hq₀
    refine ⟨e.property, List.mem_append_left _ (Model.mem_properties_of_mem_edgesOf he), ?_⟩
    show e.property.Offers q₀
    exact Model.offers_of_mem_accessorsOf hq₀
  · rw [h.arranged.exposedQualified] at hq
    obtain ⟨q₁, hq₁, rfl⟩ := List.mem_map.1 hq
    rcases List.mem_append.1 hq₁ with hq₁ | hq₁
    · change q₁.isGenerated = true at hgenerated
      exact (hcpristine.notMem_exposedQualified hgenerated (List.mem_filter.1 hq₁).1).elim
    · -- an association exposes it
      obtain ⟨b, hb, hq₁⟩ := List.mem_flatMap.1 hq₁
      obtain ⟨a, ha, hform⟩ := hforms b hb
      obtain ⟨e, he, hsource, q₀, hq₀, hheader⟩ :=
        hform.exists_edge_of_mem_qualifiedOn (hpristine.associations a ha) hq₁ hgenerated
      rw [h.path] at hsource
      refine ⟨e.property, List.mem_append_right _ (List.mem_flatMap.2 ⟨a, ha, ?_⟩), ?_⟩
      · rw [← hsource]
        exact Association.IsForm.mem_endsOn_of_edge he
      · rw [← hheader]
        show e.property.Offers q₀
        exact Model.offers_of_mem_accessorsOf hq₀

include hpristine in
theorem Prepared.typesAgree (hnames : m.NamesApart) (h : c.Prepared m filter as c')
    (hc : c ∈ m.classes.entries) (hforms : m.Forms filter as) : c'.TypesAgree := by
  intro q hq q' hq' hgenerated hgenerated' hname
  obtain ⟨p, hp, hoffers⟩ := h.exists_offers hpristine hc hforms hq hgenerated
  obtain ⟨p', hp', hoffers'⟩ := h.exists_offers hpristine hc hforms hq' hgenerated'
  obtain rfl := hnames.eq_of_offers hc hp hp' hoffers hoffers' hname
  exact hoffers.1.trans hoffers'.1.symm

/-- Where every association has a form among the given ones, no header gets lost. -/
theorem Prepared.headers_subset (h : c.Prepared m filter as c') (h' : c.Prepared m filter bs c'')
    (has : m.Forms filter as) (hbs : m.Forms filter bs) (hcovers : m.Covers bs) :
    c'.headers ⊆ c''.headers := by
  intro q hq
  apply mem_headers.2
  rcases mem_headers.1 hq with hq | hq
  · left
    rw [h'.headers, ← h.headers]
    exact hq
  · right
    rw [h.arranged.exposedQualified, List.map_append] at hq
    rw [h'.arranged.exposedQualified, List.map_append]
    refine List.mem_append.2 ((List.mem_append.1 hq).imp id fun hq => ?_)
    obtain ⟨q₁, hq₁, rfl⟩ := List.mem_map.1 hq
    obtain ⟨a', ha', hq₁⟩ := List.mem_flatMap.1 hq₁
    obtain ⟨hq₁, hexposing⟩ := Association.mem_qualifiedOn.1 hq₁
    obtain ⟨a, ha, hform⟩ := has a' ha'
    -- the same association is there in another form
    obtain ⟨b', hb', hpath⟩ := hcovers a ha
    obtain ⟨b, hb, hform'⟩ := hbs b' hb'
    obtain rfl : b = a := m.associations.eq_of_path_eq hb ha (hform'.path.symm.trans hpath)
    have hmem := List.mem_map_of_mem (f := QualifiedProperty.header) hq₁
    rw [hform.headers, ← hform'.headers] at hmem
    obtain ⟨q₂, hq₂, hheader⟩ := List.mem_map.1 hmem
    have htype : q₂.header.type = q₁.header.type := by rw [hheader]
    change q₂.type = q₁.type at htype
    rw [← hheader]
    refine List.mem_map_of_mem (List.mem_flatMap.2 ⟨b', hb', Association.mem_qualifiedOn.2 ⟨hq₂, ?_⟩⟩)
    rw [hform'.exposingClass?, htype, ← hform.exposingClass?, h'.path, ← h.path]
    exact hexposing

end Class

namespace Model

variable {m n n' p : Model} {filter : RangeFilter} {as bs : List Association}

/-- A model on the way from the prepared to the compiled one: every association is there in a form,
and the classes show these. -/
def Prepares (m : Model) (filter : RangeFilter) (n : Model) : Prop :=
  ∃ as, m.Forms filter as ∧ m.Covers as ∧
    List.Forall₂ (Class.Prepared m filter as) m.classes.entries n.classes.entries

/-- **All models on the way answer calls alike.** -/
theorem Prepares.sameCalls (hpristine : m.Pristine) (hnames : m.NamesApart) (h : m.Prepares filter n)
    (h' : m.Prepares filter n') : SameCalls n' n := by
  obtain ⟨as, has, hcovers, hclasses⟩ := h
  obtain ⟨bs, hbs, hcovers', hclasses'⟩ := h'
  apply SameCalls.of_mem_headers
  · refine forall₂_comp hclasses.flip hclasses' fun {c' c c''} hc' hc'' => ?_
    refine ⟨hc''.frame.trans hc'.frame.symm, fun q => ⟨fun hq => ?_, fun hq => ?_⟩⟩
    · exact hc''.headers_subset hc' hbs has hcovers hq
    · exact Class.Prepared.headers_subset hc' hc'' has hbs hcovers' hq
  · intro c' hc'
    obtain ⟨c, hc, hprepared⟩ := exists_of_forall₂_right hclasses hc'
    exact hprepared.typesAgree hpristine hnames hc has

section Models

variable (hpristine : m.Pristine) (howned : m.Owned) (hdistinct : m.NamesDistinct)

include hpristine howned hdistinct in
theorem prepares_prepared (filter : RangeFilter) : m.Prepares filter (m.prepared filter) := by
  refine ⟨_, m.forms_milestonedAssociations filter, m.covers_milestonedAssociations filter, ?_⟩
  refine List.forall₂_map_right_iff.2 (List.forall₂_same.2 fun c hc => ?_)
  refine ⟨?_, ?_, Class.arranged_renewedAll hpristine howned hdistinct filter hc, ?_⟩
  · rw [Class.renewedAll_frame, Class.equipped_frame]
  · rw [Class.renewedAll_properties]
  · rw [Class.renewedAll_qualified]

include hpristine howned hdistinct in
/-- Renewing views of forms and dating bodies stays on the way. -/
theorem Between.prepares (hforms : m.Forms filter bs) (hbs : (bs.map Association.path).Nodup)
    (h : (m.prepared filter).Between bs n) : m.Prepares filter n := by
  obtain ⟨cs, hcs, hclasses⟩ := h
  obtain ⟨as, has, hcovers, hprepared⟩ := prepares_prepared hpristine howned hdistinct filter
  have hforms' : m.Forms filter (as ++ cs) := has.append (hforms.subset hcs.subset)
  refine ⟨_, ?_, hcovers.moved cs, ?_⟩
  · refine hforms'.subset (List.append_subset.2 ⟨?_, List.subset_append_right as cs⟩)
    exact fun a ha => List.mem_append_left cs (List.mem_filter.1 ha).1
  · have hmem := (List.forall₂_and_left _ _).2 ⟨fun _ hc => hc, hprepared⟩
    refine forall₂_comp hmem hclasses fun {c c' c''} hc hc'' => ?_
    obtain ⟨hc, hc'⟩ := hc
    refine ⟨hc''.frame.trans hc'.frame, ?_, ?_, hc''.2.trans hc'.headers⟩
    · rw [hc''.1]
      exact (Class.renewedAll_properties _ _ _).trans hc'.properties
    have harranged := hc'.arranged.renewedAll hpristine howned hdistinct hc hforms'
      ((hcs.map Association.path).nodup hbs) hc'.path
    rw [hc''.1, Class.renewedAll_of_frame (m.prepared_frame filter)]
    exact ⟨harranged.exposed, harranged.exposedQualified, harranged.replaced⟩

variable {m' : Model} {settings : Settings} {report : Report}

include hpristine howned in
/-- **The prepared and the compiled model answer calls alike**, and so does every model between. -/
theorem Compiles.sameCalls (hnames : m.NamesApart) (h : m.Compiles settings report m')
    (hn : (m.prepared settings.rangeFilter).Between
      (m.changedAssociations settings.rangeFilter m') n) :
    SameCalls n (m.prepared settings.rangeFilter) := by
  obtain ⟨hforms, hpaths⟩ := h.changedAssociations_forms
  have hprepared := prepares_prepared hpristine howned hnames.distinct settings.rangeFilter
  exact hprepared.sameCalls hpristine hnames
    (hn.prepares hpristine howned hnames.distinct hforms hpaths)

/-! ### Settled bodies -/

theorem LeavesDateNames.notMem_of_mem_presented (h : m.LeavesDateNames) {c : Class}
    (hc : c ∈ m.classes.entries) {p : Property} (hp : p ∈ m.presented c) : p.name ∉ dateNames := by
  rcases List.mem_append.1 hp with hp | hp
  · exact h.1 c hc p hp
  · obtain ⟨a, ha, hp⟩ := List.mem_flatMap.1 hp
    exact h.2 a ha p (Association.mem_endsOn.1 hp).1

include hpristine howned hdistinct in
/-- The dates of a class are properties that no call dates. -/
theorem callShape?_date (hdates : m.LeavesDateNames) (path : String) (axis : Axis) :
    (m.prepared filter).callShape? path axis.name = none := by
  obtain ⟨as, has, -, hclasses⟩ := prepares_prepared hpristine howned hdistinct filter
  rw [callShape?]
  rcases hclass : (m.prepared filter).class? path with - | c'
  · rfl
  rw [Option.bind_some]
  rcases hq : c'.dateAccessor? axis.name with - | q
  · rfl
  -- the accessor would be offered by a property with the name of a date
  exfalso
  obtain ⟨c, hc, hprepared⟩ := exists_of_forall₂_right hclasses (class?_eq_some_iff.1 hclass).1
  obtain ⟨hmem, haccessor, hgenerated, -⟩ := Class.of_dateAccessor? hq
  have hheader : q.header ∈ c'.headers := List.mem_map_of_mem hmem
  obtain ⟨p, hp, hoffers⟩ := hprepared.exists_offers hpristine hc has hheader hgenerated
  have hname : axis.name ∈ dateNames := by
    cases axis <;> decide
  rcases hoffers.2 with he | he
  · have hpname := hdates.notMem_of_mem_presented hc hp
    rw [← he, show q.header.name = axis.name from haccessor] at hpname
    exact hpname hname
  · have hlength := congrArg String.length he
    rw [show q.header.name = axis.name from haccessor, Naming.range, String.length_append] at hlength
    have hending : Naming.rangeEnding.length = 18 := by decide
    have haxis : axis.name.length ≤ 14 := by cases axis <;> decide
    omega

theorem SameCalls.settled (h : SameCalls n m) : Navigation.Settled n = Navigation.Settled m := by
  funext navigation
  simp only [Navigation.Settled, h.callShape?, h.takes]

theorem Dates.settled {qs qs' : List QualifiedProperty} (h : m.Dates qs qs')
    (hreceived : ∀ q ∈ qs, q.Received)
    (hopening : ∀ q, (m.openingDates q).All (Expression.Settled m)) : ∀ q' ∈ qs', q'.Settled m := by
  intro q' hq' hgenerated
  obtain ⟨q, hq, hdate⟩ := exists_of_forall₂_right h hq'
  rw [QualifiedProperty.isGenerated_of_dateBody hdate] at hgenerated
  obtain ⟨after, hbody⟩ := QualifiedProperty.body_of_dateBody hdate hgenerated
  exact (Expression.settledAll_datedAll (hreceived q hq hgenerated) (hopening q) hbody).1

include hpristine howned in
/-- **The bodies of a compiled model are settled in it.** -/
theorem Compiles.settled (hnames : m.NamesApart) (hdates : m.LeavesDateNames)
    (hreceived : m.Received) (h : m.Compiles settings report m') : m'.Settled := by
  have hopening : ∀ q, ((m.prepared settings.rangeFilter).openingDates q).All
      (Expression.Settled (m.prepared settings.rangeFilter)) := by
    intro q
    refine openingDates_all q fun this _ c _ axis => ⟨⟨List.cons_ne_nil _ _, ?_⟩, trivial, trivial⟩
    intro target htarget
    have hnone : (m.prepared settings.rangeFilter).callShape? c.path axis.name = none :=
      callShape?_date hpristine howned hnames.distinct hdates c.path axis
    cases hnone.symm.trans htarget
  -- settled before the last renewals is settled after them
  have hafter : ∀ q : QualifiedProperty, q.Settled (m.prepared settings.rangeFilter) → q.Settled m' := by
    intro q hq hgenerated
    rw [(h.sameCalls hpristine howned hnames h.between).settled]
    exact hq hgenerated
  constructor
  · intro c' hc' q hq
    obtain ⟨c, hc, hcompiled⟩ := exists_of_forall₂_right h.forall₂_classes hc'
    exact hafter q (hcompiled.dates.settled (hreceived.equipped hc _) hopening q hq)
  · intro a' ha' q hq
    obtain ⟨a, ha, hcompiled⟩ := exists_of_forall₂_right h.forall₂_associations ha'
    obtain ⟨n, hn, hdated⟩ := hcompiled.dates
    have hsame := h.sameCalls hpristine howned hnames hn
    exact hafter q ((hdated.congr hsame).settled (hreceived.milestoned ha _) hopening q hq)

end Models

end Model

end Bitemporal
