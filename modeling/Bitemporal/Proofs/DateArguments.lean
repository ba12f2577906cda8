/-
Bitemporal/Proofs/DateArguments.lean

Which arguments are taken for dates.

Dating knows a call by its name: where the owner has a date accessor of that
name, the explicit arguments are taken for dates, also if the owner declares a
qualified property of that name that takes something else.  A call *suits* the
accessors at its owner if what it gives them are dates (`Navigation.Suits`).

Where every call suits, every call that comes of it does, one call at a time
(`Navigation.Settles.suits`) and in a run (`Expression.suits_dated`): the dates
in force stay dates.  The generated accessors that a class of a compiled model
shows are those of its edges and of the ends exposed on it (`Model.Accounts`),
and so none is given anything but dates.

Conversely a call that becomes a call of an accessor takes along what it was
given (`Expression.everywhere_of_follows`).  The main statement,
`Model.givesDates_of_compile`, has both directions.
-/
import Bitemporal.Proofs.Navigations
import Bitemporal.Proofs.Propagation
import Bitemporal.Proofs.References
import Bitemporal.Proofs.Scope

namespace Bitemporal

/-! ### Calls that are given dates -/

/-- The expression is typed as a date. -/
def Expression.IsDate (e : Expression) : Prop :=
  e.typing.type = .primitive .date

instance : DecidablePred Expression.IsDate := fun e =>
  inferInstanceAs (Decidable (e.typing.type = _))

namespace Model

/-- The accessors that an association gets for the edges among its ends. -/
def endAccessors (m : Model) (filter : RangeFilter) (a : Association) : List QualifiedProperty :=
  news QualifiedProperty.key (a.qualified.map QualifiedProperty.key)
    ((m.associationEdges a).flatMap (m.accessorsOf filter))

/-- The accessors that are generated for the class of this path: those of the edges it declares, and
those of the ends that associations expose on it. -/
def accessorsAt (m : Model) (filter : RangeFilter) (path : String) : List QualifiedProperty :=
  (m.class? path).toList.flatMap (m.ownAccessors filter) ++
    m.associations.entries.flatMap fun a =>
      (m.endAccessors filter a).filter fun q => m.exposingClass? a q.type == some path

end Model

namespace Navigation

/-- Every explicit argument is a date. -/
def GivesDates (n : Navigation) : Prop :=
  ∀ a ∈ n.explicit, a.IsDate

instance : DecidablePred GivesDates := fun n => inferInstanceAs (Decidable (∀ a ∈ n.explicit, a.IsDate))

/-- The navigation calls, by its name and number of parameters, a generated accessor that its owner
has. -/
def CallsAccessor (m : Model) (n : Navigation) : Prop :=
  ∃ count, n.access = .qualified count ∧ m.takes n.owner n.property count.toNat = true

instance (m : Model) : DecidablePred (CallsAccessor m) := fun n =>
  match h : n.access with
  | .property => .isFalse fun ⟨_, hcall, _⟩ => nomatch h.symm.trans hcall
  | .qualified count =>
    decidable_of_iff (m.takes n.owner n.property count.toNat = true) (by simp [CallsAccessor, h])

/-- The navigation gives dates only to the accessors of its name at its owner: what it supplies to a
date accessor are dates, and so is all that it gives to one that it calls. -/
def Suits (m : Model) (filter : RangeFilter) (n : Navigation) : Prop :=
  ∀ q ∈ m.accessorsAt filter n.owner, q.name = n.property →
    (q.isRange = false → ∀ target ∈ m.shapeOf? q.type,
      ∀ a ∈ n.explicit.take target.axes.length, a.IsDate) ∧
    (n.access = .qualified (UInt64.ofNat q.arity) → n.GivesDates)

instance (m : Model) (filter : RangeFilter) : DecidablePred (Suits m filter) := fun n =>
  inferInstanceAs (Decidable (∀ q ∈ m.accessorsAt filter n.owner, q.name = n.property →
    (q.isRange = false → ∀ target ∈ m.shapeOf? q.type,
      ∀ a ∈ n.explicit.take target.axes.length, a.IsDate) ∧
    (n.access = .qualified (UInt64.ofNat q.arity) → n.GivesDates)))

variable {m : Model} {filter : RangeFilter} {n : Navigation}

theorem GivesDates.suits (h : n.GivesDates) : n.Suits m filter :=
  fun _ _ _ => ⟨fun _ _ _ a ha => h a (List.mem_of_mem_take ha), fun _ => h⟩

theorem givesDates_plain (owner property : String) (receiver : Expression) :
    (Navigation.plain owner property receiver []).GivesDates :=
  fun _ ha => nomatch ha

/-- Whether a navigation suits does not depend on more of its arguments than their types. -/
theorem Suits.of_typing {arguments : List Expression} (h : n.Suits m filter)
    (htyping : arguments.map Expression.typing = n.arguments.map Expression.typing) :
    Suits m filter { n with arguments } := by
  have hexplicit : arguments.tail.map Expression.typing = n.explicit.map Expression.typing := by
    rw [explicit, List.map_tail, List.map_tail, htyping]
  -- dates are told by their types
  have hdates : ∀ {l l' : List Expression}, l'.map Expression.typing = l.map Expression.typing →
      (∀ a ∈ l, a.IsDate) → ∀ a ∈ l', a.IsDate := by
    intro l l' hmap hl a' ha'
    have hmem := List.mem_map_of_mem (f := Expression.typing) ha'
    rw [hmap] at hmem
    obtain ⟨a, ha, hsame⟩ := List.mem_map.1 hmem
    rw [Expression.IsDate, ← hsame]
    exact hl a ha
  intro q hq hname
  obtain ⟨hsupplied, hgiven⟩ := h q hq hname
  refine ⟨fun hrange target htarget => hdates ?_ (hsupplied hrange target htarget),
    fun hcall => hdates hexplicit (hgiven hcall)⟩
  show (arguments.tail.take target.axes.length).map _ = _
  rw [List.map_take, List.map_take, hexplicit]

end Navigation

/-! ### The accessors that a class shows -/

/-- Every generated accessor that the class shows is, up to its body, one that is generated for it. -/
def Class.Accounted (m : Model) (filter : RangeFilter) (c : Class) : Prop :=
  ∀ q ∈ c.headers, q.isGenerated = true →
    q ∈ (m.accessorsAt filter c.path).map QualifiedProperty.header

namespace Class

variable {m : Model} {filter : RangeFilter} {as : List Association} {c c' : Class}

/-- Equipping a class gives it accessors of its own edges. -/
theorem accounted_equipped (hpristine : m.Pristine) (hc : c ∈ m.classes.entries) :
    (c.equipped m filter).Accounted m filter := by
  have hcpristine := hpristine.classes c hc
  have hclass : m.class? (c.equipped m filter).path = some c := by
    rw [equipped_path]
    exact Model.class?_path hc
  intro q hq hgenerated
  rcases mem_headers.1 hq with hq | hq
  · obtain ⟨q₀, hq₀, rfl⟩ := List.mem_map.1 hq
    rw [Model.equipped_qualified] at hq₀
    rcases List.mem_append.1 hq₀ with hq₀ | hq₀
    · exact (hcpristine.members.notMem_qualified (q := q₀) hgenerated hq₀).elim
    · refine List.mem_map_of_mem (List.mem_append_left _ ?_)
      rw [hclass]
      exact List.mem_flatMap.2 ⟨c, List.mem_singleton_self c, hq₀⟩
  · obtain ⟨q₀, hq₀, rfl⟩ := List.mem_map.1 hq
    have hexposed : q₀ ∈ c.exposedQualified := by
      rw [← c.withDates_exposedQualified]
      exact hq₀
    exact (hcpristine.notMem_exposedQualified (q := q₀) hgenerated hexposed).elim

/-- Renewing the views of forms adds accessors of ends only. -/
theorem Accounted.rearranged (hpristine : m.Pristine) (hforms : m.Forms filter as)
    (h : c.Accounted m filter) (h' : Class.Rearranged m as c c') : c'.Accounted m filter := by
  have hpath : c'.path = c.path := congrArg Prod.fst h'.frame
  intro q hq hgenerated
  rw [hpath]
  rcases mem_headers.1 hq with hq | hq
  · rw [h'.2] at hq
    exact h q (mem_headers.2 (.inl hq)) hgenerated
  · obtain ⟨q₁, hq₁, rfl⟩ := List.mem_map.1 hq
    rw [h'.1] at hq₁
    rcases mem_exposedQualified_renewedAll hq₁ with hq₁ | ⟨b, hb, hq₁⟩
    · exact h _ (mem_headers.2 (.inr (List.mem_map_of_mem hq₁))) hgenerated
    · -- an association exposes it, which has it in the form before dating
      obtain ⟨a, ha, hform⟩ := hforms b hb
      obtain ⟨hq₁, hexposing⟩ := Association.mem_qualifiedOn.1 hq₁
      obtain ⟨q₀, hq₀, hheader⟩ := hform.exists_header hq₁
      have htype : q₀.header.type = q₁.header.type := by rw [hheader]
      change q₀.type = q₁.type at htype
      rw [hform.exposingClass?, ← htype] at hexposing
      rw [← hheader] at hgenerated ⊢
      rw [a.milestoned_qualified] at hq₀
      rcases List.mem_append.1 hq₀ with hq₀ | hq₀
      · exact ((hpristine.associations a ha).notMem_qualified (q := q₀) hgenerated hq₀).elim
      · refine List.mem_map_of_mem (List.mem_append_right _ (List.mem_flatMap.2 ⟨a, ha, ?_⟩))
        exact List.mem_filter.2 ⟨hq₀, beq_iff_eq.2 hexposing⟩

end Class

namespace Model

/-- The generated accessors that the classes of `d` show are those that are generated for them in
`m`. -/
structure Accounts (m : Model) (filter : RangeFilter) (d : Model) : Prop where
  frame : d.frame = m.frame
  classes : ∀ c ∈ d.classes.entries, c.Accounted m filter

variable {m d : Model} {filter : RangeFilter} {as : List Association}

theorem accounts_prepared (hpristine : m.Pristine) (filter : RangeFilter) :
    m.Accounts filter (m.prepared filter) := by
  refine ⟨m.prepared_frame filter, fun c hc => ?_⟩
  obtain ⟨c₀, hc₀, rfl⟩ := List.mem_map.1 hc
  exact (Class.accounted_equipped hpristine hc₀).rearranged hpristine
    (m.forms_milestonedAssociations filter) (Class.rearranged_renewedAll m _ _)

/-- They are so in every model on the way from the prepared to the compiled one. -/
theorem Between.accounts (hpristine : m.Pristine) (hforms : m.Forms filter as)
    (h : (m.prepared filter).Between as d) : m.Accounts filter d := by
  refine ⟨h.frame.trans (m.prepared_frame filter), fun c hc => ?_⟩
  obtain ⟨bs, hbs, hclasses⟩ := h
  obtain ⟨c', hc', hrearranged⟩ := exists_of_forall₂_right hclasses hc
  -- renewals ask for frames only, which are those of the model
  rw [Class.Rearranged, Class.renewedAll_of_frame (m.prepared_frame filter)] at hrearranged
  exact ((accounts_prepared hpristine filter).classes c' hc').rearranged hpristine
    (hforms.subset hbs.subset) hrearranged

theorem Accounts.exists_accessor (h : m.Accounts filter d) {path : String} {c : Class}
    (hc : d.class? path = some c) {q : QualifiedProperty} (hq : q ∈ c.allQualified)
    (hgenerated : q.isGenerated = true) :
    ∃ q₀ ∈ m.accessorsAt filter path, q₀.header = q.header := by
  obtain ⟨hmem, rfl⟩ := class?_eq_some_iff.1 hc
  exact List.mem_map.1 (h.classes c hmem q.header (List.mem_map_of_mem hq) hgenerated)

/-- What takes a number of arguments is an accessor that is generated for the owner. -/
theorem Accounts.exists_of_takes (h : m.Accounts filter d) {owner property : String} {arity : Nat}
    (htakes : d.takes owner property arity = true) :
    ∃ q ∈ m.accessorsAt filter owner, q.name = property ∧ q.arity = arity := by
  obtain ⟨c, hc, hhas⟩ := (Option.any_eq_true _ _).1 htakes
  obtain ⟨q, hq, hcall⟩ := List.any_eq_true.1 hhas
  simp only [Bool.and_eq_true, beq_iff_eq] at hcall
  obtain ⟨⟨hname, harity⟩, hgenerated⟩ := hcall
  obtain ⟨q₀, hq₀, hheader⟩ := h.exists_accessor hc hq hgenerated
  refine ⟨q₀, hq₀, ?_, ?_⟩
  · exact (congrArg QualifiedProperty.name hheader).trans hname
  · exact (congrArg QualifiedProperty.arity hheader).trans harity

/-- The shape that calls of a name are dated for is that of a date accessor that is generated for the
owner. -/
theorem Accounts.exists_of_callShape? (h : m.Accounts filter d) {owner property : String}
    {target : Shape} (hcall : d.callShape? owner property = some target) :
    ∃ q ∈ m.accessorsAt filter owner, q.name = property ∧ q.isRange = false ∧
      m.shapeOf? q.type = some target := by
  obtain ⟨q, hq, hshape⟩ := Option.bind_eq_some_iff.1 hcall
  obtain ⟨c, hc, hq⟩ := Option.bind_eq_some_iff.1 hq
  obtain ⟨hmem, hname, hgenerated, hrange⟩ := Class.of_dateAccessor? hq
  obtain ⟨q₀, hq₀, hheader⟩ := h.exists_accessor hc hmem hgenerated
  have htype : q₀.header.type = q.header.type := by rw [hheader]
  change q₀.type = q.type at htype
  rw [shapeOf?_frame h.frame, ← htype] at hshape
  refine ⟨q₀, hq₀, ?_, ?_, hshape⟩
  · exact (congrArg QualifiedProperty.name hheader).trans hname
  · exact (congrArg QualifiedProperty.isRange hheader).trans hrange

end Model

/-! ### One call -/

namespace Navigation

variable {m d : Model} {filter : RangeFilter} {n n' : Navigation} {ambient after : Ambient}
  {target : Shape}

/-- What a call that suits supplies to a date accessor are dates. -/
theorem Suits.supplied (h : n.Suits m filter) (hd : m.Accounts filter d)
    (hcall : d.callShape? n.owner n.property = some target) :
    ∀ a ∈ n.explicit.take target.axes.length, a.IsDate := by
  obtain ⟨q, hq, hname, hrange, hshape⟩ := hd.exists_of_callShape? hcall
  exact (h q hq hname).1 hrange target hshape

theorem Suits.givesDates_of_le (h : n.Suits m filter) (hd : m.Accounts filter d)
    (hcall : d.callShape? n.owner n.property = some target)
    (hle : n.explicit.length ≤ target.axes.length) : n.GivesDates := by
  have hsupplied := h.supplied hd hcall
  rwa [List.take_of_length_le hle] at hsupplied

/-- A call of an accessor that suits gives dates only. -/
theorem Suits.givesDates_of_callsAccessor (h : n.Suits m filter) (hd : m.Accounts filter d)
    (hcall : n.CallsAccessor d) : n.GivesDates := by
  obtain ⟨count, haccess, htakes⟩ := hcall
  obtain ⟨q, hq, hname, harity⟩ := hd.exists_of_takes htakes
  apply (h q hq hname).2
  rw [haccess, harity, UInt64.ofNat_toNat]

/-- A call that is answered with the dates of a shape calls an accessor. -/
theorem Answered.callsAccessor (h : n.Answered m target.axes.length) : n.CallsAccessor m := by
  refine ⟨_, h.access, ?_⟩
  have hcount : (UInt64.ofNat (1 + target.axes.length)).toNat = 1 + target.axes.length := by
    cases target <;> rfl
  rw [hcount]
  exact h.accessor

/-- The dates that a receiver binds are dates, if the receiver suits. -/
theorem isDate_of_receiverDates (hd : m.Accounts filter d)
    (hargs : Expression.EverywhereAll (Suits m filter) n.arguments) {axis : Axis} {date : Expression}
    (hbound : (n.receiverDates d).lookup axis = some date) : date.IsDate := by
  obtain ⟨e, he, r, hr, hdate⟩ := receiver_of_receiverDates hbound
  obtain ⟨target, hcall, hlength, hdate⟩ := of_mem_boundDates hdate
  have hreceiver := Expression.everywhereAll_iff.1 hargs e (List.mem_of_mem_head? he)
  have hsuits := (Expression.everywhere_of_navigation? hr hreceiver).1
  exact hsuits.givesDates_of_le hd hcall (Nat.le_of_eq hlength) date hdate

/-- **Settling a call that suits leads to one that suits**, and what it puts in force are dates. -/
theorem Settles.suits (hd : m.Accounts filter d) (h : Settles d n ambient n' after)
    (hn : n.Suits m filter) (hargs : Expression.EverywhereAll (Suits m filter) n.arguments)
    (ha : ambient.All Expression.IsDate) : n'.Suits m filter ∧ after.All Expression.IsDate := by
  cases h with
  | plain hcall => exact ⟨hn, ha⟩
  | overfull hcall hmore => exact ⟨hn, ha.recordSupplied_take (hn.supplied hd hcall)⟩
  | exact hcall hexact htakes =>
    have hdates : n.retargeted.GivesDates := hn.givesDates_of_le hd hcall (Nat.le_of_eq hexact)
    exact ⟨hdates.suits, ha.recordSupplied_take (hn.supplied hd hcall)⟩
  | @filled target dates hcall hless hlength hwritten horigin htakes =>
    have hexplicit : n.GivesDates := hn.givesDates_of_le hd hcall (Nat.le_of_lt hless)
    have hannounced : (announce ambient (d.shapeAt? n.owner) target n.explicit).All
        Expression.IsDate := ha.announce hexplicit
    have hdates : ∀ date ∈ dates, date.IsDate :=
      all_of_origin horigin hexplicit (fun _ _ hbound => isDate_of_receiverDates hd hargs hbound)
        hannounced
    have hsupplied : (n.supply dates).retargeted.GivesDates :=
      fun a ha => hdates a (n.explicit_supply_subset dates ha)
    exact ⟨hsupplied.suits, hannounced.enter hdates⟩

end Navigation

/-! ### A run -/

namespace Expression

variable {m d : Model} {ranges : RangeFilter}

/-- A date all of whose navigations suit. -/
def SuitableDate (m : Model) (ranges : RangeFilter) (e : Expression) : Prop :=
  e.IsDate ∧ e.Everywhere (Navigation.Suits m ranges)

mutual

/-- **Dating keeps to calls that suit**, and to the types of expressions. -/
theorem suits_dated (hd : m.Accounts ranges d) {e e' : Expression} {ambient after : Ambient}
    (he : e.Everywhere (Navigation.Suits m ranges)) (ha : ambient.All (SuitableDate m ranges))
    (h : (dated d e).from ambient = (.ok e', after)) :
    e'.Everywhere (Navigation.Suits m ranges) ∧ after.All (SuitableDate m ranges) := by
  match e with
  | reference n t =>
    obtain ⟨rfl, rfl⟩ := Dating.from_pure_eq_ok.1 h
    exact ⟨trivial, ha⟩
  | literal v t =>
    obtain ⟨rfl, rfl⟩ := Dating.from_pure_eq_ok.1 h
    exact ⟨trivial, ha⟩
  | equal f l r t =>
    obtain ⟨l', r', between, hl, hr, rfl⟩ := dated_equal_eq_ok.1 h
    obtain ⟨hl', hbetween⟩ := suits_dated hd he.1 ha hl
    obtain ⟨hr', hafter⟩ := suits_dated hd he.2 hbetween hr
    exact ⟨⟨hl', hr'⟩, hafter⟩
  | compare f o l r t =>
    obtain ⟨l', r', between, hl, hr, rfl⟩ := dated_compare_eq_ok.1 h
    obtain ⟨hl', hbetween⟩ := suits_dated hd he.1 ha hl
    obtain ⟨hr', hafter⟩ := suits_dated hd he.2 hbetween hr
    exact ⟨⟨hl', hr'⟩, hafter⟩
  | conjunction f os t =>
    obtain ⟨os', hos, rfl⟩ := dated_conjunction_eq_ok.1 h
    obtain ⟨hos', -, hafter⟩ := suitsAll_datedAll hd he ha hos
    exact ⟨hos', hafter⟩
  | filter f s b e t =>
    obtain ⟨s', e', between, hs, he', rfl⟩ := dated_filter_eq_ok.1 h
    obtain ⟨hs', hbetween⟩ := suits_dated hd he.1 ha hs
    obtain ⟨he', hafter⟩ := suits_dated hd he.2 hbetween he'
    exact ⟨⟨hs', he'⟩, hafter⟩
  | navigate site as w t =>
    obtain ⟨as', n', between, has, hn, rfl⟩ := dated_navigate_eq_ok.1 h
    obtain ⟨has', htyping, hbetween⟩ := suitsAll_datedAll hd he.2 ha has
    -- the arguments are dated before the call is settled, and keep their types
    have hcall : Navigation.Suits m ranges { toSite := site, arguments := as', written := w } :=
      Navigation.Suits.of_typing he.1 htyping
    have hsettles := Navigation.settles_of_settle hn
    obtain ⟨hn', hdates⟩ := hsettles.suits hd hcall has' fun axis date hdate =>
      (hbetween axis date hdate).1
    obtain ⟨hargs, heverywhere⟩ := hsettles.everywhere has' fun axis date hdate =>
      (hbetween axis date hdate).2
    exact ⟨⟨hn', hargs⟩, fun axis date hdate => ⟨hdates axis date hdate, heverywhere axis date hdate⟩⟩

theorem suitsAll_datedAll (hd : m.Accounts ranges d) {es es' : List Expression}
    {ambient after : Ambient} (he : EverywhereAll (Navigation.Suits m ranges) es)
    (ha : ambient.All (SuitableDate m ranges)) (h : (datedAll d es).from ambient = (.ok es', after)) :
    EverywhereAll (Navigation.Suits m ranges) es' ∧ es'.map typing = es.map typing ∧
      after.All (SuitableDate m ranges) := by
  match es with
  | [] =>
    obtain ⟨rfl, rfl⟩ := Dating.from_pure_eq_ok.1 h
    exact ⟨trivial, rfl, ha⟩
  | e :: es =>
    obtain ⟨e', es', between, hdated, hes, rfl⟩ := datedAll_cons_eq_ok.1 h
    obtain ⟨he', hbetween⟩ := suits_dated hd he.1 ha hdated
    obtain ⟨hes', htyping, hafter⟩ := suitsAll_datedAll hd he.2 hbetween hes
    refine ⟨⟨he', hes'⟩, ?_, hafter⟩
    rw [List.map_cons, List.map_cons, (outline_of_dated hdated).1, htyping]

end

/-! ### What is given along -/

variable {R : Navigation → Navigation → Prop} {P Q : Navigation → Prop}

theorem typing_of_follows {e e' : Expression} (h : Follows R e e') : e'.typing = e.typing := by
  cases e with
  | reference n t => rw [show e' = reference n t from h]
  | literal v t => rw [show e' = literal v t from h]
  | equal f l r t =>
    obtain ⟨l', r', rfl, -, -⟩ := h
    rfl
  | compare f o l r t =>
    obtain ⟨l', r', rfl, -, -⟩ := h
    rfl
  | conjunction f os t =>
    obtain ⟨os', rfl, -⟩ := h
    rfl
  | filter f s b e t =>
    obtain ⟨s', d, rfl, -, -⟩ := h
    rfl
  | navigate site as w t =>
    obtain ⟨as', n', rfl, -, -, -⟩ := h
    rfl

theorem map_typing_of_followsAll {es es' : List Expression} (h : FollowsAll R es es') :
    es'.map typing = es.map typing := by
  induction es generalizing es' with
  | nil => rw [show es' = [] from h]
  | cons e es ih =>
    obtain ⟨e', es', rfl, he, hes⟩ := h
    rw [List.map_cons, List.map_cons, typing_of_follows he, ih hes]

mutual

/-- **What holds of the calls that were made of some, told of those**: each explicit argument has one
of its type in the call that was made. -/
theorem everywhere_of_follows
    (hR : ∀ {n n' : Navigation}, R n n' → (∀ a ∈ n.explicit, ∃ a' ∈ n'.explicit, a'.typing = a.typing) →
      P n' → Q n)
    {e e' : Expression} (h : Follows R e e') (he' : e'.Everywhere P) : e.Everywhere Q := by
  match e with
  | reference n t => trivial
  | literal v t => trivial
  | equal f l r t =>
    obtain ⟨l', r', rfl, hl, hr⟩ := h
    exact ⟨everywhere_of_follows hR hl he'.1, everywhere_of_follows hR hr he'.2⟩
  | compare f o l r t =>
    obtain ⟨l', r', rfl, hl, hr⟩ := h
    exact ⟨everywhere_of_follows hR hl he'.1, everywhere_of_follows hR hr he'.2⟩
  | conjunction f os t =>
    obtain ⟨os', rfl, hos⟩ := h
    exact everywhereAll_of_followsAll hR hos he'
  | filter f s b e t =>
    obtain ⟨s', d, rfl, hs, hd⟩ := h
    exact ⟨everywhere_of_follows hR hs he'.1, everywhere_of_follows hR hd he'.2⟩
  | navigate site as w t =>
    obtain ⟨as', n', rfl, has, ⟨hreceiver, hkept⟩, hn⟩ := h
    have htyping := map_typing_of_followsAll has
    constructor
    · apply hR hn ?_ he'.1
      intro a ha
      have hmem : a.typing ∈ as'.tail.map typing := by
        rw [List.map_tail, htyping, ← List.map_tail]
        exact List.mem_map_of_mem ha
      obtain ⟨a', ha', hsame⟩ := List.mem_map.1 hmem
      exact ⟨a', hkept ha', hsame⟩
    · -- the arguments are among those of the call that was made
      apply everywhereAll_of_followsAll hR has
      rw [everywhereAll_iff]
      intro a ha
      apply everywhereAll_iff.1 he'.2
      rcases has' : as' with - | ⟨receiver, rest⟩
      · rw [has'] at ha
        cases ha
      · rw [has'] at ha hreceiver hkept
        rcases List.mem_cons.1 ha with rfl | ha
        · exact List.mem_of_mem_head? hreceiver
        · exact n'.explicit_subset (hkept ha)

theorem everywhereAll_of_followsAll
    (hR : ∀ {n n' : Navigation}, R n n' → (∀ a ∈ n.explicit, ∃ a' ∈ n'.explicit, a'.typing = a.typing) →
      P n' → Q n)
    {es es' : List Expression} (h : FollowsAll R es es') (he' : EverywhereAll P es') :
    EverywhereAll Q es := by
  match es with
  | [] => trivial
  | e :: es =>
    obtain ⟨e', es', rfl, he, hes⟩ := h
    exact ⟨everywhere_of_follows hR he he'.1, everywhereAll_of_followsAll hR hes he'.2⟩

end

end Expression

/-! ### Bodies -/

namespace QualifiedProperty

/-- Every navigation in the bodies of some qualified properties has a property. -/
def Throughout (P : Navigation → Prop) (qs : List QualifiedProperty) : Prop :=
  ∀ q ∈ qs, Expression.EverywhereAll P q.body

instance (P : Navigation → Prop) [DecidablePred P] : DecidablePred (Throughout P) := fun qs =>
  inferInstanceAs (Decidable (∀ q ∈ qs, Expression.EverywhereAll P q.body))

theorem throughout_append {P : Navigation → Prop} {qs qs' : List QualifiedProperty} :
    Throughout P (qs ++ qs') ↔ Throughout P qs ∧ Throughout P qs' :=
  List.forall_mem_append

theorem Throughout.imp {P Q : Navigation → Prop} {qs : List QualifiedProperty} (hPQ : ∀ n, P n → Q n)
    (h : Throughout P qs) : Throughout Q qs :=
  fun q hq => Expression.everywhereAll_imp hPQ (h q hq)

end QualifiedProperty

open QualifiedProperty (Throughout throughout_append)

namespace Model

/-- The qualified properties that classes and associations declare. -/
def declared (m : Model) : List QualifiedProperty :=
  m.classes.entries.flatMap (fun c => c.qualified) ++
    m.associations.entries.flatMap fun a => a.qualified

/-- The qualified properties of associations that classes show. -/
def views (m : Model) : List QualifiedProperty :=
  m.classes.entries.flatMap fun c => c.exposedQualified

variable {m m' d : Model} {filter : RangeFilter} {settings : Settings} {report : Report}

/-- The body of an accessor gives nothing to the navigations in it. -/
theorem everywhere_accessor_body {P : Navigation → Prop} {e : Edge} {q : QualifiedProperty}
    (hq : q ∈ m.accessorsOf filter e)
    (h : ∀ owner property receiver, P (.plain owner property receiver [])) :
    Expression.EverywhereAll P q.body := by
  obtain ⟨form, -, rfl⟩ := mem_accessorsOf.1 hq
  have hversions : e.versionsOf.Everywhere P := ⟨h _ _ _, trivial, trivial⟩
  have hpredicate : (e.predicateOf form).Everywhere P :=
    Edge.everywhere_predicateOf form fun _ _ => h _ _ _
  exact ⟨⟨hversions, hpredicate⟩, trivial⟩

theorem suits_milestonedMembers {sourceOf : Property → Option String} {members : Members}
    (h : Throughout (Navigation.Suits m filter) members.qualified) :
    Throughout (Navigation.Suits m filter)
      (m.milestonedMembers filter sourceOf members).qualified := by
  intro q hq
  rcases mem_milestonedMembers_qualified hq with hq | ⟨e, -, hq⟩
  · exact h q hq
  · exact everywhere_accessor_body hq fun _ _ _ => (Navigation.givesDates_plain _ _ _).suits

/-- The dates at the start of a body are dates, of navigations that suit. -/
theorem openingDates_suitable (q : QualifiedProperty) :
    (d.openingDates q).All (Expression.SuitableDate m filter) :=
  openingDates_all q fun _ _ _ _ _ => ⟨rfl, (Navigation.givesDates_plain _ _ _).suits, trivial, trivial⟩

/-- Dating keeps bodies to calls that suit. -/
theorem Dates.suits (hd : m.Accounts filter d) {qs qs' : List QualifiedProperty}
    (h : d.Dates qs qs') (hqs : Throughout (Navigation.Suits m filter) qs) :
    Throughout (Navigation.Suits m filter) qs' := by
  intro q' hq'
  obtain ⟨q, hq, hdate⟩ := exists_of_forall₂_right h hq'
  rcases hgenerated : q.isGenerated with - | -
  · obtain ⟨after, hbody⟩ := QualifiedProperty.body_of_dateBody hdate hgenerated
    exact (Expression.suitsAll_datedAll hd (hqs q hq) (openingDates_suitable q) hbody).1
  · rw [dateBody_of_isGenerated hgenerated] at hdate
    obtain rfl := Except.ok.inj hdate
    exact hqs q hq

theorem suits_milestoned (hm : Throughout (Navigation.Suits m filter) m.declared) {a : Association}
    (ha : a ∈ m.associations.entries) :
    Throughout (Navigation.Suits m filter) (a.milestoned m filter).qualified := by
  apply suits_milestonedMembers
  intro q hq
  exact hm q (List.mem_append_right _ (List.mem_flatMap.2 ⟨a, ha, hq⟩))

/-- **A compilation keeps to calls that suit** in what is declared. -/
theorem Compiles.suits_declared (h : m.Compiles settings report m') (hpristine : m.Pristine)
    (hm : Throughout (Navigation.Suits m settings.rangeFilter) m.declared) :
    Throughout (Navigation.Suits m settings.rangeFilter) m'.declared := by
  obtain ⟨hforms, -⟩ := h.changedAssociations_forms
  refine throughout_append.2 ⟨?_, ?_⟩
  · intro q' hq'
    obtain ⟨c', hc', hq'⟩ := List.mem_flatMap.1 hq'
    obtain ⟨c, hc, hcompiled⟩ := exists_of_forall₂_right h.forall₂_classes hc'
    refine hcompiled.dates.suits (accounts_prepared hpristine _) (suits_milestonedMembers ?_) q' hq'
    rw [Class.withDates_qualified]
    exact fun q hq => hm q (List.mem_append_left _ (List.mem_flatMap.2 ⟨c, hc, hq⟩))
  · intro q' hq'
    obtain ⟨a', ha', hq'⟩ := List.mem_flatMap.1 hq'
    obtain ⟨a, ha, hcompiled⟩ := exists_of_forall₂_right h.forall₂_associations ha'
    obtain ⟨n, hn, hdates⟩ := hcompiled.dates
    exact hdates.suits (hn.accounts hpristine hforms) (suits_milestoned hm ha) q' hq'

/-- What a class shows after a compilation it showed before, or it is of an association as that was
before its bodies were dated, or after. -/
theorem Compiles.suits_views (h : m.Compiles settings report m') (hpristine : m.Pristine)
    (hm : Throughout (Navigation.Suits m settings.rangeFilter) m.declared)
    (hviews : Throughout (Navigation.Suits m settings.rangeFilter) m.views) :
    Throughout (Navigation.Suits m settings.rangeFilter) m'.views := by
  intro q' hq'
  obtain ⟨c', hc', hq'⟩ := List.mem_flatMap.1 hq'
  obtain ⟨c, hc, hcompiled⟩ := exists_of_forall₂_right h.forall₂_classes hc'
  rw [hcompiled.exposedQualified] at hq'
  rcases Class.mem_exposedQualified_renewedAll hq' with hq' | ⟨b, hb, hq'⟩
  · refine hviews q' (List.mem_flatMap.2 ⟨c, hc, ?_⟩)
    rw [← c.withDates_exposedQualified]
    exact hq'
  · have hq' := (Association.mem_qualifiedOn.1 hq').1
    rcases List.mem_append.1 hb with hb | hb
    · obtain ⟨a, ha, rfl⟩ := List.mem_map.1 hb
      exact suits_milestoned hm ha q' hq'
    · rw [h.changedAssociations_eq] at hb
      have hb := (List.mem_filter.1 hb).1
      exact h.suits_declared hpristine hm q'
        (List.mem_append_right _ (List.mem_flatMap.2 ⟨b, hb, hq'⟩))

/-- What becomes of a qualified property that is declared. -/
theorem Compiles.exists_follows (h : m.Compiles settings report m') (hpristine : m.Pristine)
    (hreceived : m.Received) {q : QualifiedProperty} (hq : q ∈ m.declared) :
    ∃ q' ∈ m'.declared, q.Follows (m.Resolves settings.rangeFilter m') q' := by
  obtain ⟨hforms, -⟩ := h.changedAssociations_forms
  have hm' := h.between.carries hpristine hforms
  rcases List.mem_append.1 hq with hq | hq
  · obtain ⟨c, hc, hq⟩ := List.mem_flatMap.1 hq
    obtain ⟨c', hc', hcompiled⟩ := exists_of_forall₂_left h.forall₂_classes hc
    have hdates := hcompiled.dates
    rw [equipped_qualified] at hdates
    have hfollows := follows_of_dates hpristine (carries_prepared hpristine _) hm'
      (hpristine.classes c hc).members.qualified (hreceived.1 c hc) hdates
    obtain ⟨q', hq', hqq'⟩ := exists_of_forall₂_left hfollows hq
    exact ⟨q', List.mem_append_left _ (List.mem_flatMap.2 ⟨c', hc', List.mem_of_mem_take hq'⟩), hqq'⟩
  · obtain ⟨a, ha, hq⟩ := List.mem_flatMap.1 hq
    obtain ⟨a', ha', hcompiled⟩ := exists_of_forall₂_left h.forall₂_associations ha
    obtain ⟨n, hn, hdates⟩ := hcompiled.dates
    rw [a.milestoned_qualified] at hdates
    have hfollows := follows_of_dates hpristine (hn.carries hpristine hforms) hm'
      (hpristine.associations a ha).qualified (hreceived.2 a ha) hdates
    obtain ⟨q', hq', hqq'⟩ := exists_of_forall₂_left hfollows hq
    exact ⟨q', List.mem_append_right _ (List.mem_flatMap.2 ⟨a', ha', List.mem_of_mem_take hq'⟩), hqq'⟩

/-- **Generated accessors are given dates** in a compiled model, if every call gives dates only to the
accessors of its name at its owner.  And only then: if they are, no call of a replaced property that
the accessors of its owner answer is written with anything else, also where the owner declares a
qualified property of that name that takes it. -/
theorem givesDates_of_compile (hcompile : m.compile .builtin settings = .ok (report, m'))
    (hpristine : m.Pristine) :
    (Throughout (Navigation.Suits m settings.rangeFilter) m.declared →
      Throughout (fun n => n.CallsAccessor m' → n.GivesDates) m'.declared ∧
        (Throughout (Navigation.Suits m settings.rangeFilter) m.views →
          Throughout (fun n => n.CallsAccessor m' → n.GivesDates) m'.views)) ∧
    (m.Received → Throughout (fun n => n.CallsAccessor m' → n.GivesDates) m'.declared →
      Throughout (fun n => ∀ c shape, n.LeadsTo m c shape →
        m.Answers settings.rangeFilter c n.property shape.axes.length → n.GivesDates) m.declared) := by
  have h := compiles_of_compile hcompile
  obtain ⟨hforms, -⟩ := h.changedAssociations_forms
  have hdates : ∀ n : Navigation, n.Suits m settings.rangeFilter → n.CallsAccessor m' →
      n.GivesDates := fun n hn hcall =>
    hn.givesDates_of_callsAccessor (h.between.accounts hpristine hforms) hcall
  constructor
  · intro hsuits
    exact ⟨(h.suits_declared hpristine hsuits).imp hdates,
      fun hviews => (h.suits_views hpristine hsuits hviews).imp hdates⟩
  · intro hreceived hgives q hq
    obtain ⟨q', hq', -, hfollows⟩ := h.exists_follows hpristine hreceived hq
    apply Expression.everywhereAll_of_followsAll ?_ hfollows (hgives q' hq')
    intro n n' hresolves hkept hn' c shape hleads hanswers a ha
    -- the call that was made of it is given something of the same type
    obtain ⟨a', ha', htyping⟩ := hkept a ha
    have hdate := hn' (hresolves.answered c shape hleads hanswers).callsAccessor a' ha'
    rwa [Expression.IsDate, htyping] at hdate

/-- A qualified property of the given name that takes a text. -/
def labelled (name : String) : QualifiedProperty :=
  let this : Variable := { name := "this", type := .ofClass "m::K", multiplicity := .one }
  let label : Variable := { name := "label", type := .primitive .string, multiplicity := .one }
  { name, type := .ofClass "m::K", multiplicity := .zeroOne, owner := .ofClass "m::K"
    signature := { parameters := [this, label], result := ⟨.ofClass "m::K", .zeroOne⟩ }
    body := [this.reference] }

/-- A call of it. -/
def labelledCall (name : String) : Navigation where
  owner := "m::K"
  property := name
  access := .qualified 2
  span := none
  arguments := [.reference "this" ⟨.ofClass "m::K", .one⟩,
    .literal (.string "abc") ⟨.primitive .string, .one⟩]

/-- A class with an edge to itself and that qualified property, and with a body that calls both. -/
def labellingClass (name : String) : Class where
  path := "m::K"
  stereotypes := [.resolved temporalProfile Shape.bitemporal.name]
  properties := [
    { name := "next", type := .ofClass "m::K", multiplicity := .zeroOne, owner := .ofClass "m::K" }]
  qualified := [
    labelled name,
    { labelled "twice" with
      signature := {
        parameters := [{ name := "this", type := .ofClass "m::K", multiplicity := .one }]
        result := ⟨.ofClass "m::K", .zeroOne⟩ }
      body := [
        (labelledCall name).toExpression ⟨.ofClass "m::K", .zeroOne⟩,
        (Navigation.plain "m::K" "next" (.reference "this" ⟨.ofClass "m::K", .one⟩) []).toExpression
          ⟨.ofClass "m::K", .zeroOne⟩] }]

def labelling (name : String) : Model :=
  ofDocument { classes := [labellingClass name] }

/-- By another name than that of the edge, the qualified property is not in the way.  By the same
name, its calls give texts to accessors of the edge, although they give it what it takes. -/
theorem labelling_givesDates :
    ((labelling "labelled").compile .builtin {}).toBool = true ∧
      ((labelling "next").compile .builtin {}).toBool = true ∧
        (∀ report m', (labelling "labelled").compile .builtin {} = .ok (report, m') →
          ¬ Throughout (fun n => ¬ n.CallsAccessor m') m'.declared ∧
            Throughout (fun n => n.CallsAccessor m' → n.GivesDates) m'.declared) ∧
          ((labelled "next").isGenerated = false ∧
            (labelledCall "next").access = .qualified (UInt64.ofNat (labelled "next").arity) ∧
              (labelledCall "next").explicit.map Expression.typing =
                (labelled "next").explicitParameters.map Variable.toTyping) ∧
            ∀ report m', (labelling "next").compile .builtin {} = .ok (report, m') →
              ¬ Throughout (fun n => n.CallsAccessor m' → n.GivesDates) m'.declared := by
  refine ⟨by decide +kernel, by decide +kernel, fun report m' hcompile => ⟨?_, ?_⟩,
    by decide +kernel, fun report m' hcompile hgives => ?_⟩
  · have hcalls : ((labelling "labelled").compile .builtin {}).toOption.any
        (fun result =>
          decide (¬ Throughout (fun n => ¬ n.CallsAccessor result.2) result.2.declared)) = true := by
      decide +kernel
    rw [hcompile] at hcalls
    exact of_decide_eq_true hcalls
  · exact ((givesDates_of_compile hcompile (by decide +kernel)).1 (by decide +kernel)).1
  · have hwritten := (givesDates_of_compile hcompile (by decide +kernel)).2 (by decide +kernel) hgives
    -- the call stands in the second body
    obtain ⟨⟨hcall, -⟩, -⟩ := hwritten _ (List.mem_append_left _ (List.mem_flatMap.2
      ⟨labellingClass "next", by decide +kernel, .tail _ (.head _)⟩))
    have hdates := hcall (labellingClass "next") .bitemporal
      ⟨by decide +kernel, ⟨_, List.mem_cons_self, rfl, by decide +kernel⟩, by decide +kernel⟩
      (by decide +kernel)
    revert hdates
    decide +kernel

end Model

end Bitemporal
