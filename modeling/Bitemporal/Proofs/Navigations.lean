/-
Bitemporal/Proofs/Navigations.lean

What becomes of navigations.

Dating keeps the tree of a body: to each navigation that is written belongs
one in the dated body, and what is true of every call and what it is settled
to is true of each such pair, at any depth (`Expression.follows_of_dated`).

A compilation puts the accessors of a class's own edges behind its qualified
properties, before any body is dated and for good (`Class.Carries`).  So they
decide what becomes of a navigation to a property that has been replaced: it
ends as a call with all dates exactly if the first of them that it can mean
leads to that many, and the one with that many parameters is there
(`Model.resolves_of_compile`).
-/
import Bitemporal.Proofs.Arrangement

namespace Bitemporal

/-! ### Written and dated navigations -/

/-- The arguments of a navigation hold these, with the receiver in its place. -/
def Navigation.Keeps (n : Navigation) (arguments : List Expression) : Prop :=
  n.arguments.head? = arguments.head? ∧ arguments.tail ⊆ n.explicit

namespace Expression

mutual

/-- The second expression is the first with each navigation taken to one that it is related to. -/
def Follows (R : Navigation → Navigation → Prop) : Expression → Expression → Prop
  | reference n t, e' => e' = reference n t
  | literal v t, e' => e' = literal v t
  | equal f l r t, e' => ∃ l' r', e' = equal f l' r' t ∧ Follows R l l' ∧ Follows R r r'
  | compare f o l r t, e' => ∃ l' r', e' = compare f o l' r' t ∧ Follows R l l' ∧ Follows R r r'
  | conjunction f os t, e' => ∃ os', e' = conjunction f os' t ∧ FollowsAll R os os'
  | filter f s b e t, e' => ∃ s' d, e' = filter f s' b d t ∧ Follows R s s' ∧ Follows R e d
  | navigate site as w t, e' => ∃ as' n', e' = n'.toExpression t ∧ FollowsAll R as as' ∧
      n'.Keeps as' ∧ R { toSite := site, arguments := as, written := w } n'

/-- The same for lists. -/
def FollowsAll (R : Navigation → Navigation → Prop) : List Expression → List Expression → Prop
  | [], es' => es' = []
  | e :: es, es' => ∃ d ds, es' = d :: ds ∧ Follows R e d ∧ FollowsAll R es ds

end

end Expression

theorem Navigation.Settles.keeps {m : Model} {n n' : Navigation} {ambient after : Ambient}
    (hn : n.HasReceiver) (h : n.Settles m ambient n' after) : n'.Keeps n.arguments := by
  cases h with
  | plain => exact ⟨rfl, List.Subset.refl _⟩
  | overfull => exact ⟨rfl, List.Subset.refl _⟩
  | exact => exact ⟨rfl, List.Subset.refl _⟩
  | filled hcall hless hlength hwritten horigin htakes =>
    rename_i target dates
    constructor
    · show (n.arguments.take 1 ++ dates).head? = n.arguments.head?
      rcases hargs : n.arguments with - | ⟨receiver, explicit⟩
      · exact (hn hargs).elim
      · rfl
    · show n.explicit ⊆ (n.supply dates).explicit
      rw [explicit_supply hn]
      exact hwritten

/-- Settling leaves a call as it is, if it supplies more dates than it should or calls no date accessor,
or makes it a call with all dates. -/
theorem Navigation.Settles.outcome {m : Model} {n n' : Navigation} {ambient after : Ambient}
    (hn : n.HasReceiver) (h : n.Settles m ambient n' after) :
    n'.owner = n.owner ∧ n'.property = n.property ∧
      ((n' = n ∧ ∀ target, m.callShape? n.owner n.property = some target →
          target.axes.length < n.explicit.length) ∨
        ∃ target, m.callShape? n.owner n.property = some target ∧
          n'.access = .qualified (UInt64.ofNat (1 + target.axes.length)) ∧
            n'.arguments.length = 1 + target.axes.length) := by
  cases h with
  | plain hplain =>
    refine ⟨rfl, rfl, .inl ⟨rfl, fun target hcall => ?_⟩⟩
    cases hplain.symm.trans hcall
  | overfull hcall hmore =>
    refine ⟨rfl, rfl, .inl ⟨rfl, fun target hcall' => ?_⟩⟩
    obtain rfl := Option.some.inj (hcall.symm.trans hcall')
    exact hmore
  | @exact target hcall hexact htakes =>
    have hlength : n.arguments.length = 1 + target.axes.length := by
      rw [length_arguments hn, hexact]
    refine ⟨rfl, rfl, .inr ⟨target, hcall, ?_, hlength⟩⟩
    exact congrArg (fun k => Access.qualified (UInt64.ofNat k)) hlength
  | @filled target dates hcall hless hdates hwritten horigin htakes =>
    have hlength : (n.supply dates).arguments.length = 1 + target.axes.length := by
      rw [length_arguments (hasReceiver_supply hn dates), explicit_supply hn, hdates]
    refine ⟨rfl, rfl, .inr ⟨target, hcall, ?_, hlength⟩⟩
    exact congrArg (fun k => Access.qualified (UInt64.ofNat k)) hlength

namespace Expression

variable {m : Model} {R : Navigation → Navigation → Prop}

mutual

/-- **Dating keeps the tree**, and takes each navigation to what its call is settled to. -/
theorem follows_of_dated
    (hR : ∀ {n : Navigation} {arguments n' ambient after}, n.HasReceiver →
      arguments.length = n.arguments.length →
      Navigation.Settles m { n with arguments } ambient n' after → R n n')
    {e e' : Expression} {ambient after : Ambient} (he : e.Received)
    (h : (dated m e).from ambient = (.ok e', after)) : Follows R e e' := by
  match e with
  | reference n t => exact (Dating.from_pure_eq_ok.1 h).1.symm
  | literal v t => exact (Dating.from_pure_eq_ok.1 h).1.symm
  | equal f l r t =>
    obtain ⟨l', r', between, hl, hr, rfl⟩ := dated_equal_eq_ok.1 h
    exact ⟨l', r', rfl, follows_of_dated hR he.1 hl, follows_of_dated hR he.2 hr⟩
  | compare f o l r t =>
    obtain ⟨l', r', between, hl, hr, rfl⟩ := dated_compare_eq_ok.1 h
    exact ⟨l', r', rfl, follows_of_dated hR he.1 hl, follows_of_dated hR he.2 hr⟩
  | conjunction f os t =>
    obtain ⟨os', hos, rfl⟩ := dated_conjunction_eq_ok.1 h
    exact ⟨os', rfl, followsAll_of_datedAll hR he hos⟩
  | filter f s b e t =>
    obtain ⟨s', d, between, hs, hd, rfl⟩ := dated_filter_eq_ok.1 h
    exact ⟨s', d, rfl, follows_of_dated hR he.1 hs, follows_of_dated hR he.2 hd⟩
  | navigate site as w t =>
    obtain ⟨as', n', between, has, hn, rfl⟩ := dated_navigate_eq_ok.1 h
    have hlength := length_datedAll has
    have hsettles := Navigation.settles_of_settle hn
    have hreceiver : Navigation.HasReceiver { toSite := site, arguments := as', written := w } :=
      he.1.of_length hlength
    exact ⟨as', n', rfl, followsAll_of_datedAll hR he.2 has, hsettles.keeps hreceiver,
      hR he.1 hlength hsettles⟩

theorem followsAll_of_datedAll
    (hR : ∀ {n : Navigation} {arguments n' ambient after}, n.HasReceiver →
      arguments.length = n.arguments.length →
      Navigation.Settles m { n with arguments } ambient n' after → R n n')
    {es es' : List Expression} {ambient after : Ambient}
    (he : EverywhereAll Navigation.HasReceiver es)
    (h : (datedAll m es).from ambient = (.ok es', after)) : FollowsAll R es es' := by
  match es with
  | [] => exact (Dating.from_pure_eq_ok.1 h).1.symm
  | e :: es =>
    obtain ⟨d, ds, between, hd, hds, rfl⟩ := datedAll_cons_eq_ok.1 h
    exact ⟨d, ds, rfl, follows_of_dated hR he.1 hd, followsAll_of_datedAll hR he.2 hds⟩

end

end Expression

/-! ### The accessors of a class's own edges -/

namespace Model

/-- The accessors that a class gets for the edges it declares. -/
def ownAccessors (m : Model) (filter : RangeFilter) (c : Class) : List QualifiedProperty :=
  news QualifiedProperty.key (c.qualified.map QualifiedProperty.key)
    ((m.classEdges c).flatMap (m.accessorsOf filter))

/-- The first of them that a call of this name can mean. -/
def ownAccessor? (m : Model) (filter : RangeFilter) (c : Class) (name : String) :
    Option QualifiedProperty :=
  (m.ownAccessors filter c).find? fun q => q.name == name && q.isGenerated && !q.isRange

/-- No association exposes an end on the class that has an accessor of this name. -/
def FreeOfEnds (m : Model) (c : Class) (name : String) : Prop :=
  ∀ a ∈ m.associations.entries, ∀ e ∈ m.associationEdges a, e.source = c.path →
    name ≠ e.property.name ∧ name ≠ Naming.range e.property.name

instance (m : Model) (c : Class) (name : String) : Decidable (m.FreeOfEnds c name) :=
  inferInstanceAs (Decidable (∀ a ∈ m.associations.entries, ∀ e ∈ m.associationEdges a,
    e.source = c.path → name ≠ e.property.name ∧ name ≠ Naming.range e.property.name))

theorem isGenerated_of_mem_ownAccessors {m : Model} {filter : RangeFilter} {c : Class}
    {q : QualifiedProperty} (h : q ∈ m.ownAccessors filter c) : q.isGenerated = true := by
  obtain ⟨e, -, hq⟩ := List.mem_flatMap.1 (mem_of_mem_news h).1
  exact (of_mem_accessorsOf hq).1

end Model

/-- The class `c'` has the accessors of the class `c`, and shows no other generated ones but those of
ends that associations expose on it. -/
structure Class.Carries (m : Model) (filter : RangeFilter) (c c' : Class) : Prop where
  frame : c'.frame = c.frame
  headers : c'.qualified.map QualifiedProperty.header =
    (c.equipped m filter).qualified.map QualifiedProperty.header
  exposed : ∀ q ∈ c'.exposedQualified, q.isGenerated = true →
    ∃ a ∈ m.associations.entries, ∃ e ∈ m.associationEdges a, e.source = c.path ∧
      (q.name = e.property.name ∨ q.name = Naming.range e.property.name)

namespace Class

variable {m : Model} {filter : RangeFilter} {as : List Association} {c c' c'' : Class}

theorem mem_exposedQualified_renewedAll {q : QualifiedProperty}
    (h : q ∈ (renewedAll m as c).exposedQualified) :
    q ∈ c.exposedQualified ∨ ∃ a ∈ as, q ∈ a.qualifiedOn m c.path := by
  induction as generalizing c with
  | nil => exact .inl h
  | cons a as ih =>
    rw [renewedAll_cons] at h
    rcases ih h with h | ⟨b, hb, h⟩
    · rcases List.mem_append.1 h with h | h
      · exact .inl (List.mem_filter.1 h).1
      · exact .inr ⟨a, List.mem_cons_self, h⟩
    · exact .inr ⟨b, List.mem_cons_of_mem a hb, h⟩

/-- Renewing the views of forms and dating bodies keeps what is carried. -/
theorem Carries.rearranged (hpristine : m.Pristine) (hforms : m.Forms filter as)
    (h : c.Carries m filter c') (h' : Class.Rearranged m as c' c'') : c.Carries m filter c'' where
  frame := h'.frame.trans h.frame
  headers := h'.2.trans h.headers
  exposed := by
    intro q hq hgenerated
    rw [h'.1] at hq
    rcases mem_exposedQualified_renewedAll hq with hq | ⟨b, hb, hq⟩
    · exact h.exposed q hq hgenerated
    · -- an association exposes it
      obtain ⟨a, ha, hform⟩ := hforms b hb
      obtain ⟨e, he, hsource, q₀, hq₀, hheader⟩ :=
        hform.exists_edge_of_mem_qualifiedOn (hpristine.associations a ha) hq hgenerated
      have hname : q₀.header.name = q.header.name := by rw [hheader]
      change q₀.name = q.name at hname
      obtain ⟨-, -, -, hname'⟩ := Model.of_mem_accessorsOf hq₀
      have hpath : c'.path = c.path := congrArg Prod.fst h.frame
      exact ⟨a, ha, e, he, hsource.trans hpath, hname ▸ hname'⟩

/-- What a call of a name means is decided by the class's own accessors, unless ends get in its way. -/
theorem Carries.dateAccessor? (hpristine : c.Pristine) (h : c.Carries m filter c') {name : String}
    (hown : (m.ownAccessor? filter c name).isSome = true ∨ m.FreeOfEnds c name) :
    (c'.dateAccessor? name).map QualifiedProperty.header =
      (m.ownAccessor? filter c name).map QualifiedProperty.header := by
  have hdeclared : ((c.qualified.map QualifiedProperty.header).find? fun q =>
      q.name == name && q.isGenerated && !q.isRange) = none := by
    rw [List.find?_eq_none]
    intro q hq
    obtain ⟨q₀, hq₀, rfl⟩ := List.mem_map.1 hq
    have hplain : q₀.header.isGenerated = false := hpristine.members.qualified q₀ hq₀
    rw [hplain, Bool.and_false, Bool.false_and]
    exact Bool.false_ne_true
  have hnew : (((m.ownAccessors filter c).map QualifiedProperty.header).find? fun q =>
      q.name == name && q.isGenerated && !q.isRange) =
        (m.ownAccessor? filter c name).map QualifiedProperty.header := by
    rw [List.find?_map]
    rfl
  rw [map_header_dateAccessor?, Class.headers, allQualified, List.map_append, h.headers,
    Model.equipped_qualified, List.map_append, List.find?_append, List.find?_append, hdeclared,
    Option.none_or, ← Model.ownAccessors, hnew]
  rcases hfound : m.ownAccessor? filter c name with - | q
  · -- nothing that ends have put there bears the name
    rw [hfound] at hown
    have hfree := hown.resolve_left (by simp)
    rw [Option.map_none, Option.none_or, List.find?_eq_none]
    intro q hq hcall
    obtain ⟨q₁, hq₁, rfl⟩ := List.mem_map.1 hq
    simp only [Bool.and_eq_true, beq_iff_eq] at hcall
    obtain ⟨a, ha, e, he, hsource, hname⟩ := h.exposed q₁ hq₁ hcall.1.2
    have hends := hfree a ha e he hsource
    rw [← show q₁.name = name from hcall.1.1] at hends
    exact hname.elim hends.1 hends.2
  · rfl

theorem Carries.hasAccessor_of_mem (h : c.Carries m filter c') {name : String} {arity : Nat}
    (hmem : (name, arity) ∈ (m.ownAccessors filter c).map QualifiedProperty.key) :
    c'.hasAccessor name arity = true := by
  obtain ⟨q, hq, hkey⟩ := List.mem_map.1 hmem
  obtain ⟨hname, harity⟩ := Prod.mk.inj hkey
  rw [hasAccessor_eq_headers, List.any_eq_true]
  refine ⟨q.header, ?_, ?_⟩
  · rw [Class.headers, allQualified, List.map_append, h.headers, Model.equipped_qualified]
    refine List.mem_append_left _ (List.mem_map_of_mem (List.mem_append_right _ ?_))
    exact hq
  · show (q.name == name && q.arity == arity && q.isGenerated) = true
    rw [Model.isGenerated_of_mem_ownAccessors hq, hname, harity, beq_self_eq_true, beq_self_eq_true]
    rfl

theorem Carries.mem_of_hasAccessor (hpristine : c.Pristine) (h : c.Carries m filter c')
    {name : String} {arity : Nat} (hfree : m.FreeOfEnds c name)
    (hhas : c'.hasAccessor name arity = true) :
    (name, arity) ∈ (m.ownAccessors filter c).map QualifiedProperty.key := by
  rw [hasAccessor, List.any_eq_true] at hhas
  obtain ⟨q, hq, hcall⟩ := hhas
  simp only [Bool.and_eq_true, beq_iff_eq] at hcall
  obtain ⟨⟨rfl, rfl⟩, hgenerated⟩ := hcall
  rcases List.mem_append.1 hq with hq | hq
  · have hheader := List.mem_map_of_mem (f := QualifiedProperty.header) hq
    rw [h.headers, Model.equipped_qualified] at hheader
    obtain ⟨q₀, hq₀, hsame⟩ := List.mem_map.1 hheader
    have hgenerated₀ : q₀.isGenerated = true :=
      (congrArg QualifiedProperty.isGenerated hsame).trans hgenerated
    have hkey : q₀.header.key = q.header.key := by rw [hsame]
    change q₀.key = q.key at hkey
    rcases List.mem_append.1 hq₀ with hq₀ | hq₀
    · exact (hpristine.members.notMem_qualified hgenerated₀ hq₀).elim
    · rw [show (q.name, q.arity) = q₀.key from hkey.symm]
      exact List.mem_map_of_mem hq₀
  · obtain ⟨a, ha, e, he, hsource, hname⟩ := h.exposed q hq hgenerated
    have hends := hfree a ha e he hsource
    exact (hname.elim hends.1 hends.2).elim

end Class

namespace Model

/-- A model on the way from the prepared to the compiled one, as far as accessors go. -/
def Carries (m : Model) (filter : RangeFilter) (n : Model) : Prop :=
  List.Forall₂ (Class.Carries m filter) m.classes.entries n.classes.entries

variable {m m' n : Model} {filter : RangeFilter} {settings : Settings} {report : Report}
variable {as : List Association}

theorem carries_prepared (hpristine : m.Pristine) (filter : RangeFilter) :
    m.Carries filter (m.prepared filter) := by
  refine List.forall₂_map_right_iff.2 (List.forall₂_same.2 fun c hc => ?_)
  have hequipped : c.Carries m filter (c.equipped m filter) := by
    refine ⟨c.equipped_frame m filter, rfl, ?_⟩
    intro q hq hgenerated
    have hexposed : q ∈ c.exposedQualified := by
      rw [← c.withDates_exposedQualified]
      exact hq
    exact ((hpristine.classes c hc).notMem_exposedQualified hgenerated hexposed).elim
  exact hequipped.rearranged hpristine (m.forms_milestonedAssociations filter)
    (Class.rearranged_renewedAll m _ _)

theorem Between.carries (hpristine : m.Pristine) (hforms : m.Forms filter as)
    (h : (m.prepared filter).Between as n) : m.Carries filter n := by
  obtain ⟨bs, hbs, hclasses⟩ := h
  refine forall₂_comp (carries_prepared hpristine filter) hclasses fun {c c' c''} hc hc' => ?_
  -- renewals ask for frames only, which are those of the model
  have hrearranged : Class.Rearranged m bs c' c'' := by
    rw [Class.Rearranged, ← Class.renewedAll_of_frame (m.prepared_frame filter)]
    exact hc'
  exact hc.rearranged hpristine (hforms.subset hbs.subset) hrearranged

theorem Carries.frame (h : m.Carries filter n) : n.frame = m.frame :=
  map_eq_of_forall₂ h Class.Carries.frame

theorem Carries.exists_class (h : m.Carries filter n) {path : String} {c : Class}
    (hc : m.class? path = some c) : ∃ c', n.class? path = some c' ∧ c.Carries m filter c' := by
  obtain ⟨hmem, rfl⟩ := class?_eq_some_iff.1 hc
  obtain ⟨c', hc', hcarries⟩ := exists_of_forall₂_left h hmem
  have hpath : HasPath.path c' = HasPath.path c := congrArg Prod.fst hcarries.frame
  exact ⟨c', class?_eq_some_iff.2 ⟨hc', hpath⟩, hcarries⟩

theorem Carries.callShape? (hpristine : m.Pristine) (h : m.Carries filter n) {path name : String}
    {c : Class} (hc : m.class? path = some c)
    (hown : (m.ownAccessor? filter c name).isSome = true ∨ m.FreeOfEnds c name) :
    n.callShape? path name = (m.ownAccessor? filter c name).bind fun q => m.shapeOf? q.type := by
  obtain ⟨c', hc', hcarries⟩ := h.exists_class hc
  have hheader : ∀ q : Option QualifiedProperty, (q.bind fun q => m.shapeOf? q.type) =
      (q.map QualifiedProperty.header).bind fun q => m.shapeOf? q.type := by
    intro q
    rcases q with - | q <;> rfl
  have hshapeOf : n.shapeOf? = m.shapeOf? := funext (shapeOf?_frame h.frame)
  have hpristine' := hpristine.classes c (class?_eq_some_iff.1 hc).1
  rw [Model.callShape?, hc', Option.bind_some, hshapeOf, hheader (c'.dateAccessor? name),
    hcarries.dateAccessor? hpristine' hown, ← hheader]

end Model

/-- The qualified property `q'` is `q` with each navigation of its body taken to one that it is
related to. -/
def QualifiedProperty.Follows (R : Navigation → Navigation → Prop) (q q' : QualifiedProperty) : Prop :=
  q'.header = q.header ∧ Expression.FollowsAll R q.body q'.body

/-! ### Navigations to replaced properties -/

/-- The owner of the navigation declares an edge of its name with a target of this shape, and no more
dates are supplied than the target has. -/
structure Navigation.LeadsTo (m : Model) (n : Navigation) (c : Class) (shape : Shape) : Prop where
  owner : m.class? n.owner = some c
  edge : ∃ p ∈ c.properties, p.name = n.property ∧ m.shapeOf? p.type = some shape
  supplies : n.explicit.length ≤ shape.axes.length

/-- The navigation is a call, with this many dates, of an accessor that its owner has. -/
structure Navigation.Answered (m : Model) (n : Navigation) (count : Nat) : Prop where
  access : n.access = .qualified (UInt64.ofNat (1 + count))
  arguments : n.arguments.length = 1 + count
  accessor : m.takes n.owner n.property (1 + count) = true

namespace Model

/-- Of the class's own accessors, the first that a call of this name can mean leads to a shape with
this many dates, and one of this name takes them all. -/
def Answers (m : Model) (filter : RangeFilter) (c : Class) (name : String) (count : Nat) : Prop :=
  ((m.ownAccessor? filter c name).bind fun q => m.shapeOf? q.type).map (·.axes.length) = some count ∧
    (name, 1 + count) ∈ (m.ownAccessors filter c).map QualifiedProperty.key

instance (m : Model) (filter : RangeFilter) (c : Class) (name : String) (count : Nat) :
    Decidable (m.Answers filter c name count) :=
  inferInstanceAs (Decidable (_ ∧ _))

/-- What compiling `m` to `m'` makes of a navigation that is to a replaced property of its owner: a
call with all dates if the class's own accessors answer it; and if it was plain, and no end is in
the way, only then. -/
structure Resolves (m : Model) (filter : RangeFilter) (m' : Model) (n n' : Navigation) : Prop where
  owner : n'.owner = n.owner
  property : n'.property = n.property
  answered : ∀ c shape, n.LeadsTo m c shape → m.Answers filter c n.property shape.axes.length →
    n'.Answered m' shape.axes.length
  answers : ∀ c shape, n.LeadsTo m c shape → n.access = .property → m.FreeOfEnds c n.property →
    n'.Answered m' shape.axes.length → m.Answers filter c n.property shape.axes.length

variable {m m' d : Model} {filter : RangeFilter} {settings : Settings} {report : Report}

/-- **What a call is settled to**, in any model on the way. -/
theorem resolves_of_settles (hpristine : m.Pristine) (hd : m.Carries filter d)
    (hm' : m.Carries filter m') {n n' : Navigation} {arguments : List Expression}
    {ambient after : Ambient} (hn : n.HasReceiver) (hlength : arguments.length = n.arguments.length)
    (h : Navigation.Settles d { n with arguments } ambient n' after) : m.Resolves filter m' n n' := by
  have hreceiver : Navigation.HasReceiver { n with arguments } := hn.of_length hlength
  have hexplicit : arguments.tail.length = n.explicit.length := by
    rw [List.length_tail, hlength, Navigation.length_arguments hn, Nat.add_sub_cancel_left]
  obtain ⟨howner, hproperty, houtcome⟩ := h.outcome hreceiver
  refine ⟨howner, hproperty, ?_, ?_⟩
  · -- the dates that the call is settled for are as many as the property asks for
    rintro c shape ⟨hclass, -, hle⟩ ⟨hcount, hmem⟩
    obtain ⟨target, htarget, haxes⟩ := Option.map_eq_some_iff.1 hcount
    have hown : (m.ownAccessor? filter c n.property).isSome = true := by
      obtain ⟨q, hq, -⟩ := Option.bind_eq_some_iff.1 htarget
      rw [hq]
      rfl
    have hcall := (hd.callShape? hpristine hclass (.inl hown)).trans htarget
    obtain ⟨c', hc', hcarries⟩ := hm'.exists_class hclass
    have htakes : m'.takes n'.owner n'.property (1 + shape.axes.length) = true := by
      rw [takes, howner, hproperty]
      show (m'.class? n.owner).any _ = true
      rw [hc']
      exact hcarries.hasAccessor_of_mem hmem
    rcases houtcome with ⟨-, hoverfull⟩ | ⟨target', hcall', haccess, harguments⟩
    · have hmore : target.axes.length < arguments.tail.length := hoverfull target hcall
      omega
    · obtain rfl := Option.some.inj (hcall.symm.trans hcall')
      rw [haxes] at haccess harguments
      exact ⟨haccess, harguments, htakes⟩
  · -- a plain navigation that became a call was settled for the dates of the first accessor
    rintro c shape ⟨hclass, -, -⟩ hplain hfree ⟨haccess, hcount, htakes⟩
    have hcall := hd.callShape? hpristine hclass (.inr hfree)
    obtain ⟨c', hc', hcarries⟩ := hm'.exists_class hclass
    refine ⟨?_, ?_⟩
    · rw [← hcall, Option.map_eq_some_iff]
      rcases houtcome with ⟨rfl, -⟩ | ⟨target, hcall', -, harguments⟩
      · cases hplain.symm.trans haccess
      · exact ⟨target, hcall', by omega⟩
    · rw [takes, howner, hproperty] at htakes
      change (m'.class? n.owner).any _ = true at htakes
      rw [hc'] at htakes
      exact hcarries.mem_of_hasAccessor (hpristine.classes c (class?_eq_some_iff.1 hclass).1) hfree
        htakes

/-- What becomes of the qualified properties of one list. -/
theorem follows_of_dates (hpristine : m.Pristine) (hd : m.Carries filter d)
    (hm' : m.Carries filter m') {qs new qs' : List QualifiedProperty}
    (hplain : ∀ q ∈ qs, q.isGenerated = false) (hreceived : ∀ q ∈ qs, q.Received)
    (h : d.Dates (qs ++ new) qs') :
    List.Forall₂ (QualifiedProperty.Follows (m.Resolves filter m')) qs (qs'.take qs.length) := by
  -- generated accessors stand behind the declared qualified properties, and stay there
  have htake := List.forall₂_take qs.length h
  rw [List.take_left] at htake
  refine ((List.forall₂_and_left _ _).2 ⟨fun _ hq => hq, htake⟩).imp ?_
  rintro q q' ⟨hq, hdate⟩
  obtain ⟨after, hbody⟩ := QualifiedProperty.body_of_dateBody hdate (hplain q hq)
  refine ⟨header_dateBody hdate, ?_⟩
  apply Expression.followsAll_of_datedAll ?_ (hreceived q hq (hplain q hq)) hbody
  intro n arguments n' ambient after hn hlength hsettles
  exact resolves_of_settles hpristine hd hm' hn hlength hsettles

/-- **What becomes of the navigations** in the bodies that classes and associations declare. -/
theorem resolves_of_compile (hcompile : m.compile .builtin settings = .ok (report, m'))
    (hpristine : m.Pristine) (hreceived : m.Received) :
    (∀ c ∈ m.classes.entries, ∃ c', m'.class? c.path = some c' ∧
      List.Forall₂ (QualifiedProperty.Follows (m.Resolves settings.rangeFilter m'))
        c.qualified (c'.qualified.take c.qualified.length)) ∧
      ∀ a ∈ m.associations.entries, ∃ a', m'.association? a.path = some a' ∧
        List.Forall₂ (QualifiedProperty.Follows (m.Resolves settings.rangeFilter m'))
          a.qualified (a'.qualified.take a.qualified.length) := by
  have h := compiles_of_compile hcompile
  obtain ⟨hforms, -⟩ := h.changedAssociations_forms
  have hm' := h.between.carries hpristine hforms
  constructor
  · intro c hc
    obtain ⟨c', hc', hcompiled⟩ := exists_of_forall₂_left h.forall₂_classes hc
    have hdates := hcompiled.dates
    rw [equipped_qualified] at hdates
    exact ⟨c', hcompiled.path ▸ class?_path hc', follows_of_dates hpristine
      (carries_prepared hpristine _) hm' (hpristine.classes c hc).members.qualified
      (hreceived.1 c hc) hdates⟩
  · intro a ha
    obtain ⟨a', ha', hcompiled⟩ := exists_of_forall₂_left h.forall₂_associations ha
    obtain ⟨n, hn, hdates⟩ := hcompiled.dates
    have hqualified : (a.milestoned m settings.rangeFilter).qualified = a.qualified ++ _ :=
      milestonedMembers_qualified
    rw [hqualified] at hdates
    exact ⟨a', hcompiled.path ▸ association?_path ha', follows_of_dates hpristine
      (hn.carries hpristine hforms) hm' (hpristine.associations a ha).qualified (hreceived.2 a ha)
      hdates⟩

/-- A class with an edge that is named like a range accessor, and a body that supplies its date. -/
def rangeNamedClass : Class where
  path := "m::K"
  properties := [
    { name := "tAllVersionsInRange", type := .ofClass "m::T", multiplicity := .one
      owner := .ofClass "m::K" }]
  qualified := [
    { name := "latest", type := .ofClass "m::T", multiplicity := .one, owner := .ofClass "m::K"
      signature := {
        parameters := [{ name := "this", type := .ofClass "m::K", multiplicity := .one }]
        result := ⟨.ofClass "m::T", .one⟩ }
      body := [
        (Navigation.plain "m::K" "tAllVersionsInRange" (.reference "this" ⟨.ofClass "m::K", .one⟩)
          [.date "2020-01-01"]).toExpression ⟨.ofClass "m::T", .one⟩] }]

def rangeNamed : Model :=
  ofDocument {
    classes := [
      rangeNamedClass,
      { path := "m::T", stereotypes := [.resolved temporalProfile Shape.business.name] }] }

/-- The navigation is compiled to no call of an accessor. -/
theorem rangeNamed_unanswered :
    (rangeNamed.compile .builtin {}).toBool = true ∧ ∀ report m', rangeNamed.compile .builtin {} =
      .ok (report, m') → ∃ c', m'.class? "m::K" = some c' ∧ ∃ q' ∈ c'.qualified,
        ∃ (n' : Navigation) (t : Typing), q'.body = [n'.toExpression t] ∧
          n'.property = "tAllVersionsInRange" ∧ ¬ n'.Answered m' Shape.business.axes.length := by
  refine ⟨by decide +kernel, fun report m' hcompile => ?_⟩
  obtain ⟨c', hc', hfollows⟩ := (resolves_of_compile hcompile (by decide +kernel)
    (by decide +kernel)).1 rangeNamedClass (by decide +kernel)
  obtain ⟨q', qs, ⟨-, hbody⟩, -, htake⟩ := List.forall₂_cons_left_iff.1 hfollows
  obtain ⟨_, _, hbody, ⟨_, n', rfl, -, -, hresolves⟩, rfl⟩ := hbody
  refine ⟨c', hc', q', List.mem_of_mem_take (htake ▸ List.mem_cons_self), n', _, hbody,
    hresolves.property, fun hanswered => ?_⟩
  have hanswers := hresolves.answers rangeNamedClass .business
    ⟨by decide +kernel, ⟨_, List.mem_cons_self, rfl, by decide +kernel⟩, by decide +kernel⟩ rfl
    (by decide +kernel) hanswered
  revert hanswers
  decide +kernel

end Model

end Bitemporal
