/-
Bitemporal/Proofs/Arrangement.lean

How the views of a compiled class are arranged.

In a pristine and owned model whose classes present distinct names, the views
of a class always consist of entries that no association claims, followed by
the entries of each association in turn (`Class.Shows`).  Renewing the views of
some associations moves their entries to the end, in the order of the renewals
(`Class.Shows.renewedAll`).  A compilation therefore leaves the entries of the
associations whose bodies it changed behind those of all others
(`Model.Compiles.prepared`).
-/
import Bitemporal.Proofs.Presented

namespace Bitemporal

/-! ### Refilling lists -/

theorem flatMap_filter_eq {α β : Type} (p : α → Bool) (f : α → List β) (l : List α) :
    (l.filter p).flatMap f = l.flatMap fun a => if p a then f a else [] := by
  induction l with
  | nil => rfl
  | cons a l ih =>
    rw [List.filter_cons, List.flatMap_cons]
    split
    · rw [List.flatMap_cons, ih]
    · rw [ih, List.nil_append]

/-- Refilling a list that ends in fills already moves the fills of the claimants to the end. -/
theorem foldl_refill_again {α β τ : Type} [DecidableEq τ] {claims : β → α → Bool}
    {fill : β → List α} {tag : β → τ} (S : List α) {L bs : List β}
    (hclaims : ∀ a ∈ L ++ bs, ∀ x ∈ fill a, ∀ b ∈ bs, claims b x = decide (tag b = tag a))
    (hbs : (bs.map tag).Nodup) :
    bs.foldl (fun l b => (l.filter fun x => !claims b x) ++ fill b) (S ++ L.flatMap fill) =
      (S.filter fun x => bs.all fun b => !claims b x) ++
        (L.filter (fun a => tag a ∉ bs.map tag) ++ bs).flatMap fill := by
  -- no claimant claims what another has put in
  have hpairwise : bs.Pairwise fun a b => ∀ x ∈ fill a, claims b x = false := by
    rw [List.Nodup, List.pairwise_map] at hbs
    refine hbs.imp_of_mem fun ha hb hne x hx => ?_
    rw [hclaims _ (List.mem_append_right _ ha) x hx _ hb]
    exact decide_eq_false (Ne.symm hne)
  have hfills : ((L.flatMap fill).filter fun x => bs.all fun b => !claims b x) =
      (L.filter fun a => tag a ∉ bs.map tag).flatMap fill := by
    rw [List.filter_flatMap, flatMap_filter_eq]
    refine List.flatMap_congr fun a ha => ?_
    have hall : ∀ x ∈ fill a, (bs.all fun b => !claims b x) = decide (tag a ∉ bs.map tag) := by
      intro x hx
      rw [Bool.eq_iff_iff, List.all_eq_true, decide_eq_true_iff, List.mem_map]
      constructor
      · rintro hunclaimed ⟨b, hb, htag⟩
        have hb' := hunclaimed b hb
        rw [hclaims a (List.mem_append_left _ ha) x hx b hb, decide_eq_true htag] at hb'
        cases hb'
      · intro hnone b hb
        rw [hclaims a (List.mem_append_left _ ha) x hx b hb,
          decide_eq_false fun htag => hnone ⟨b, hb, htag⟩]
        rfl
    rw [List.filter_congr hall]
    split
    · rename_i h
      exact List.filter_eq_self.2 fun x _ => h
    · rename_i h
      exact List.filter_eq_nil_iff.2 fun x _ => h
  rw [foldl_refill hpairwise, List.filter_append, hfills, List.flatMap_append, List.append_assoc]

/-- Refilling by name is refilling, where the names of all that is involved tell it apart. -/
theorem foldl_refill_named {β : Type} {W : List Property} (hW : (W.map Property.name).Nodup)
    {claims : β → Property → Bool} {fill : β → List Property} {bs : List β} {l : List Property}
    (hl : ∀ x ∈ l, x ∈ W) (hfill : ∀ b ∈ bs, ∀ x ∈ fill b, x ∈ W ∧ claims b x = true)
    (hnodup : ∀ b ∈ bs, ((fill b).map Property.name).Nodup) :
    bs.foldl (fun l b => (fill b).foldl Property.addNamed (l.filter fun x => !claims b x)) l =
      bs.foldl (fun l b => (l.filter fun x => !claims b x) ++ fill b) l := by
  induction bs generalizing l with
  | nil => rfl
  | cons b bs ih =>
    -- an entry with the name of one that is put in is that one, and has just been dropped
    have hstep : (fill b).foldl Property.addNamed (l.filter fun x => !claims b x) =
        (l.filter fun x => !claims b x) ++ fill b := by
      rw [Property.addNamed_eq, foldl_putNew, news_eq_self (hnodup b List.mem_cons_self)]
      intro x hx hmem
      obtain ⟨y, hy, hname⟩ := List.mem_map.1 hmem
      obtain ⟨hyl, hunclaimed⟩ := List.mem_filter.1 hy
      obtain ⟨hxW, hclaimed⟩ := hfill b List.mem_cons_self x hx
      have hyx : y = x := List.inj_on_of_nodup_map hW (hl y hyl) hxW hname
      rw [hyx, hclaimed] at hunclaimed
      cases hunclaimed
    rw [List.foldl_cons, List.foldl_cons, hstep]
    refine ih ?_ (fun b' hb' => hfill b' (List.mem_cons_of_mem _ hb'))
      fun b' hb' => hnodup b' (List.mem_cons_of_mem _ hb')
    intro x hx
    rcases List.mem_append.1 hx with hx | hx
    · exact hl x (List.mem_filter.1 hx).1
    · exact (hfill b List.mem_cons_self x hx).1

/-! ### Views in order -/

namespace Model

/-- Every association of a list is a form of one that the model has. -/
def Forms (m : Model) (filter : RangeFilter) (as : List Association) : Prop :=
  ∀ b ∈ as, ∃ a ∈ m.associations.entries, a.IsForm m filter b

/-- Every association that the model has is there in a form. -/
def Covers (m : Model) (as : List Association) : Prop :=
  ∀ a ∈ m.associations.entries, ∃ b ∈ as, b.path = a.path

theorem forms_milestonedAssociations (m : Model) (filter : RangeFilter) :
    m.Forms filter (m.milestonedAssociations filter) := by
  intro b hb
  obtain ⟨a, ha, rfl⟩ := List.mem_map.1 hb
  exact ⟨a, ha, a.isForm_milestoned m filter⟩

theorem covers_milestonedAssociations (m : Model) (filter : RangeFilter) :
    m.Covers (m.milestonedAssociations filter) :=
  fun a ha => ⟨a.milestoned m filter, List.mem_map_of_mem ha, rfl⟩

/-- Moving some associations to the end loses none. -/
theorem Covers.moved {m : Model} {as : List Association} (h : m.Covers as) (bs : List Association) :
    m.Covers (as.filter (fun a => a.path ∉ bs.map Association.path) ++ bs) := by
  intro a ha
  obtain ⟨b, hb, hpath⟩ := h a ha
  by_cases hmoved : b.path ∈ bs.map Association.path
  · obtain ⟨b', hb', hpath'⟩ := List.mem_map.1 hmoved
    exact ⟨b', List.mem_append_right _ hb', hpath'.trans hpath⟩
  · exact ⟨b, List.mem_append_left _ (List.mem_filter.2 ⟨hb, decide_eq_true hmoved⟩), hpath⟩

theorem Compiles.forms {m m' : Model} {settings : Settings} {report : Report}
    (h : m.Compiles settings report m') : m.Forms settings.rangeFilter m'.associations.entries := by
  intro b hb
  obtain ⟨a, ha, hcompiled⟩ := exists_of_forall₂_right h.forall₂_associations hb
  exact ⟨a, ha, hcompiled.isForm⟩

theorem Forms.append {m : Model} {filter : RangeFilter} {as bs : List Association}
    (has : m.Forms filter as) (hbs : m.Forms filter bs) : m.Forms filter (as ++ bs) :=
  fun b hb => (List.mem_append.1 hb).elim (has b) (hbs b)

theorem Forms.subset {m : Model} {filter : RangeFilter} {as bs : List Association}
    (has : m.Forms filter as) (hbs : bs ⊆ as) : m.Forms filter bs :=
  fun b hb => has b (hbs hb)

end Model

namespace Class

/-- Of some entries of a class, those that none of the associations claims. -/
def unclaimed {α : Type} (m : Model) (as : List Association) (c : Class) (owner : α → Owner)
    (l : List α) : List α :=
  l.filter fun x => as.all fun a => !c.drops m a (owner x)

/-- The views of a class hold some entries, and behind them those of each association in turn. -/
structure Shows (m : Model) (S : List Property) (Q : List QualifiedProperty) (R : List Property)
    (as : List Association) (c : Class) : Prop where
  exposed : c.exposed = S ++ as.flatMap (·.endsOn m c.path)
  exposedQualified : c.exposedQualified = Q ++ as.flatMap (·.qualifiedOn m c.path)
  replaced : c.replaced = R ++ as.flatMap (·.replacedOn m c.path)

variable {m : Model} {filter : RangeFilter} {c : Class} {a b : Association}

theorem drops_of_isForm (h : a.IsForm m filter b) (o : Owner) : c.drops m b o = c.drops m a o := by
  rw [drops, drops, h.memberClasses, h.path]

/-- On a member of an association, its entries are claimed by its own forms alone. -/
theorem drops_eq_decide {as : List Association} (hforms : m.Forms filter as) (ha : a ∈ as)
    (hb : b ∈ as) (hmember : c.path ∈ m.memberClasses a) :
    c.drops m b (.ofAssociation a.path) = decide (b.path = a.path) := by
  obtain ⟨a₀, ha₀, hforma⟩ := hforms a ha
  obtain ⟨b₀, hb₀, hformb⟩ := hforms b hb
  rw [drops, Owner.isAssociation]
  by_cases hpath : b.path = a.path
  · have hsame : b₀ = a₀ := m.associations.eq_of_path_eq hb₀ ha₀
      (hformb.path.symm.trans (hpath.trans hforma.path))
    have hmember' : c.path ∈ m.memberClasses b := by
      rw [hformb.memberClasses, hsame, ← hforma.memberClasses]
      exact hmember
    rw [List.contains_iff_mem.2 hmember', hpath, decide_eq_true rfl, Bool.true_and, beq_self_eq_true]
  · have hne : (Owner.ofAssociation a.path == Owner.ofAssociation b.path) = false := by
      rw [beq_eq_false_iff_ne]
      intro he
      exact hpath (Owner.ofAssociation.inj he).symm
    rw [hne, Bool.and_false, decide_eq_false hpath]

section Model

variable {as bs : List Association} {c₀ : Class}
variable (hpristine : m.Pristine) (howned : m.Owned) (hdistinct : m.NamesDistinct)

include howned in
theorem drops_of_mem_endsOn (hforms : m.Forms filter as) (ha : a ∈ as) (hb : b ∈ as) {p : Property}
    (hp : p ∈ a.endsOn m c.path) : c.drops m b p.owner = decide (b.path = a.path) := by
  obtain ⟨a₀, ha₀, hform⟩ := hforms a ha
  obtain ⟨hmem, hexposing⟩ := Association.mem_endsOn.1 hp
  rw [hform.owner_of_mem_properties (howned.associations a₀ ha₀) hmem]
  exact drops_eq_decide hforms ha hb (Model.mem_memberClasses_of_exposingClass? hexposing)

include howned in
theorem drops_of_mem_qualifiedOn (hforms : m.Forms filter as) (ha : a ∈ as) (hb : b ∈ as)
    {q : QualifiedProperty} (hq : q ∈ a.qualifiedOn m c.path) :
    c.drops m b q.owner = decide (b.path = a.path) := by
  obtain ⟨a₀, ha₀, hform⟩ := hforms a ha
  obtain ⟨hmem, hexposing⟩ := Association.mem_qualifiedOn.1 hq
  rw [hform.owner_of_mem_qualified (howned.associations a₀ ha₀) hmem]
  exact drops_eq_decide hforms ha hb (Model.mem_memberClasses_of_exposingClass? hexposing)

include hpristine howned in
theorem drops_of_mem_replacedOn (hforms : m.Forms filter as) (ha : a ∈ as) (hb : b ∈ as)
    {p : Property} (hp : p ∈ a.replacedOn m c.path) :
    c.drops m b p.owner = decide (b.path = a.path) := by
  obtain ⟨a₀, ha₀, hform⟩ := hforms a ha
  obtain ⟨hmem, hexposing⟩ := Association.mem_replacedOn.1 hp
  rw [hform.owner_of_mem_replaced (hpristine.associations a₀ ha₀) (howned.associations a₀ ha₀) hmem]
  exact drops_eq_decide hforms ha hb (Model.mem_memberClasses_of_exposingClass? hexposing)

include hpristine in
/-- The replaced ends that a form brings to a class are presented by that class. -/
theorem mem_presented_of_mem_replacedOn (hforms : m.Forms filter as) (hb : b ∈ as) {p : Property}
    (hp : p ∈ b.replacedOn m c₀.path) : p ∈ m.presented c₀ := by
  obtain ⟨a₀, ha₀, hform⟩ := hforms b hb
  refine List.mem_append_right _ (List.mem_flatMap.2 ⟨a₀, ha₀, ?_⟩)
  exact hform.mem_endsOn_of_mem_replacedOn (hpristine.associations a₀ ha₀) hp

include hpristine in
theorem nodup_names_replacedOn (hforms : m.Forms filter as) (hb : b ∈ as) (path : String) :
    ((b.replacedOn m path).map Property.name).Nodup := by
  obtain ⟨a₀, ha₀, hform⟩ := hforms b hb
  have hnodup := hform.nodup_replaced (hpristine.associations a₀ ha₀)
  exact (List.filter_sublist.map Property.name).nodup hnodup

variable {S R : List Property} {Q : List QualifiedProperty}

include hpristine howned hdistinct in
/-- **Renewing the views of some associations moves their entries to the end.** -/
theorem Shows.renewedAll (hc₀ : c₀ ∈ m.classes.entries) (hR : ∀ p ∈ R, p ∈ m.presented c₀)
    (hforms : m.Forms filter (as ++ bs)) (hbs : (bs.map Association.path).Nodup)
    (hpath : c.path = c₀.path) (h : c.Shows m S Q R as) :
    (renewedAll m bs c).Shows m (c₀.unclaimed m bs Property.owner S)
      (c₀.unclaimed m bs QualifiedProperty.owner Q) (c₀.unclaimed m bs Property.owner R)
      (as.filter (fun a => a.path ∉ bs.map Association.path) ++ bs) := by
  have hdrops : ∀ a o, c₀.drops m a o = c.drops m a o := by
    intro a o
    rw [drops, drops, hpath]
  have hright : ∀ {b}, b ∈ bs → b ∈ as ++ bs := fun hb => List.mem_append_right _ hb
  simp only [unclaimed, hdrops]
  constructor
  · rw [renewedAll_exposed, renewedAll_path, h.exposed]
    exact foldl_refill_again S
      (fun a ha p hp b hb => drops_of_mem_endsOn howned hforms ha (hright hb) hp) hbs
  · rw [renewedAll_exposedQualified, renewedAll_path, h.exposedQualified]
    exact foldl_refill_again Q
      (fun a ha q hq b hb => drops_of_mem_qualifiedOn howned hforms ha (hright hb) hq) hbs
  · -- these are refilled by name, which is why names have to be distinct
    rw [renewedAll_replaced, renewedAll_path, h.replaced]
    have hpresented : ∀ b ∈ as ++ bs, ∀ p ∈ b.replacedOn m c.path, p ∈ m.presented c₀ := by
      intro b hb p hp
      rw [hpath] at hp
      exact mem_presented_of_mem_replacedOn hpristine hforms hb hp
    rw [foldl_refill_named (hdistinct c₀ hc₀)]
    · exact foldl_refill_again R
        (fun a ha p hp b hb => drops_of_mem_replacedOn hpristine howned hforms ha (hright hb) hp) hbs
    · intro p hp
      rcases List.mem_append.1 hp with hp | hp
      · exact hR p hp
      · obtain ⟨a, ha, hp⟩ := List.mem_flatMap.1 hp
        exact hpresented a (List.mem_append_left _ ha) p hp
    · intro b hb p hp
      refine ⟨hpresented b (hright hb) p hp, ?_⟩
      rw [drops_of_mem_replacedOn hpristine howned hforms (hright hb) (hright hb) hp,
        decide_eq_true rfl]
    · exact fun b hb => nodup_names_replacedOn hpristine hforms (hright hb) c.path

end Model

/-! ### Arranged classes -/

/-- The views of `c'` are those that a compilation gives the class `c`: what no association claims,
what the class has replaced itself, and the entries of the given associations in turn. -/
def Arranged (m : Model) (filter : RangeFilter) (as : List Association) (c c' : Class) : Prop :=
  c'.Shows m (c.unclaimed m m.associations.entries Property.owner c.exposed)
    (c.unclaimed m m.associations.entries QualifiedProperty.owner c.exposedQualified)
    (c.equipped m filter).replaced as

/-- The class `c'` is what becomes of `c` once edges are replaced, at any moment after: its views show
the given associations, and its bodies may be of any kind. -/
structure Prepared (m : Model) (filter : RangeFilter) (as : List Association) (c c' : Class) : Prop where
  frame : c'.frame = c.frame
  properties : c'.properties = (c.equipped m filter).properties
  arranged : c.Arranged m filter as c'
  headers : c'.qualified.map QualifiedProperty.header =
    (c.equipped m filter).qualified.map QualifiedProperty.header

variable {c' : Class} {as bs : List Association}

theorem Prepared.path (h : c.Prepared m filter as c') : c'.path = c.path :=
  congrArg Prod.fst h.frame

/-- An entry left over is claimed by no form of an association either. -/
theorem drops_of_mem_unclaimed {α : Type} {owner : α → Owner} {l : List α} {x : α}
    (hforms : m.Forms filter bs) (hx : x ∈ c.unclaimed m m.associations.entries owner l)
    (hb : b ∈ bs) : c.drops m b (owner x) = false := by
  obtain ⟨a, ha, hform⟩ := hforms b hb
  have hunclaimed := List.all_eq_true.1 (List.mem_filter.1 hx).2 a ha
  rw [drops_of_isForm hform]
  simpa using hunclaimed

theorem unclaimed_eq_self {α : Type} {owner : α → Owner} {l : List α}
    (h : ∀ x ∈ l, ∀ b ∈ bs, c.drops m b (owner x) = false) : c.unclaimed m bs owner l = l := by
  rw [unclaimed, List.filter_eq_self]
  intro x hx
  rw [List.all_eq_true]
  intro b hb
  rw [h x hx b hb]
  rfl

theorem unclaimed_milestonedAssociations {α : Type} (owner : α → Owner) (l : List α) :
    c.unclaimed m (m.milestonedAssociations filter) owner l =
      c.unclaimed m m.associations.entries owner l := by
  refine List.filter_congr fun x _ => ?_
  rw [Model.milestonedAssociations, List.all_map]
  congr 1
  funext a
  rw [Function.comp_apply, drops_of_isForm (a.isForm_milestoned m filter)]

section Model

variable (hpristine : m.Pristine) (howned : m.Owned) (hdistinct : m.NamesDistinct)

include hpristine in
/-- What a class has replaced itself are edges that it declared. -/
theorem exists_edge_of_mem_replaced (hc : c ∈ m.classes.entries) {p : Property}
    (hp : p ∈ (c.equipped m filter).replaced) : ∃ e ∈ m.classEdges c, e.property = p := by
  rw [Model.equipped_replaced, (hpristine.classes c hc).members.replaced] at hp
  rcases List.mem_append.1 hp with hp | hp
  · cases hp
  · exact List.mem_map.1 (mem_of_mem_news hp).1

include hpristine in
theorem mem_properties_of_mem_replaced (hc : c ∈ m.classes.entries) {p : Property}
    (hp : p ∈ (c.equipped m filter).replaced) : p ∈ c.properties := by
  obtain ⟨e, he, rfl⟩ := exists_edge_of_mem_replaced hpristine hc hp
  exact Model.mem_properties_of_mem_edgesOf he

include hpristine howned in
/-- No association claims what a class has replaced itself. -/
theorem drops_of_mem_replaced (hc : c ∈ m.classes.entries) {p : Property}
    (hp : p ∈ (c.equipped m filter).replaced) (b : Association) : c.drops m b p.owner = false := by
  have hmem := mem_properties_of_mem_replaced hpristine hc hp
  rw [(howned.classes c hc).properties p hmem, drops, Owner.isAssociation]
  exact Bool.and_false _

include hpristine howned hdistinct in
/-- The first renewal of all views. -/
theorem arranged_renewedAll (filter : RangeFilter) (hc : c ∈ m.classes.entries) :
    c.Arranged m filter (m.milestonedAssociations filter)
      (renewedAll m (m.milestonedAssociations filter) (c.equipped m filter)) := by
  have hstart : (c.equipped m filter).Shows m c.exposed c.exposedQualified
      (c.equipped m filter).replaced [] := by
    refine ⟨?_, ?_, ?_⟩
    · rw [List.flatMap_nil, List.append_nil]
      exact c.withDates_exposed
    · rw [List.flatMap_nil, List.append_nil]
      exact c.withDates_exposedQualified
    · rw [List.flatMap_nil, List.append_nil]
  have hpaths : ((m.milestonedAssociations filter).map Association.path).Nodup := by
    rw [Model.milestonedAssociations, List.map_map]
    exact m.associations.nodup_paths
  have hshows := Shows.renewedAll hpristine howned hdistinct hc
    (fun p hp => List.mem_append_left _ (mem_properties_of_mem_replaced hpristine hc hp))
    (m.forms_milestonedAssociations filter) hpaths (c.equipped_path m filter) hstart
  rw [unclaimed_milestonedAssociations, unclaimed_milestonedAssociations,
    unclaimed_eq_self fun p hp b _ => drops_of_mem_replaced hpristine howned hc hp b] at hshows
  exact hshows

include hpristine howned hdistinct in
/-- **Renewing views of an arranged class rearranges it.** -/
theorem Arranged.renewedAll (hc : c ∈ m.classes.entries) (hforms : m.Forms filter (as ++ bs))
    (hbs : (bs.map Association.path).Nodup) (hpath : c'.path = c.path)
    (h : c.Arranged m filter as c') :
    c.Arranged m filter (as.filter (fun a => a.path ∉ bs.map Association.path) ++ bs)
      (renewedAll m bs c') := by
  have hbsForms : m.Forms filter bs := hforms.subset (List.subset_append_right as bs)
  have hshows := Shows.renewedAll hpristine howned hdistinct hc
    (fun p hp => List.mem_append_left _ (mem_properties_of_mem_replaced hpristine hc hp))
    hforms hbs hpath h
  -- what was left over by the associations of the model is left over by their forms
  rw [unclaimed_eq_self fun p hp b hb => drops_of_mem_unclaimed hbsForms hp hb,
    unclaimed_eq_self fun q hq b hb => drops_of_mem_unclaimed hbsForms hq hb,
    unclaimed_eq_self fun p hp b _ => drops_of_mem_replaced hpristine howned hc hp b] at hshows
  exact hshows

end Model

end Class

/-! ### Which bodies a compilation has changed -/

namespace Model

/-- The declared bodies of the association of this path are not the same in `m'` as in `m`. -/
def Redates (m m' : Model) (path : String) : Prop :=
  ∃ a ∈ m.associations.entries, a.path = path ∧
    ∃ a' ∈ m'.associations.entries, a'.path = path ∧ ¬ a.qualified <+: a'.qualified

instance (m m' : Model) : DecidablePred (m.Redates m') := fun path =>
  inferInstanceAs (Decidable (∃ a ∈ m.associations.entries, a.path = path ∧
    ∃ a' ∈ m'.associations.entries, a'.path = path ∧ ¬ a.qualified <+: a'.qualified))

/-- The associations of `m'` in the order in which the views show their entries after a compilation
from `m`: those whose bodies it changed come last. -/
def arrangement (m m' : Model) : List Association :=
  (m'.associations.entries.filter fun a => ¬ m.Redates m' a.path) ++
    m'.associations.entries.filter fun a => m.Redates m' a.path

end Model

namespace Association.Compiled

variable {m : Model} {filter : RangeFilter} {as : List Association} {a a' : Association}

/-- Only declared bodies can change. -/
theorem eq_milestoned_iff (h : a.Compiled m filter as a') :
    a' = a.milestoned m filter ↔ a.qualified <+: a'.qualified := by
  constructor
  · rintro rfl
    rw [a.milestoned_qualified]
    exact List.prefix_append _ _
  · intro hprefix
    obtain ⟨n, -, hdates⟩ := h.dates
    rw [a.milestoned_qualified] at hdates
    have hgenerated := List.forall₂_drop a.qualified.length hdates
    rw [List.drop_left] at hgenerated
    -- dating leaves the generated accessors alone
    have hsame : a'.qualified.drop a.qualified.length =
        news QualifiedProperty.key (a.qualified.map QualifiedProperty.key)
          ((m.associationEdges a).flatMap (m.accessorsOf filter)) := by
      symm
      rw [← List.forall₂_eq_eq_eq]
      have hall : ∀ q ∈ news QualifiedProperty.key (a.qualified.map QualifiedProperty.key)
          ((m.associationEdges a).flatMap (m.accessorsOf filter)), q.isGenerated = true := by
        intro q hq
        obtain ⟨e, -, hq⟩ := List.mem_flatMap.1 (mem_of_mem_news hq).1
        exact (Model.of_mem_accessorsOf hq).1
      refine ((List.forall₂_and_left _ _).2 ⟨hall, hgenerated⟩).imp ?_
      rintro q q' ⟨hq, hdate⟩
      rw [Model.dateBody_of_isGenerated hq] at hdate
      exact Except.ok.inj hdate
    have hall : a'.qualified = (a.milestoned m filter).qualified := by
      rw [a.milestoned_qualified, ← hsame]
      nth_rewrite 1 [List.prefix_iff_eq_take.1 hprefix]
      exact (List.take_append_drop _ _).symm
    rw [h.eq_milestoned, hall]

end Association.Compiled

namespace Model

variable {m m' : Model} {settings : Settings} {report : Report}

/-- The associations before and after a compilation, side by side: they have changed exactly if
bodies have. -/
theorem Compiles.mem_zip (h : m.Compiles settings report m') {b a' : Association}
    (hz : (b, a') ∈ (m.milestonedAssociations settings.rangeFilter).zip m'.associations.entries) :
    b.path = a'.path ∧ (a' ≠ b ↔ m.Redates m' a'.path) := by
  rw [milestonedAssociations, List.zip_map_left] at hz
  obtain ⟨⟨a, a''⟩, hmem, he⟩ := List.mem_map.1 hz
  obtain ⟨rfl, rfl⟩ : a.milestoned m settings.rangeFilter = b ∧ a'' = a' := Prod.mk.inj he
  have hcompiled := (List.forall₂_iff_zip.1 h.forall₂_associations).2 hmem
  obtain ⟨ha, ha'⟩ := List.of_mem_zip hmem
  refine ⟨hcompiled.path.symm, ?_⟩
  rw [Ne, hcompiled.eq_milestoned_iff]
  constructor
  · intro hchanged
    exact ⟨a, ha, hcompiled.path.symm, a'', ha', rfl, hchanged⟩
  · -- a path finds no other association on either side
    rintro ⟨b, hb, hbpath, b', hb', hbpath', hchanged⟩
    obtain rfl := m.associations.eq_of_path_eq hb ha (hbpath.trans hcompiled.path)
    obtain rfl := m'.associations.eq_of_path_eq hb' ha' hbpath'
    exact hchanged

theorem perm_arrangement (m m' : Model) :
    (m.arrangement m').Perm m'.associations.entries := by
  have hperm := List.filter_append_perm (fun a : Association => decide (m.Redates m' a.path))
    m'.associations.entries
  rw [arrangement]
  simp only [decide_not]
  exact List.perm_append_comm.trans hperm

theorem mem_arrangement {a : Association} : a ∈ m.arrangement m' ↔ a ∈ m'.associations.entries :=
  (perm_arrangement m m').mem_iff

/-- Each association is arranged once, so that its entries stand together. -/
theorem filter_flatMap_arrangement {β : Type} {fill : Association → List β} {owner : β → Owner}
    (howner : ∀ b ∈ m'.associations.entries, ∀ x ∈ fill b, owner x = .ofAssociation b.path)
    {a : Association} (ha : a ∈ m'.associations.entries) :
    ((m.arrangement m').flatMap fill).filter (fun x => (owner x).isAssociation a.path) = fill a := by
  have hnodup : ((m.arrangement m').map Association.path).Nodup :=
    ((perm_arrangement m m').map Association.path).nodup_iff.2 m'.associations.nodup_paths
  obtain ⟨before, after, hsplit⟩ := List.append_of_mem (mem_arrangement.2 ha)
  have hmem : ∀ b ∈ before ++ a :: after, b ∈ m'.associations.entries :=
    fun b hb => mem_arrangement.1 (hsplit ▸ hb)
  rw [hsplit, List.map_append, List.map_cons, List.nodup_append, List.nodup_cons] at hnodup
  -- the entries of all others are dropped
  have hdropped : ∀ bs : List Association, (∀ b ∈ bs, b ∈ m'.associations.entries ∧ b.path ≠ a.path) →
      (bs.flatMap fill).filter (fun x => (owner x).isAssociation a.path) = [] := by
    intro bs hbs
    rw [List.filter_eq_nil_iff]
    intro x hx
    obtain ⟨b, hb, hx⟩ := List.mem_flatMap.1 hx
    obtain ⟨hb, hne⟩ := hbs b hb
    rw [howner b hb x hx, Owner.isAssociation, beq_iff_eq, Owner.ofAssociation.injEq]
    exact hne
  have hkept : (fill a).filter (fun x => (owner x).isAssociation a.path) = fill a := by
    rw [List.filter_eq_self]
    intro x hx
    rw [howner a ha x hx, Owner.isAssociation, beq_self_eq_true]
  rw [hsplit, List.flatMap_append, List.flatMap_cons, List.filter_append, List.filter_append, hkept,
    hdropped before, hdropped after, List.nil_append, List.append_nil]
  · intro b hb
    refine ⟨hmem b (List.mem_append_right _ (List.mem_cons_of_mem a hb)), fun he => ?_⟩
    exact hnodup.2.1.1 (he ▸ List.mem_map_of_mem hb)
  · intro b hb
    exact ⟨hmem b (List.mem_append_left _ hb),
      hnodup.2.2 _ (List.mem_map_of_mem hb) _ List.mem_cons_self⟩

/-- Filtering the associations after a compilation is filtering the pairs. -/
theorem Compiles.filter_associations (h : m.Compiles settings report m') (P : Association → Bool) :
    m'.associations.entries.filter P =
      (((m.milestonedAssociations settings.rangeFilter).zip m'.associations.entries).filter
        fun z => P z.2).map Prod.snd := by
  have hlength : m'.associations.entries.length ≤
      (m.milestonedAssociations settings.rangeFilter).length := by
    rw [milestonedAssociations, List.length_map]
    exact Nat.le_of_eq h.forall₂_associations.length_eq.symm
  nth_rewrite 1 [← List.map_snd_zip hlength]
  exact List.filter_map

theorem Compiles.changedAssociations_eq (h : m.Compiles settings report m') :
    m.changedAssociations settings.rangeFilter m' =
      m'.associations.entries.filter fun a => m.Redates m' a.path := by
  rw [h.filter_associations, changedAssociations, Association.changed]
  refine congrArg _ (List.filter_congr ?_)
  rintro ⟨b, a'⟩ hz
  obtain ⟨-, hchanged⟩ := h.mem_zip hz
  rw [Bool.eq_iff_iff, bne_iff_ne, decide_eq_true_iff]
  exact hchanged

/-- The associations that a compilation has changed are forms, with paths of their own. -/
theorem Compiles.changedAssociations_forms (h : m.Compiles settings report m') :
    m.Forms settings.rangeFilter (m.changedAssociations settings.rangeFilter m') ∧
      ((m.changedAssociations settings.rangeFilter m').map Association.path).Nodup := by
  have hsublist : (m.changedAssociations settings.rangeFilter m').Sublist
      m'.associations.entries := by
    rw [h.changedAssociations_eq]
    exact List.filter_sublist
  exact ⟨h.forms.subset hsublist.subset,
    (hsublist.map Association.path).nodup m'.associations.nodup_paths⟩

/-- The associations whose bodies a compilation leaves alone are left alone. -/
theorem Compiles.filter_milestonedAssociations (h : m.Compiles settings report m') :
    ((m.milestonedAssociations settings.rangeFilter).filter fun a => ¬ m.Redates m' a.path) =
      m'.associations.entries.filter fun a => ¬ m.Redates m' a.path := by
  have hlength : (m.milestonedAssociations settings.rangeFilter).length ≤
      m'.associations.entries.length := by
    rw [milestonedAssociations, List.length_map]
    exact Nat.le_of_eq h.forall₂_associations.length_eq
  have hfilter : ∀ z ∈ (m.milestonedAssociations settings.rangeFilter).zip m'.associations.entries,
      decide (¬ m.Redates m' z.1.path) = decide (¬ m.Redates m' z.2.path) := by
    rintro ⟨b, a'⟩ hz
    rw [(h.mem_zip hz).1]
  rw [h.filter_associations, ← List.filter_congr hfilter]
  nth_rewrite 1 [← List.map_fst_zip hlength]
  rw [List.filter_map]
  refine List.map_congr_left ?_
  rintro ⟨b, a'⟩ hz
  obtain ⟨hz, hunchanged⟩ := List.mem_filter.1 hz
  obtain ⟨hpath, hchanged⟩ := h.mem_zip hz
  -- one that is not the same has had bodies changed
  by_contra hne
  apply of_decide_eq_true hunchanged
  show m.Redates m' b.path
  rw [hpath]
  exact hchanged.1 (Ne.symm hne)

theorem Compiles.arrangement_eq (h : m.Compiles settings report m') :
    ((m.milestonedAssociations settings.rangeFilter).filter fun b =>
        b.path ∉ (m.changedAssociations settings.rangeFilter m').map Association.path) ++
      m.changedAssociations settings.rangeFilter m' = m.arrangement m' := by
  have hpaths : ∀ path, path ∈ (m.changedAssociations settings.rangeFilter m').map Association.path ↔
      m.Redates m' path := by
    intro path
    rw [h.changedAssociations_eq, List.mem_map]
    constructor
    · rintro ⟨a', ha', rfl⟩
      exact of_decide_eq_true (List.mem_filter.1 ha').2
    · rintro ⟨a, ha, hpath, a', ha', rfl, hchanged⟩
      refine ⟨a', List.mem_filter.2 ⟨ha', decide_eq_true ?_⟩, rfl⟩
      exact ⟨a, ha, hpath, a', ha', rfl, hchanged⟩
  simp only [hpaths]
  rw [arrangement, h.changedAssociations_eq, h.filter_milestonedAssociations]

/-- What an association lists after a compilation it owns. -/
theorem Compiles.owners (h : m.Compiles settings report m') (hpristine : m.Pristine)
    (howned : m.Owned) {a' : Association} (ha' : a' ∈ m'.associations.entries) :
    (∀ p ∈ a'.properties, p.owner = .ofAssociation a'.path) ∧
      (∀ q ∈ a'.qualified, q.owner = .ofAssociation a'.path) ∧
        ∀ p ∈ a'.replaced, p.owner = .ofAssociation a'.path := by
  obtain ⟨a, ha, hform⟩ := h.forms a' ha'
  have hown := howned.associations a ha
  refine ⟨fun p hp => ?_, fun q hq => ?_, fun p hp => ?_⟩
  · exact hform.owner_of_mem_properties hown hp
  · exact hform.owner_of_mem_qualified hown hq
  · exact hform.owner_of_mem_replaced (hpristine.associations a ha) hown hp

/-- **How a compilation leaves the views**: the entries of the associations whose bodies it changed
stand behind those of all others. -/
theorem Compiles.prepared (h : m.Compiles settings report m') (hpristine : m.Pristine)
    (howned : m.Owned) (hdistinct : m.NamesDistinct) :
    List.Forall₂ (Class.Prepared m settings.rangeFilter (m.arrangement m'))
      m.classes.entries m'.classes.entries := by
  obtain ⟨hchanged, hpaths⟩ := h.changedAssociations_forms
  have hforms : m.Forms settings.rangeFilter
      (m.milestonedAssociations settings.rangeFilter ++
        m.changedAssociations settings.rangeFilter m') :=
    (m.forms_milestonedAssociations _).append hchanged
  refine ((List.forall₂_and_left _ _).2 ⟨fun _ hc => hc, h.forall₂_classes⟩).imp ?_
  rintro c c' ⟨hc, hcompiled⟩
  refine ⟨hcompiled.frame, hcompiled.properties, ?_, hcompiled.dates.headers⟩
  have hfirst := Class.arranged_renewedAll hpristine howned hdistinct settings.rangeFilter hc
  have hpath : (Class.renewedAll m (m.milestonedAssociations settings.rangeFilter)
      (c.equipped m settings.rangeFilter)).path = c.path := by
    rw [Class.renewedAll_path, Class.equipped_path]
  have hsecond := hfirst.renewedAll hpristine howned hdistinct hc hforms hpaths hpath
  rw [h.arrangement_eq, ← Class.renewedAll_append] at hsecond
  -- the bodies of a class are not part of its views
  rw [hcompiled.eq_renewed]
  exact ⟨hsecond.exposed, hsecond.exposedQualified, hsecond.replaced⟩

/-- The class that a compilation has made of a class of the model. -/
theorem Compiles.exists_class (h : m.Compiles settings report m') (hpristine : m.Pristine)
    (howned : m.Owned) (hdistinct : m.NamesDistinct) {c : Class} (hc : c ∈ m.classes.entries) :
    ∃ c', m'.class? c.path = some c' ∧
      c.Compiled m settings.rangeFilter (m.milestonedAssociations settings.rangeFilter ++
        m.changedAssociations settings.rangeFilter m') c' ∧
      c.Prepared m settings.rangeFilter (m.arrangement m') c' := by
  obtain ⟨c', hc', hcompiled⟩ := exists_of_forall₂_left h.forall₂_classes hc
  obtain ⟨c'', hc'', hprepared⟩ := exists_of_forall₂_left (h.prepared hpristine howned hdistinct) hc
  obtain rfl := m'.classes.eq_of_path_eq hc'' hc' (hprepared.path.trans hcompiled.path.symm)
  exact ⟨c'', hcompiled.path ▸ class?_path hc', hcompiled, hprepared⟩

/-- The class that a class of the compiled model was made of. -/
theorem Compiles.exists_source (h : m.Compiles settings report m') (hpristine : m.Pristine)
    (howned : m.Owned) (hdistinct : m.NamesDistinct) {c' : Class} (hc' : c' ∈ m'.classes.entries) :
    ∃ c ∈ m.classes.entries,
      c.Compiled m settings.rangeFilter (m.milestonedAssociations settings.rangeFilter ++
        m.changedAssociations settings.rangeFilter m') c' ∧
      c.Prepared m settings.rangeFilter (m.arrangement m') c' := by
  obtain ⟨c, hc, hmade⟩ := exists_of_forall₂_right h.forall₂_classes hc'
  obtain ⟨c'', hc'', hcompiled, hprepared⟩ := h.exists_class hpristine howned hdistinct hc
  rw [← hmade.path, class?_path hc'] at hc''
  obtain rfl := Option.some.inj hc''
  exact ⟨c, hc, hcompiled, hprepared⟩

/-- **What a class shows of an association**: of a member, exactly what the association lists for it, in
its order. -/
theorem Compiles.shown (h : m.Compiles settings report m') (hpristine : m.Pristine) (howned : m.Owned)
    {c c' : Class} (hc : c ∈ m.classes.entries)
    (hprepared : c.Prepared m settings.rangeFilter (m.arrangement m') c') {a : Association}
    (ha : a ∈ m'.associations.entries) (hmember : c.path ∈ m.memberClasses a) :
    c'.exposed.filter (fun p => p.owner.isAssociation a.path) = a.endsOn m c.path ∧
      c'.exposedQualified.filter (fun q => q.owner.isAssociation a.path) = a.qualifiedOn m c.path ∧
        c'.replaced.filter (fun p => p.owner.isAssociation a.path) = a.replacedOn m c.path := by
  -- what no association claims is not owned by one of which the class is a member
  have hleft : ∀ {α : Type} (owner : α → Owner) (l : List α),
      (c.unclaimed m m.associations.entries owner l).filter
        (fun x => (owner x).isAssociation a.path) = [] := by
    intro α owner l
    rw [List.filter_eq_nil_iff]
    intro x hx
    have hdrops := Class.drops_of_mem_unclaimed h.forms hx ha
    rw [Class.drops, List.contains_iff_mem.2 hmember, Bool.true_and] at hdrops
    rw [hdrops]
    exact Bool.false_ne_true
  have hreplaced : (c.equipped m settings.rangeFilter).replaced.filter
      (fun p => p.owner.isAssociation a.path) = [] := by
    rw [List.filter_eq_nil_iff]
    intro p hp
    have hmem := Class.mem_properties_of_mem_replaced hpristine hc hp
    rw [(howned.classes c hc).properties p hmem]
    exact Bool.false_ne_true
  have harranged := hprepared.arranged
  refine ⟨?_, ?_, ?_⟩
  · rw [harranged.exposed, List.filter_append, hleft, List.nil_append, hprepared.path]
    exact filter_flatMap_arrangement (fun b hb p hp =>
      (h.owners hpristine howned hb).1 p (Association.mem_endsOn.1 hp).1) ha
  · rw [harranged.exposedQualified, List.filter_append, hleft, List.nil_append, hprepared.path]
    exact filter_flatMap_arrangement (fun b hb q hq =>
      (h.owners hpristine howned hb).2.1 q (Association.mem_qualifiedOn.1 hq).1) ha
  · rw [harranged.replaced, List.filter_append, hreplaced, List.nil_append, hprepared.path]
    exact filter_flatMap_arrangement (fun b hb p hp =>
      (h.owners hpristine howned hb).2.2 p (Association.mem_replacedOn.1 hp).1) ha

end Model

end Bitemporal
