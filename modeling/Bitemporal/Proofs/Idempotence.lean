/-
Bitemporal/Proofs/Idempotence.lean

When compiling twice is compiling once.

A compilation leaves the entries of the associations whose bodies it changed
behind those of all others, while the next one renews all views in the order
of paths.  The two orders agree on every class exactly if no association whose
bodies changed comes, by path, before one with a member in common whose bodies
did not (`Model.Compiles.renewed_iff`).  In a pristine model with names apart
nothing else can go wrong (`Model.recompiles_iff_of_compile`).
-/
import Bitemporal.Proofs.SteadyCalls

namespace Bitemporal

/-! ### Moving some fills to the end -/

/-- A list in front of another that it shares nothing with cannot be moved behind it, unless one of
them is empty. -/
theorem append_append_eq_iff {α : Type} {l x r r' : List α} (h : x.Disjoint l) :
    l ++ (x ++ r) = x ++ r' ↔ (x = [] ∨ l = []) ∧ l ++ r = r' := by
  rcases x with - | ⟨b, x⟩
  · simp
  · rcases l with - | ⟨c, l⟩
    · simp
    · have hne : c ≠ b := by
        rintro rfl
        exact h List.mem_cons_self List.mem_cons_self
      simp [hne]

/-- Moving the fills of marked elements to the end changes nothing exactly if no marked element with a
fill stands before an unmarked one with a fill. -/
theorem flatMap_moved_eq_iff {α β τ : Type} {fill : α → List β} {tag : β → τ} {key : α → τ}
    {P : α → Prop} [DecidablePred P] {l : List α} (hfill : ∀ a ∈ l, ∀ x ∈ fill a, tag x = key a)
    (hkeys : (l.map key).Nodup) :
    (l.filter (fun a => ¬ P a) ++ l.filter fun a => P a).flatMap fill = l.flatMap fill ↔
      l.Pairwise fun a b => P a → ¬ P b → fill a = [] ∨ fill b = [] := by
  induction l with
  | nil => simp
  | cons a l ih =>
    obtain ⟨ha, hl⟩ := List.nodup_cons.1 (List.map_cons ▸ hkeys)
    have ih := ih (fun b hb => hfill b (List.mem_cons_of_mem a hb)) hl
    rw [List.flatMap_append] at ih
    rw [List.pairwise_cons, ← ih, List.flatMap_append, List.flatMap_cons]
    by_cases hP : P a
    · rw [List.filter_cons_of_neg (by simpa using hP), List.filter_cons_of_pos (by simpa using hP),
        List.flatMap_cons]
      -- an entry of what is unmarked has another tag than those of `a`
      have hdisjoint : (fill a).Disjoint ((l.filter fun b => ¬ P b).flatMap fill) := by
        intro x hxa hx
        obtain ⟨b, hb, hxb⟩ := List.mem_flatMap.1 hx
        have hbl := (List.mem_filter.1 hb).1
        have hkey : key a = key b := by
          rw [← hfill a List.mem_cons_self x hxa, ← hfill b (List.mem_cons_of_mem a hbl) x hxb]
        exact ha (hkey ▸ List.mem_map_of_mem hbl)
      rw [append_append_eq_iff hdisjoint, List.flatMap_eq_nil_iff]
      refine and_congr_left fun _ => ⟨?_, fun hrest => ?_⟩
      · rintro (hnil | hnil) b hb - hnP
        · exact .inl hnil
        · exact .inr (hnil b (List.mem_filter.2 ⟨hb, decide_eq_true hnP⟩))
      · refine or_iff_not_imp_left.2 fun hnil b hb => ?_
        obtain ⟨hb, hnP⟩ := List.mem_filter.1 hb
        exact (hrest b hb hP (of_decide_eq_true hnP)).resolve_left hnil
    · rw [List.filter_cons_of_pos (by simpa using hP), List.filter_cons_of_neg (by simpa using hP),
        List.flatMap_cons, List.append_assoc, List.append_cancel_left_eq]
      -- an unmarked element stays in front in either case
      constructor
      · intro h
        exact ⟨fun b _ hPa => (hP hPa).elim, h⟩
      · exact And.right

/-! ### Associations that meet on a class -/

/-- Whether both associations have two ends and share a member class. -/
def Model.Meet (m : Model) (a b : Association) : Prop :=
  a.memberPaths.length = 2 ∧ b.memberPaths.length = 2 ∧
    ∃ path ∈ m.memberClasses a, path ∈ m.memberClasses b

instance (m : Model) (a b : Association) : Decidable (m.Meet a b) :=
  inferInstanceAs (Decidable (_ ∧ _ ∧ ∃ path ∈ m.memberClasses a, path ∈ m.memberClasses b))

namespace Association

variable {m : Model} {a b : Association} {path : String}

/-- A member of an association with two ends exposes one of them. -/
theorem endsOn_ne_nil (hlength : a.memberPaths.length = 2) (hmember : path ∈ m.memberClasses a) :
    a.endsOn m path ≠ [] := by
  obtain ⟨q, hq, hpath⟩ := Model.mem_memberClasses.1 hmember
  obtain ⟨first, second, hends⟩ := List.length_eq_two.1 hlength
  -- the end opposite to the member
  have hopposite : ∃ target ∈ a.memberPaths, a.exposing? target = some q := by
    rw [hends] at hq ⊢
    rcases List.mem_pair.1 hq with rfl | rfl
    · refine ⟨second, by simp, ?_⟩
      rw [exposing?, hends]
      by_cases h : q = second <;> simp [h]
    · refine ⟨first, by simp, ?_⟩
      rw [exposing?, hends]
      simp
  obtain ⟨target, htarget, hexposing⟩ := hopposite
  obtain ⟨p, hp, htype⟩ := List.mem_filterMap.1 htarget
  refine List.ne_nil_of_mem (mem_endsOn.2 ⟨hp, ?_⟩)
  rw [Model.exposingClass?, exposingType?, htype, Option.bind_some, hexposing, Option.bind_some, hpath]

/-- Associations that both expose something on a class meet. -/
theorem meet_of_exposingClass? {t t' : TypeRef} (h : m.exposingClass? a t = some path)
    (h' : m.exposingClass? b t' = some path) : m.Meet a b := by
  have hlength : ∀ {a : Association} {t : TypeRef}, m.exposingClass? a t = some path →
      a.memberPaths.length = 2 := by
    intro a t h
    obtain ⟨q, hq, -⟩ := Option.bind_eq_some_iff.1 h
    obtain ⟨target, -, hq⟩ := Option.bind_eq_some_iff.1 hq
    obtain ⟨first, second, hends, -⟩ := Model.exposing?_eq_some hq
    rw [hends]
    rfl
  exact ⟨hlength h, hlength h', path, Model.mem_memberClasses_of_exposingClass? h,
    Model.mem_memberClasses_of_exposingClass? h'⟩

end Association

/-! ### When the views stay in order -/

namespace Class

variable {m : Model} {S R : List Property} {Q : List QualifiedProperty} {as bs : List Association}
variable {c c' : Class}

/-- The entries before those of associations do not matter to the order of the latter. -/
theorem Shows.iff_of_shows (h : c.Shows m S Q R as) :
    c.Shows m S Q R bs ↔ as.flatMap (·.endsOn m c.path) = bs.flatMap (·.endsOn m c.path) ∧
      as.flatMap (·.qualifiedOn m c.path) = bs.flatMap (·.qualifiedOn m c.path) ∧
        as.flatMap (·.replacedOn m c.path) = bs.flatMap (·.replacedOn m c.path) := by
  constructor
  · intro h'
    refine ⟨?_, ?_, ?_⟩
    · exact List.append_cancel_left (h.exposed.symm.trans h'.exposed)
    · exact List.append_cancel_left (h.exposedQualified.symm.trans h'.exposedQualified)
    · exact List.append_cancel_left (h.replaced.symm.trans h'.replaced)
  · rintro ⟨hexposed, hqualified, hreplaced⟩
    exact ⟨hexposed ▸ h.exposed, hqualified ▸ h.exposedQualified, hreplaced ▸ h.replaced⟩

end Class

namespace Model

variable {m m' : Model} {settings : Settings} {report : Report}

/-- No association whose bodies are different in `m'` comes, by path, before one that meets it and has
the same bodies in `m'`. -/
def KeepsOrder (m m' : Model) : Prop :=
  ∀ a ∈ m.associations.entries, ∀ b ∈ m.associations.entries, a.path < b.path → m.Meet a b →
    m.Redates m' a.path → m.Redates m' b.path

instance (m m' : Model) : Decidable (m.KeepsOrder m') :=
  inferInstanceAs (Decidable (∀ a ∈ m.associations.entries, ∀ b ∈ m.associations.entries,
    a.path < b.path → m.Meet a b → m.Redates m' a.path → m.Redates m' b.path))

/-- The arrangement after a compilation shows some entries in the order of paths exactly if none of
them has been moved behind others. -/
theorem flatMap_arrangement_iff {β : Type} {fill : Association → List β} {owner : β → Owner}
    (howner : ∀ a ∈ m'.associations.entries, ∀ x ∈ fill a, owner x = .ofAssociation a.path) :
    (m.arrangement m').flatMap fill = m'.associations.entries.flatMap fill ↔
      ∀ a ∈ m'.associations.entries, ∀ b ∈ m'.associations.entries, a.path < b.path →
        m.Redates m' a.path → ¬ m.Redates m' b.path → fill a = [] ∨ fill b = [] := by
  have hkeys : (m'.associations.entries.map fun a => Owner.ofAssociation a.path).Nodup := by
    have hinjective : Function.Injective Owner.ofAssociation := fun _ _ he => Owner.ofAssociation.inj he
    have hnodup := m'.associations.nodup_paths.map hinjective
    rw [List.map_map] at hnodup
    exact hnodup
  rw [arrangement, flatMap_moved_eq_iff howner hkeys]
  exact PathTable.pairwise_iff

/-- Forms meet where the associations do. -/
theorem Compiles.meet_iff (h : m.Compiles settings report m') {a a' b b' : Association}
    (ha : a ∈ m.associations.entries) (ha' : a' ∈ m'.associations.entries) (hpath : a'.path = a.path)
    (hb : b ∈ m.associations.entries) (hb' : b' ∈ m'.associations.entries)
    (hpath' : b'.path = b.path) : m.Meet a' b' ↔ m.Meet a b := by
  have hform : ∀ {a a' : Association}, a ∈ m.associations.entries → a' ∈ m'.associations.entries →
      a'.path = a.path → a.IsForm m settings.rangeFilter a' := by
    intro a a' ha ha' hpath
    obtain ⟨a₀, ha₀, hform⟩ := h.forms a' ha'
    obtain rfl := m.associations.eq_of_path_eq ha₀ ha (hform.path.symm.trans hpath)
    exact hform
  have hforma := hform ha ha' hpath
  have hformb := hform hb hb' hpath'
  rw [Meet, Meet, hforma.memberPaths, hformb.memberPaths, hforma.memberClasses, hformb.memberClasses]

/-- Where the order is kept, entries that a class exposes have not moved. -/
theorem KeepsOrder.flatMap_arrangement (hkeeps : m.KeepsOrder m') (h : m.Compiles settings report m')
    {β : Type} {fill : Association → List β} {owner : β → Owner} {type : β → TypeRef} {path : String}
    (howner : ∀ a ∈ m'.associations.entries, ∀ x ∈ fill a, owner x = .ofAssociation a.path)
    (hexposing : ∀ a, ∀ x ∈ fill a, m.exposingClass? a (type x) = some path) :
    (m.arrangement m').flatMap fill = m'.associations.entries.flatMap fill := by
  rw [flatMap_arrangement_iff howner]
  intro a' ha' b' hb' hlt hredates hnot
  rcases ha : fill a' with - | ⟨x, xs⟩
  · exact .inl rfl
  rcases hb : fill b' with - | ⟨y, ys⟩
  · exact .inr rfl
  exfalso
  -- both have entries on the class, so that they meet there
  have hmeet : m.Meet a' b' := Association.meet_of_exposingClass?
    (hexposing a' x (ha ▸ List.mem_cons_self)) (hexposing b' y (hb ▸ List.mem_cons_self))
  obtain ⟨a, ha, hforma⟩ := h.forms a' ha'
  obtain ⟨b, hb, hformb⟩ := h.forms b' hb'
  rw [h.meet_iff ha ha' hforma.path hb hb' hformb.path] at hmeet
  rw [hforma.path] at hlt hredates
  rw [hformb.path] at hlt hnot
  exact hnot (hkeeps a ha b hb hlt hmeet hredates)

section Renewed

variable (hpristine : m.Pristine) (howned : m.Owned) (hdistinct : m.NamesDistinct)

include hpristine howned hdistinct in
/-- Renewing all views leaves a class alone exactly if it showed them in the order of paths. -/
theorem Compiles.renewedAll_eq_self_iff (h : m.Compiles settings report m') {c c' : Class}
    (hc : c ∈ m.classes.entries) (hc' : c.Prepared m settings.rangeFilter (m.arrangement m') c') :
    Class.renewedAll m' m'.associations.entries c' = c' ↔
      c.Arranged m settings.rangeFilter m'.associations.entries c' := by
  have harrangement : m.arrangement m' ⊆ m'.associations.entries := fun a ha => mem_arrangement.1 ha
  -- all associations are renewed, so that nothing stays in front
  have hmoved : (m.arrangement m').filter
      (fun a => a.path ∉ m'.associations.entries.map Association.path) = [] := by
    rw [List.filter_eq_nil_iff]
    intro a ha
    have hmem := List.mem_map_of_mem (f := Association.path) (harrangement ha)
    simpa using List.mem_map.1 hmem
  have hrenewed := hc'.arranged.renewedAll hpristine howned hdistinct hc
    ((h.forms.subset harrangement).append h.forms) m'.associations.nodup_paths hc'.path
  rw [hmoved, List.nil_append] at hrenewed
  rw [Class.renewedAll_of_frame h.frame]
  constructor
  · intro hself
    rw [hself] at hrenewed
    exact hrenewed
  · intro hshows
    have hexposed := hrenewed.exposed
    have hqualified := hrenewed.exposedQualified
    have hreplaced := hrenewed.replaced
    rw [Class.renewedAll_path] at hexposed hqualified hreplaced
    rw [Class.renewedAll_eq_self_iff]
    exact ⟨hexposed.trans hshows.exposed.symm, hqualified.trans hshows.exposedQualified.symm,
      hreplaced.trans hshows.replaced.symm⟩

include hpristine howned hdistinct in
/-- **When the views stay as a compilation leaves them.** -/
theorem Compiles.renewed_iff (h : m.Compiles settings report m') : m'.Renewed ↔ m.KeepsOrder m' := by
  have hclasses := h.prepared hpristine howned hdistinct
  have hends : ∀ path, ∀ a ∈ m'.associations.entries, ∀ p ∈ a.endsOn m path,
      p.owner = .ofAssociation a.path :=
    fun path a ha p hp => (h.owners hpristine howned ha).1 p (Association.mem_endsOn.1 hp).1
  have hqualified : ∀ path, ∀ a ∈ m'.associations.entries, ∀ q ∈ a.qualifiedOn m path,
      q.owner = .ofAssociation a.path :=
    fun path a ha q hq => (h.owners hpristine howned ha).2.1 q (Association.mem_qualifiedOn.1 hq).1
  have hreplaced : ∀ path, ∀ a ∈ m'.associations.entries, ∀ p ∈ a.replacedOn m path,
      p.owner = .ofAssociation a.path :=
    fun path a ha p hp => (h.owners hpristine howned ha).2.2 p (Association.mem_replacedOn.1 hp).1
  constructor
  · intro hrenewed a ha b hb hlt hmeet hredates
    by_contra hnot
    -- both associations show an end on the class on which they meet
    obtain ⟨a', ha', hforma⟩ := exists_of_forall₂_left h.forall₂_associations ha
    obtain ⟨b', hb', hformb⟩ := exists_of_forall₂_left h.forall₂_associations hb
    have hmeet' := (h.meet_iff ha ha' hforma.path hb hb' hformb.path).2 hmeet
    obtain ⟨hlengtha, hlengthb, path, hmembera, hmemberb⟩ := hmeet'
    obtain ⟨q, -, hq⟩ := mem_memberClasses.1 hmembera
    obtain ⟨c, hc, rfl⟩ := Option.map_eq_some_iff.1 hq
    obtain ⟨c', hc', hprepared⟩ := exists_of_forall₂_left hclasses (mem_of_resolve? hc)
    have hself := (h.renewedAll_eq_self_iff hpristine howned hdistinct (mem_of_resolve? hc)
      hprepared).1 (hrenewed c' hc')
    obtain ⟨horder, -, -⟩ := (Class.Shows.iff_of_shows hprepared.arranged).1 hself
    rw [hprepared.path] at horder
    rw [← hforma.path] at hlt hredates
    rw [← hformb.path] at hlt hnot
    rcases (flatMap_arrangement_iff (hends c.path)).1 horder a' ha' b' hb' hlt hredates hnot with
      hnil | hnil
    · exact Association.endsOn_ne_nil hlengtha hmembera hnil
    · exact Association.endsOn_ne_nil hlengthb hmemberb hnil
  · intro hkeeps c' hc'
    obtain ⟨c, hc, hprepared⟩ := exists_of_forall₂_right hclasses hc'
    rw [h.renewedAll_eq_self_iff hpristine howned hdistinct hc hprepared]
    refine (Class.Shows.iff_of_shows hprepared.arranged).2 ⟨?_, ?_, ?_⟩
    · exact hkeeps.flatMap_arrangement h (hends c'.path)
        fun a p hp => (Association.mem_endsOn.1 hp).2
    · exact hkeeps.flatMap_arrangement h (hqualified c'.path)
        fun a q hq => (Association.mem_qualifiedOn.1 hq).2
    · exact hkeeps.flatMap_arrangement h (hreplaced c'.path)
        fun a p hp => (Association.mem_replacedOn.1 hp).2

end Renewed

/-! ### Compiling twice -/

/-- **When a compiled model is left alone by another compilation**: exactly if its views stand in the
order in which they are renewed and its bodies are settled.  For a model that was pristine, with names
apart, that is exactly if no association whose bodies were dated comes before one that meets it and
whose bodies were not. -/
theorem recompiles_iff_of_compile (hcompile : m.compile .builtin settings = .ok (report, m'))
    (howned : m.Owned) (hdates : m.LeavesDateNames) (hreceived : m.Received) :
    (m'.Recompiles settings ↔ m'.Renewed ∧ m'.Settled) ∧
      (m.Pristine → m.NamesApart → (m'.Recompiles settings ↔ m.KeepsOrder m')) := by
  have h := compiles_of_compile hcompile
  have hiff := h.recompiles_iff hdates hreceived
  refine ⟨hiff, fun hpristine hnames => ?_⟩
  rw [hiff, h.renewed_iff hpristine howned hnames.distinct]
  exact and_iff_left (h.settled hpristine howned hnames hdates hreceived)

/-- Two associations that join the same classes.  A body of the first calls an edge with its date. -/
def crossing : Model :=
  ofDocument {
    classes := [
      { path := "m::K"
        properties := [
          { name := "t", type := .ofClass "m::T", multiplicity := .one, owner := .ofClass "m::K" }] },
      { path := "m::L" },
      { path := "m::T", stereotypes := [.resolved temporalProfile Shape.business.name] }]
    associations := [
      { path := "m::A1"
        properties := [
          { name := "a", type := .ofClass "m::L", multiplicity := .one, owner := .ofAssociation "m::A1" },
          { name := "k1", type := .ofClass "m::K", multiplicity := .one
            owner := .ofAssociation "m::A1" }]
        qualified := [
          { name := "latest", type := .ofClass "m::L", multiplicity := .one
            owner := .ofAssociation "m::A1"
            signature := {
              parameters := [{ name := "this", type := .ofClass "m::K", multiplicity := .one }]
              result := ⟨.ofClass "m::L", .one⟩ }
            body := [
              (Navigation.plain "m::K" "t" (.reference "this" ⟨.ofClass "m::K", .one⟩)
                [.date "2020-01-01"]).toExpression ⟨.ofClass "m::T", .one⟩] }] },
      { path := "m::A2"
        properties := [
          { name := "b", type := .ofClass "m::L", multiplicity := .one, owner := .ofAssociation "m::A2" },
          { name := "k2", type := .ofClass "m::K", multiplicity := .one
            owner := .ofAssociation "m::A2" }] }] }

/-- A model that is compiled without fault and not left alone by another compilation. -/
theorem crossing_not_recompiles :
    (crossing.compile .builtin {}).toBool = true ∧ ∀ report m', crossing.compile .builtin {} =
      .ok (report, m') → ¬ m'.Recompiles {} := by
  refine ⟨by decide +kernel, fun report m' hcompile => ?_⟩
  have hiff := (recompiles_iff_of_compile hcompile (by decide +kernel) (by decide +kernel)
    (by decide +kernel)).2 (by decide +kernel) (by decide +kernel)
  rw [hiff]
  have horder : ((crossing.compile .builtin {}).toOption.any fun result =>
      decide (crossing.KeepsOrder result.2)) = false := by
    decide +kernel
  rw [hcompile] at horder
  exact of_decide_eq_false horder

end Model

end Bitemporal
