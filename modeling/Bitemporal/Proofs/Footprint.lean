/-
Bitemporal/Proofs/Footprint.lean

What a renewal changes, and that it changes nothing twice.

A renewal drops from the members of an association what the association has
there, and puts its present entries on the classes opposite their targets.  The
members are found by the ends and the classes to put entries on by the targets,
yet only members are ever given anything
(`mem_memberClasses_of_exposingClass?`).  So a class that no end leads to is left
as it is, and a member keeps everything but its views
(`Class.renewed_takesOver`, `Class.renewed_eq_self`).

Where an association owns all its entries (`Members.WhollyOwnedBy`), a second
renewal drops what the first has put in, puts it in again and is done
(`renewViewsOf_renewViewsOf`).  The replaced ends count among the entries here:
one that names another owner would stay while those around it move behind it.
-/
import Bitemporal.Proofs.Exposure

namespace Bitemporal

/-! ### Members -/

namespace Model

variable {m : Model} {a : Association} {c : Class}

/-- Whether an end of the association leads to the class. -/
def IsMember (m : Model) (a : Association) (c : Class) : Prop :=
  ∃ reference ∈ a.memberPaths, m.member? reference = some c

theorem mem_memberClasses_iff_isMember (hc : c ∈ m.classes.entries) :
    c.path ∈ m.memberClasses a ↔ m.IsMember a c := by
  rw [mem_memberClasses]
  constructor
  · rintro ⟨reference, hreference, hpath⟩
    exact ⟨reference, hreference, member?_eq_some_of_mem hc hpath⟩
  · rintro ⟨reference, hreference, hmember⟩
    refine ⟨reference, hreference, ?_⟩
    rw [hmember]
    rfl

end Model

/-! ### What becomes of a class -/

/-- The class `c'` is the class `c` after it has taken over an association anew: what it has of the
association is dropped, the entries that it exposes stand at the end in the order of the association,
and of the replaced ends those whose names are not taken. -/
structure Class.TakesOver (m : Model) (a : Association) (c c' : Class) : Prop where
  exposed : c'.exposed =
    (c.exposed.filter fun p => !p.owner.isAssociation a.path) ++ a.endsOn m c.path
  exposedQualified : c'.exposedQualified =
    (c.exposedQualified.filter fun q => !q.owner.isAssociation a.path) ++ a.qualifiedOn m c.path
  replaced :
    let kept := c.replaced.filter fun p => !p.owner.isAssociation a.path
    c'.replaced = kept ++ news Property.name (kept.map Property.name) (a.replacedOn m c.path)
  rest : c' = { c with
    exposed := c'.exposed, exposedQualified := c'.exposedQualified, replaced := c'.replaced }

namespace Class

variable {m : Model} {a : Association} {c : Class}

theorem drops_of_mem (h : c.path ∈ m.memberClasses a) (o : Owner) :
    c.drops m a o = o.isAssociation a.path := by
  rw [drops, List.contains_iff_mem.2 h, Bool.true_and]

theorem drops_of_notMem (h : c.path ∉ m.memberClasses a) (o : Owner) : c.drops m a o = false := by
  rw [drops, List.contains_eq_mem, decide_eq_false h, Bool.false_and]

theorem renewed_takesOver (h : c.path ∈ m.memberClasses a) : c.TakesOver m a (c.renewed m a) where
  exposed := by
    show (c.exposed.filter fun p => !c.drops m a p.owner) ++ _ = _
    simp only [drops_of_mem h]
  exposedQualified := by
    show (c.exposedQualified.filter fun q => !c.drops m a q.owner) ++ _ = _
    simp only [drops_of_mem h]
  replaced := by
    show (a.replacedOn m c.path).foldl Property.addNamed
      (c.replaced.filter fun p => !c.drops m a p.owner) = _
    simp only [drops_of_mem h]
    rw [Property.addNamed_eq, foldl_putNew]
  rest := rfl

/-- Only members are changed. -/
theorem renewed_eq_self (h : c.path ∉ m.memberClasses a) : c.renewed m a = c := by
  -- a class that exposes an entry is a member
  have hnone : ∀ t, (m.exposingClass? a t == some c.path) = false := by
    intro t
    rw [beq_eq_false_iff_ne]
    exact fun ht => h (Model.mem_memberClasses_of_exposingClass? ht)
  have hends : a.endsOn m c.path = [] := by simp [Association.endsOn, hnone]
  have hqualified : a.qualifiedOn m c.path = [] := by simp [Association.qualifiedOn, hnone]
  have hreplaced : a.replacedOn m c.path = [] := by simp [Association.replacedOn, hnone]
  rw [renewed, hends, hqualified, hreplaced]
  simp [drops_of_notMem h]

end Class

/-! ### A second renewal -/

/-- Members that all name this owner, the replaced ones among them. -/
structure Members.WhollyOwnedBy (ms : Members) (o : Owner) : Prop extends ms.OwnedBy o where
  replaced : ∀ p ∈ ms.replaced, p.owner = o

instance (ms : Members) (o : Owner) : Decidable (ms.WhollyOwnedBy o) :=
  decidable_of_iff (ms.OwnedBy o ∧ ∀ p ∈ ms.replaced, p.owner = o)
    ⟨fun ⟨h, hr⟩ => ⟨h, hr⟩, fun h => ⟨h.toOwnedBy, h.replaced⟩⟩

/-- What has been filled in is dropped again, if all of it is claimed. -/
theorem filter_refilled {α : Type} {claims : α → Bool} {l fill : List α}
    (h : ∀ x ∈ fill, claims x = true) :
    (((l.filter fun x => !claims x) ++ fill).filter fun x => !claims x) =
      l.filter fun x => !claims x := by
  have hfill : (fill.filter fun x => !claims x) = [] := by
    rw [List.filter_eq_nil_iff]
    intro x hx
    simp [h x hx]
  rw [List.filter_append, hfill, List.append_nil, List.filter_filter]
  simp

/-- A class that has taken over an association is left as it is by another renewal. -/
theorem Class.renewed_renewed {m : Model} {a : Association}
    (howned : a.toMembers.WhollyOwnedBy (.ofAssociation a.path)) (c : Class) :
    (c.renewed m a).renewed m a = c.renewed m a := by
  by_cases hmember : c.path ∈ m.memberClasses a
  · have hclaims : ∀ o, o = Owner.ofAssociation a.path → o.isAssociation a.path = true := by
      rintro _ rfl
      exact beq_self_eq_true _
    obtain ⟨hexposed, hqualified, hreplaced, -⟩ := renewed_takesOver hmember
    obtain ⟨hexposed', hqualified', hreplaced', hrest⟩ :=
      renewed_takesOver (c := c.renewed m a) hmember
    dsimp only at hreplaced hreplaced'
    rw [renewed_path] at hexposed' hqualified' hreplaced'
    -- list by list: what the first renewal has put in is dropped and put in again
    have hsame : ((c.renewed m a).renewed m a).exposed = (c.renewed m a).exposed := by
      rw [hexposed', hexposed, filter_refilled]
      exact fun p hp => hclaims _ (howned.properties p (Association.mem_endsOn.1 hp).1)
    have hsame' : ((c.renewed m a).renewed m a).exposedQualified =
        (c.renewed m a).exposedQualified := by
      rw [hqualified', hqualified, filter_refilled]
      exact fun q hq => hclaims _ (howned.qualified q (Association.mem_qualifiedOn.1 hq).1)
    have hsame'' : ((c.renewed m a).renewed m a).replaced = (c.renewed m a).replaced := by
      rw [hreplaced', hreplaced, filter_refilled]
      intro p hp
      exact hclaims _ (howned.replaced p (Association.mem_replacedOn.1 (mem_of_mem_news hp).1).1)
    rw [hrest, hsame, hsame', hsame'']
  · rw [renewed_eq_self hmember, renewed_eq_self hmember]

namespace Model

variable {m : Model} {a : Association}

/-- **Renewing twice is renewing once**, where the association owns its entries. -/
theorem renewViewsOf_renewViewsOf (howned : a.toMembers.WhollyOwnedBy (.ofAssociation a.path)) :
    (m.renewViewsOf a).renewViewsOf a = m.renewViewsOf a := by
  obtain ⟨hassociations, hclasses⟩ := m.renewViewsOf_entries a
  obtain ⟨hassociations', hclasses'⟩ := (m.renewViewsOf a).renewViewsOf_entries a
  refine ext_entries ?_ (congrArg PathTable.entries hassociations')
  rw [hclasses', Class.renewed_of_frame (m.renewViewsOf_frame a), hclasses, List.map_map]
  exact List.map_congr_left fun c _ => Class.renewed_renewed howned c

/-- **The footprint of a renewal.**  Each class that an end of the association leads to takes the
association over anew, in its views alone; no other class is changed, and no association.  If the
association owns all its entries, another renewal changes nothing. -/
theorem renewViews_footprint (h : a ∈ m.associations.entries) :
    ∃ m', m.renewViews a.path = .ok m' ∧
      m'.associations = m.associations ∧
      List.Forall₂ (fun c c' => (m.IsMember a c → c.TakesOver m a c') ∧ (¬ m.IsMember a c → c' = c))
        m.classes.entries m'.classes.entries ∧
      (a.toMembers.WhollyOwnedBy (.ofAssociation a.path) → m'.renewViews a.path = .ok m') := by
  have hentries := m.renewViewsOf_entries a
  refine ⟨m.renewViewsOf a, ?_, hentries.1, ?_, ?_⟩
  · rw [renewViews, association?_path h]
  · rw [hentries.2, List.forall₂_map_right_iff, List.forall₂_same]
    intro c hc
    rw [← mem_memberClasses_iff_isMember hc]
    exact ⟨Class.renewed_takesOver, Class.renewed_eq_self⟩
  · intro howned
    have hthere : a ∈ (m.renewViewsOf a).associations.entries := hentries.1 ▸ h
    rw [renewViews, association?_path hthere]
    exact congrArg Except.ok (renewViewsOf_renewViewsOf howned)

/-- An association of `m::K` with itself whose ends spell the class in two ways, and which has replaced
two ends of one name. -/
def looped : Association where
  path := "m::A"
  properties := [
    { name := "next", type := .ofClass "m::K", multiplicity := .one, owner := .ofAssociation "m::A" },
    { name := "prior", type := .abbreviated "K", multiplicity := .one, owner := .ofAssociation "m::A" }]
  replaced := [
    { name := "old", type := .ofClass "m::K", multiplicity := .one, owner := .ofAssociation "m::A" },
    { name := "old", type := .abbreviated "K", multiplicity := .one, owner := .ofAssociation "m::A" }]

/-- The class that it joins, with entries of it and of another association; and a class that no end
leads to, with an entry of it as well. -/
def loops : Model :=
  ofDocument {
    classes := [
      { path := "m::K"
        exposed := [
          { name := "gone", type := .ofClass "m::K", multiplicity := .one
            owner := .ofAssociation "m::A" },
          { name := "other", type := .ofClass "m::L", multiplicity := .one
            owner := .ofAssociation "m::B" }]
        replaced := [
          { name := "own", type := .ofClass "m::L", multiplicity := .one, owner := .ofClass "m::K" }] },
      { path := "m::L"
        exposed := [
          { name := "stray", type := .ofClass "m::K", multiplicity := .one
            owner := .ofAssociation "m::A" }] }]
    associations := [looped] }

/-- The member takes over both ends and one of the namesakes, and the stray entry of the other class
stays where it is. -/
theorem loops_renewed :
    looped ∈ loops.associations.entries ∧
      looped.toMembers.WhollyOwnedBy (.ofAssociation looped.path) ∧
      ∃ m', loops.renewViews looped.path = .ok m' ∧
        m'.classes.entries.map (fun c => (c.path, c.exposed.map (·.name), c.replaced.map (·.name))) =
          [("m::K", ["other", "next", "prior"], ["own", "old"]), ("m::L", ["stray"], [])] ∧
        m'.renewViews looped.path = .ok m' := by
  have hmem : looped ∈ loops.associations.entries := by decide +kernel
  have howned : looped.toMembers.WhollyOwnedBy (.ofAssociation looped.path) := by decide +kernel
  have hviews : (loops.renewViews looped.path).toOption.map (fun m => m.classes.entries.map fun c =>
      (c.path, c.exposed.map (·.name), c.replaced.map (·.name))) =
        some [("m::K", ["other", "next", "prior"], ["own", "old"]), ("m::L", ["stray"], [])] := by
    decide +kernel
  obtain ⟨m', hrenew, -, -, hagain⟩ := renewViews_footprint hmem
  rw [hrenew] at hviews
  exact ⟨hmem, howned, m', hrenew, Option.some.inj hviews, hagain howned⟩

end Model

end Bitemporal
