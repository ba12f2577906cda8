/-
Bitemporal/Proofs/Renewal.lean

What renewing the views of an association does to one class.

`renewViewsOf` walks over the members of an association and over each of its
lists, and changes a class wherever one is due.  Seen from a single class that
is one change (`Class.renewed`): if the class is a member, its entries of the
association are dropped, and in any case the entries that it exposes are put
at the end of its views, in the order of the association
(`renewViewsOf_entries`).

Many renewals in turn leave, behind what no association claims, the entries of
each association in the order of the renewals (`foldl_refill`).
-/
import Bitemporal.Proofs.Builtin

namespace Bitemporal

/-! ### The entries that one class exposes -/

namespace Association

/-- The ends of an association that the class of this path exposes. -/
def endsOn (a : Association) (m : Model) (path : String) : List Property :=
  a.properties.filter fun p => m.exposingClass? a p.type == some path

/-- Its qualified properties that the class exposes. -/
def qualifiedOn (a : Association) (m : Model) (path : String) : List QualifiedProperty :=
  a.qualified.filter fun q => m.exposingClass? a q.type == some path

/-- Its replaced ends that the class records. -/
def replacedOn (a : Association) (m : Model) (path : String) : List Property :=
  a.replaced.filter fun p => m.exposingClass? a p.type == some path

theorem mem_endsOn {a : Association} {m : Model} {path : String} {p : Property} :
    p ∈ a.endsOn m path ↔ p ∈ a.properties ∧ m.exposingClass? a p.type = some path := by
  rw [endsOn, List.mem_filter, beq_iff_eq]

theorem mem_qualifiedOn {a : Association} {m : Model} {path : String} {q : QualifiedProperty} :
    q ∈ a.qualifiedOn m path ↔ q ∈ a.qualified ∧ m.exposingClass? a q.type = some path := by
  rw [qualifiedOn, List.mem_filter, beq_iff_eq]

theorem mem_replacedOn {a : Association} {m : Model} {path : String} {p : Property} :
    p ∈ a.replacedOn m path ↔ p ∈ a.replaced ∧ m.exposingClass? a p.type = some path := by
  rw [replacedOn, List.mem_filter, beq_iff_eq]

/-- Which class exposes an entry depends on where the ends lead, and on nothing else. -/
theorem exposingType?_of_memberPaths {a b : Association} (h : b.memberPaths = a.memberPaths)
    (t : TypeRef) : b.exposingType? t = a.exposingType? t := by
  have he : b.exposing? = a.exposing? := by
    funext target
    rw [exposing?, exposing?, h]
  rw [exposingType?, exposingType?, he]

end Association

namespace Model

theorem exposingClass?_of_memberPaths {m : Model} {a b : Association}
    (h : b.memberPaths = a.memberPaths) (t : TypeRef) :
    m.exposingClass? b t = m.exposingClass? a t := by
  rw [exposingClass?, exposingClass?, Association.exposingType?_of_memberPaths h]

theorem memberClasses_of_memberPaths {m : Model} {a b : Association}
    (h : b.memberPaths = a.memberPaths) : m.memberClasses b = m.memberClasses a := by
  rw [memberClasses, memberClasses, h]

theorem mem_dropRepeats {p : String} {l : List String} : p ∈ dropRepeats l ↔ p ∈ l := by
  induction l with
  | nil => rfl
  | cons q l ih =>
    rcases l with - | ⟨r, l⟩
    · rfl
    · rw [dropRepeats]
      split
      · rename_i hqr
        subst hqr
        rw [ih]
        simp
      · rw [List.mem_cons, ih, ← List.mem_cons]

theorem mem_memberClasses {m : Model} {a : Association} {p : String} :
    p ∈ m.memberClasses a ↔ ∃ q ∈ a.memberPaths, (m.member? q).map (·.path) = some p := by
  rw [memberClasses, mem_dropRepeats, List.mem_filterMap]

/-- An association has two ends, that is two of its properties lead to classes, wherever it exposes
anything. -/
theorem exposing?_eq_some {a : Association} {target path : String}
    (h : a.exposing? target = some path) :
    ∃ first second, a.memberPaths = [first, second] ∧
      (first = target ∧ second = path ∨ second = target ∧ first = path) := by
  rw [Association.exposing?] at h
  split at h
  · rename_i first second hab
    refine ⟨first, second, hab, ?_⟩
    split at h
    · rename_i ht
      exact .inl ⟨ht, Option.some.inj h⟩
    · split at h
      · rename_i ht
        exact .inr ⟨ht, Option.some.inj h⟩
      · cases h
  · cases h

/-- Only members of an association expose entries of it. -/
theorem mem_memberClasses_of_exposingClass? {m : Model} {a : Association} {t : TypeRef} {p : String}
    (h : m.exposingClass? a t = some p) : p ∈ m.memberClasses a := by
  obtain ⟨q, hq, hp⟩ := Option.bind_eq_some_iff.1 h
  obtain ⟨target, -, hq⟩ := Option.bind_eq_some_iff.1 hq
  obtain ⟨first, second, hab, he⟩ := exposing?_eq_some hq
  refine mem_memberClasses.2 ⟨q, ?_, hp⟩
  rw [hab]
  rcases he with ⟨-, rfl⟩ | ⟨-, rfl⟩ <;> simp

end Model

/-! ### One renewal, seen from one class -/

namespace Class

/-- Whether an entry of a class is one that renewing the association of this path drops. -/
def drops (c : Class) (m : Model) (a : Association) (o : Owner) : Bool :=
  (m.memberClasses a).contains c.path && o.isAssociation a.path

/-- What renewing the views of an association makes of a class. -/
def renewed (m : Model) (a : Association) (c : Class) : Class :=
  { c with
    exposed := (c.exposed.filter fun p => !c.drops m a p.owner) ++ a.endsOn m c.path
    exposedQualified :=
      (c.exposedQualified.filter fun q => !c.drops m a q.owner) ++ a.qualifiedOn m c.path
    replaced := (a.replacedOn m c.path).foldl Property.addNamed
      (c.replaced.filter fun p => !c.drops m a p.owner) }

@[simp] theorem renewed_path (m : Model) (a : Association) (c : Class) :
    (c.renewed m a).path = c.path := rfl

@[simp] theorem renewed_frame (m : Model) (a : Association) (c : Class) :
    (c.renewed m a).frame = c.frame := rfl

/-! ### Renewing many associations in turn -/

/-- The class after the renewals of some associations. -/
def renewedAll (m : Model) (as : List Association) (c : Class) : Class :=
  as.foldl (fun c a => c.renewed m a) c

theorem renewedAll_cons (m : Model) (a : Association) (as : List Association) (c : Class) :
    renewedAll m (a :: as) c = renewedAll m as (c.renewed m a) := rfl

theorem renewedAll_append (m : Model) (as bs : List Association) (c : Class) :
    renewedAll m (as ++ bs) c = renewedAll m bs (renewedAll m as c) :=
  List.foldl_append

@[simp] theorem renewedAll_frame (m : Model) (as : List Association) (c : Class) :
    (renewedAll m as c).frame = c.frame := by
  induction as generalizing c with
  | nil => rfl
  | cons a as ih =>
    rw [renewedAll_cons, ih, renewed_frame]

@[simp] theorem renewedAll_path (m : Model) (as : List Association) (c : Class) :
    (renewedAll m as c).path = c.path :=
  congrArg Prod.fst (renewedAll_frame m as c)

theorem renewedAll_properties (m : Model) (as : List Association) (c : Class) :
    (renewedAll m as c).properties = c.properties := by
  induction as generalizing c with
  | nil => rfl
  | cons a as ih => exact ih (c.renewed m a)

theorem renewedAll_qualified (m : Model) (as : List Association) (c : Class) :
    (renewedAll m as c).qualified = c.qualified := by
  induction as generalizing c with
  | nil => rfl
  | cons a as ih => exact ih (c.renewed m a)

theorem renewedAll_span (m : Model) (as : List Association) (c : Class) :
    (renewedAll m as c).span = c.span := by
  induction as generalizing c with
  | nil => rfl
  | cons a as ih => exact ih (c.renewed m a)

/-- Renewals change nothing but views. -/
theorem renewedAll_eq_self_iff {m : Model} {as : List Association} {c : Class} :
    renewedAll m as c = c ↔ (renewedAll m as c).exposed = c.exposed ∧
      (renewedAll m as c).exposedQualified = c.exposedQualified ∧
        (renewedAll m as c).replaced = c.replaced := by
  have hviews : ∀ c, renewedAll m as c = { c with
      exposed := (renewedAll m as c).exposed
      exposedQualified := (renewedAll m as c).exposedQualified
      replaced := (renewedAll m as c).replaced } := by
    induction as with
    | nil => intro c; rfl
    | cons a as ih => exact fun c => ih (c.renewed m a)
  constructor
  · intro h
    rw [h]
    exact ⟨rfl, rfl, rfl⟩
  · rintro ⟨hexposed, hqualified, hreplaced⟩
    rw [hviews, hexposed, hqualified, hreplaced]

/-- The exposed properties after renewals are a fold over the exposed properties alone. -/
theorem renewedAll_exposed (m : Model) (as : List Association) (c : Class) :
    (renewedAll m as c).exposed =
      as.foldl (fun l a => (l.filter fun p => !c.drops m a p.owner) ++ a.endsOn m c.path)
        c.exposed := by
  induction as generalizing c with
  | nil => rfl
  | cons a as ih => exact ih (c.renewed m a)

theorem renewedAll_exposedQualified (m : Model) (as : List Association) (c : Class) :
    (renewedAll m as c).exposedQualified =
      as.foldl (fun l a => (l.filter fun q => !c.drops m a q.owner) ++ a.qualifiedOn m c.path)
        c.exposedQualified := by
  induction as generalizing c with
  | nil => rfl
  | cons a as ih => exact ih (c.renewed m a)

theorem renewedAll_replaced (m : Model) (as : List Association) (c : Class) :
    (renewedAll m as c).replaced =
      as.foldl (fun l a => (a.replacedOn m c.path).foldl Property.addNamed
        (l.filter fun p => !c.drops m a p.owner)) c.replaced := by
  induction as generalizing c with
  | nil => rfl
  | cons a as ih => exact ih (c.renewed m a)

end Class

/-- Dropping what each of some claimants claims and putting its fill at the end leaves, behind what
none of them claims, the fills in turn, provided that no later one claims from an earlier one's
fill. -/
theorem foldl_refill {α β : Type} {claims : β → α → Bool} {fill : β → List α} {bs : List β}
    {l : List α} (h : bs.Pairwise fun a b => ∀ x ∈ fill a, claims b x = false) :
    bs.foldl (fun l b => (l.filter fun x => !claims b x) ++ fill b) l =
      (l.filter fun x => bs.all fun b => !claims b x) ++ bs.flatMap fill := by
  induction bs generalizing l with
  | nil => simp
  | cons b bs ih =>
    obtain ⟨hb, hbs⟩ := List.pairwise_cons.1 h
    -- what the first has put in stays, as no later one claims it
    have hfill : ((fill b).filter fun x => bs.all fun b => !claims b x) = fill b := by
      rw [List.filter_eq_self]
      intro x hx
      rw [List.all_eq_true]
      intro b' hb'
      rw [hb b' hb' x hx]
      rfl
    rw [List.foldl_cons, ih hbs, List.filter_append, List.filter_filter, hfill,
      List.flatMap_cons, List.append_assoc]
    congr 1
    refine List.filter_congr fun x _ => ?_
    rw [List.all_cons, Bool.and_comm]

/-! ### A renewal of a whole model -/

namespace Model

/-- Putting the entries of a list where they are exposed, seen from the classes. -/
theorem exposeAll_entries {α : Type} (m : Model) (exposing : α → Option String)
    {put : Class → α → Class} (hput : ∀ c x, (put c x).path = c.path) (l : List α) :
    (m.exposeAll exposing put l).associations = m.associations ∧
    (m.exposeAll exposing put l).classes.entries = m.classes.entries.map fun c =>
      (l.filter fun x => exposing x == some c.path).foldl put c := by
  rw [exposeAll]
  induction l generalizing m with
  | nil =>
    refine ⟨rfl, ?_⟩
    show m.classes.entries = m.classes.entries.map id
    rw [List.map_id]
  | cons x l ih =>
    rw [List.foldl_cons]
    rcases hx : exposing x with - | path
    · obtain ⟨ha, hc⟩ := ih m
      refine ⟨ha, hc.trans (List.map_congr_left fun c _ => ?_)⟩
      rw [List.filter_cons, hx]
      rfl
    · obtain ⟨ha, hc⟩ := ih (m.modifyClass path fun c => put c x)
      refine ⟨ha, hc.trans ?_⟩
      have hmodify : (m.modifyClass path fun c => put c x).classes.entries =
          m.classes.entries.map fun c => if c.path = path then put c x else c :=
        PathTable.entries_modify fun c => hput c x
      rw [hmodify, List.map_map]
      refine List.map_congr_left fun c _ => ?_
      rw [Function.comp_apply, List.filter_cons, hx]
      by_cases hp : c.path = path
      · subst hp
        simp [hput]
      · simp [hp, Ne.symm hp]

theorem foldl_expose (c : Class) (l : List Property) :
    l.foldl Class.expose c = { c with exposed := c.exposed ++ l } := by
  induction l generalizing c with
  | nil => simp
  | cons p l ih => simp [ih, Class.expose]

theorem foldl_exposeQualified (c : Class) (l : List QualifiedProperty) :
    l.foldl Class.exposeQualified c = { c with exposedQualified := c.exposedQualified ++ l } := by
  induction l generalizing c with
  | nil => simp
  | cons p l ih => simp [ih, Class.exposeQualified]

private theorem foldl_recordReplaced (c : Class) (l : List Property) :
    l.foldl Class.recordReplaced c =
      { c with replaced := l.foldl Property.addNamed c.replaced } := by
  induction l generalizing c with
  | nil => rfl
  | cons p l ih => simp [ih, Class.recordReplaced]

/-- Dropping the entries of an association from its members, one by one. -/
private theorem cleared_entries (a : Association) (ps : List String) (m : Model) :
    (ps.foldl (fun m p => m.modifyClass p fun c => c.withoutEntriesOf a.path) m).associations =
      m.associations ∧
    (ps.foldl (fun m p => m.modifyClass p fun c => c.withoutEntriesOf a.path) m).classes.entries =
      m.classes.entries.map fun c => if c.path ∈ ps then c.withoutEntriesOf a.path else c := by
  induction ps generalizing m with
  | nil => exact ⟨rfl, by simp⟩
  | cons p ps ih =>
    rw [List.foldl_cons]
    obtain ⟨ha, hc⟩ := ih (m.modifyClass p fun c => c.withoutEntriesOf a.path)
    have hmodify : (m.modifyClass p fun c => c.withoutEntriesOf a.path).classes.entries =
        m.classes.entries.map fun c => if c.path = p then c.withoutEntriesOf a.path else c :=
      PathTable.entries_modify fun _ => rfl
    refine ⟨ha, ?_⟩
    rw [hc, hmodify, List.map_map]
    refine List.map_congr_left fun c _ => ?_
    -- dropping the same entries twice is dropping them once
    have htwice : (c.withoutEntriesOf a.path).withoutEntriesOf a.path =
        c.withoutEntriesOf a.path := by
      simp [Class.withoutEntriesOf]
    have hpath : (c.withoutEntriesOf a.path).path = c.path := rfl
    rw [Function.comp_apply]
    by_cases hp : c.path = p
    · rw [if_pos hp, hpath, if_pos (show c.path ∈ p :: ps by rw [hp]; exact List.mem_cons_self),
        htwice, ite_self]
    · rw [if_neg hp]
      simp only [List.mem_cons, hp, false_or]

/-- **A renewal, class by class.** -/
theorem renewViewsOf_entries (m : Model) (a : Association) :
    (m.renewViewsOf a).associations = m.associations ∧
    (m.renewViewsOf a).classes.entries = m.classes.entries.map (Class.renewed m a) := by
  rw [renewViewsOf]
  obtain ⟨ha₀, hc₀⟩ := cleared_entries a (m.memberClasses a) m
  generalize (m.memberClasses a).foldl _ m = m₀ at ha₀ hc₀ ⊢
  obtain ⟨ha₁, hc₁⟩ := exposeAll_entries m₀ (fun p => m.exposingClass? a p.type)
    (fun _ _ => rfl : ∀ c x, (Class.expose c x).path = c.path) a.properties
  generalize m₀.exposeAll _ Class.expose a.properties = m₁ at ha₁ hc₁ ⊢
  obtain ⟨ha₂, hc₂⟩ := exposeAll_entries m₁ (fun q => m.exposingClass? a q.type)
    (fun _ _ => rfl : ∀ c x, (Class.exposeQualified c x).path = c.path) a.qualified
  generalize m₁.exposeAll _ Class.exposeQualified a.qualified = m₂ at ha₂ hc₂ ⊢
  obtain ⟨ha₃, hc₃⟩ := exposeAll_entries m₂ (fun p => m.exposingClass? a p.type)
    (fun _ _ => rfl : ∀ c x, (Class.recordReplaced c x).path = c.path) a.replaced
  refine ⟨by rw [ha₃, ha₂, ha₁, ha₀], ?_⟩
  rw [hc₃, hc₂, hc₁, hc₀, List.map_map, List.map_map, List.map_map]
  refine List.map_congr_left fun c _ => ?_
  -- on each class the three lists are filled without regard to one another
  simp only [Function.comp_apply, foldl_expose, foldl_exposeQualified, foldl_recordReplaced]
  by_cases hmem : c.path ∈ m.memberClasses a
  · simp [hmem, Class.withoutEntriesOf, Class.renewed, Class.drops, Association.endsOn,
      Association.qualifiedOn, Association.replacedOn]
  · simp [hmem, Class.renewed, Class.drops, Association.endsOn, Association.qualifiedOn,
      Association.replacedOn]

theorem renewViewsOf_frame (m : Model) (a : Association) : (m.renewViewsOf a).frame = m.frame :=
  frame_of_map (Class.renewed_frame m a) (m.renewViewsOf_entries a).2

end Model

/-- What a renewal makes of a class depends on the frame only. -/
theorem Class.renewed_of_frame {m m' : Model} (h : m'.frame = m.frame) (a : Association) :
    Class.renewed m' a = Class.renewed m a := by
  funext c
  have he : m'.exposingClass? a = m.exposingClass? a := funext (Model.exposingClass?_frame h a)
  have hm := Model.memberClasses_frame h a
  simp only [Class.renewed, Class.drops, Association.endsOn, Association.qualifiedOn,
    Association.replacedOn, he, hm]

end Bitemporal
