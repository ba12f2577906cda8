/-
Bitemporal/Proofs/Exposure.lean

On which classes an association shows its ends.

An association shows an end on the class that its opposite end leads to
(`mem_endsOn_iff_opposite`), provided that exactly two of its properties lead to
classes.  The rule is applied twice, and twice it reads a reference in its own
way.  Loading a document takes the path of the opposite end for the path of a
class.  Renewing the views takes every path for an abbreviation, so that a path
which no class has leads to the first class of its local name, whether the end
is abbreviated or not.

The two readings, and that of the types of properties (`Model.resolve?`), differ
on paths that no class has (`Model.FindsByName`), and on nothing else.  Hence a
renewal shows ends on the classes that the opposite ends denote unless a full
path is read as an abbreviation (`renewViews_exposes`), and it shows what loading
showed unless a class is found by its local name (`renewViews_ofDocument`).

Whatever loading puts on a class some association claims.  If classes are stored
without views, the names that have to be apart for generated code to be grounded
are therefore those that each class presents, and no others
(`grounded_ofDocument`).
-/
import Bitemporal.Proofs.DocumentOrder
import Bitemporal.Proofs.Overloads
import Mathlib.Data.List.Perm.Subperm

namespace Bitemporal

/-! ### The ends of an association -/

namespace Association

variable {a : Association} {p o o' : Property}

/-- The properties of an association that lead to classes. -/
def ends (a : Association) : List Property :=
  a.properties.filter fun p => p.type.path?.isSome

/-- An association has two ends, these. -/
def Opposite (a : Association) (p o : Property) : Prop :=
  a.ends = [p, o] ∨ a.ends = [o, p]

theorem map_ends (a : Association) :
    a.ends.map (fun p => p.type.path?) = a.memberPaths.map some := by
  rw [ends, memberPaths]
  induction a.properties with
  | nil => rfl
  | cons p ps ih =>
    rcases hp : p.type.path? with - | path
    · simp [hp, ih]
    · simp [hp, ih]

theorem Opposite.symm (h : a.Opposite p o) : a.Opposite o p :=
  h.elim .inr .inl

theorem Opposite.unique (h : a.Opposite p o) (h' : a.Opposite p o') : o = o' := by
  rcases h with h | h <;> rcases h' with h' | h' <;> rw [h] at h' <;> simp_all

theorem Opposite.mem_ends (h : a.Opposite p o) : p ∈ a.ends := by
  rcases h with h | h <;> rw [h] <;> simp

theorem Opposite.exists_path (h : a.Opposite p o) : ∃ path, p.type.path? = some path :=
  Option.isSome_iff_exists.1 (List.mem_filter.1 h.mem_ends).2

/-- The rule by which ends are shown, in terms of the ends. -/
theorem exposing?_eq_some_iff {target path : String} :
    a.exposing? target = some path ↔
      ∃ p o, a.Opposite p o ∧ p.type.path? = some target ∧ o.type.path? = some path := by
  have hends := a.map_ends
  constructor
  · intro h
    obtain ⟨first, second, hpaths, hside⟩ := Model.exposing?_eq_some h
    rw [hpaths] at hends
    obtain ⟨p, ps, hp, hfirst, hends⟩ := List.map_eq_cons_iff.1 hends
    obtain ⟨o, os, rfl, hsecond, hends⟩ := List.map_eq_cons_iff.1 hends
    obtain rfl := List.map_eq_nil_iff.1 hends
    rcases hside with ⟨rfl, rfl⟩ | ⟨rfl, rfl⟩
    · exact ⟨p, o, .inl hp, hfirst, hsecond⟩
    · exact ⟨o, p, .inr hp, hsecond, hfirst⟩
  · rintro ⟨p, o, h | h, htarget, hpath⟩
    · rw [h, List.map_cons, List.map_cons, htarget, hpath] at hends
      have hpaths : a.memberPaths = [target, path] :=
        List.map_injective_iff.2 (fun _ _ => Option.some.inj) hends.symm
      simp [exposing?, hpaths]
    · rw [h, List.map_cons, List.map_cons, htarget, hpath] at hends
      have hpaths : a.memberPaths = [path, target] :=
        List.map_injective_iff.2 (fun _ _ => Option.some.inj) hends.symm
      -- of an association of a class with itself the first end is found
      by_cases hself : path = target
      · simp [exposing?, hpaths, hself]
      · simp [exposing?, hpaths, hself]

/-- An end is loaded on the class that its opposite leads to. -/
theorem Opposite.exposingType?_eq {path : String} (h : a.Opposite p o)
    (hpath : o.type.path? = some path) : a.exposingType? p.type = some path := by
  obtain ⟨target, htarget⟩ := h.exists_path
  rw [exposingType?, htarget, Option.bind_some]
  exact exposing?_eq_some_iff.2 ⟨p, o, h, htarget, hpath⟩

/-- **An end is shown where its opposite leads**, read as an abbreviation. -/
theorem mem_endsOn_iff_opposite {m : Model} {path : String} :
    p ∈ a.endsOn m path ↔ ∃ o, a.Opposite p o ∧
      ∃ reference, o.type.path? = some reference ∧
        (m.member? reference).map (·.path) = some path := by
  rw [mem_endsOn]
  constructor
  · rintro ⟨hp, h⟩
    obtain ⟨reference, hexposing, hpath⟩ := Option.bind_eq_some_iff.1 h
    obtain ⟨target, htarget, hexposing⟩ := Option.bind_eq_some_iff.1 hexposing
    obtain ⟨p', o, hopposite, htarget', hreference⟩ := exposing?_eq_some_iff.1 hexposing
    have hend : p ∈ a.ends := List.mem_filter.2 ⟨hp, by rw [htarget]; rfl⟩
    have hside : p = p' ∨ p = o := by
      rcases hopposite with h | h <;> rw [h] at hend <;> simpa [or_comm] using hend
    rcases hside with rfl | rfl
    · exact ⟨o, hopposite, reference, hreference, hpath⟩
    · -- both ends lead to one class, and `p` is the one behind
      refine ⟨p', hopposite.symm, reference, ?_, hpath⟩
      rw [htarget', ← htarget, hreference]
  · rintro ⟨o, hopposite, reference, hreference, hpath⟩
    refine ⟨List.mem_of_mem_filter hopposite.mem_ends, ?_⟩
    rw [Model.exposingClass?, hopposite.exposingType?_eq hreference, Option.bind_some, hpath]

end Association

/-! ### Classes found by their local names -/

namespace Model

variable {m : Model} {a : Association} {type : TypeRef} {c : Class}

/-- No class has the path of a reference, and the class is found by the local name of it. -/
def FindsByName (m : Model) (type : TypeRef) (c : Class) : Prop :=
  ∃ path, type.path? = some path ∧ m.class? path = none ∧ m.member? path = some c

theorem member?_of_class? {path : String} (h : m.class? path = some c) : m.member? path = some c := by
  have hresolve : m.resolve? (.ofClass path) = some c := h
  exact member?_of_resolve? rfl hresolve

theorem mem_of_member? {path : String} (h : m.member? path = some c) : c ∈ m.classes.entries := by
  rcases hc : m.class? path with - | c'
  · rw [member?, resolve?, hc] at h
    exact List.mem_of_find?_eq_some h
  · obtain rfl : c' = c := Option.some.inj ((member?_of_class? hc).symm.trans h)
    exact (class?_eq_some_iff.1 hc).1

theorem FindsByName.mem (h : m.FindsByName type c) : c ∈ m.classes.entries :=
  let ⟨_, _, _, hmember⟩ := h
  mem_of_member? hmember

theorem member?_eq_some_of_mem {path : String} (hc : c ∈ m.classes.entries)
    (h : (m.member? path).map (·.path) = some c.path) : m.member? path = some c := by
  obtain ⟨c', hc', hpath⟩ := Option.map_eq_some_iff.1 h
  rw [hc', m.classes.eq_of_path_eq (mem_of_member? hc') hc hpath]

/-- Read as an abbreviation a reference leads to the class it denotes, or by a full path, which no
class has, to one of the same local name. -/
theorem member?_eq_some_iff {path : String} (hpath : type.path? = some path) :
    m.member? path = some c ↔
      m.resolve? type = some c ∨ type = .ofClass path ∧ m.FindsByName type c := by
  constructor
  · intro h
    cases type with
    | primitive p => cases hpath
    | abbreviated p =>
      obtain rfl := Option.some.inj hpath
      exact .inl h
    | ofClass p =>
      obtain rfl := Option.some.inj hpath
      rcases hc : m.class? p with - | c'
      · exact .inr ⟨rfl, p, rfl, hc, h⟩
      · obtain rfl : c' = c := Option.some.inj ((member?_of_class? hc).symm.trans h)
        exact .inl hc
  · rintro (h | ⟨-, path', hpath', -, h⟩)
    · exact member?_of_resolve? hpath h
    · obtain rfl := Option.some.inj (hpath.symm.trans hpath')
      exact h

/-! ### Renewing shows ends on the classes that their opposites denote -/

theorem mem_endsOn_iff_denotes {p : Property} (hc : c ∈ m.classes.entries) :
    p ∈ a.endsOn m c.path ↔ ∃ o, a.Opposite p o ∧
      (m.resolve? o.type = some c ∨ ∃ path, o.type = .ofClass path ∧ m.FindsByName o.type c) := by
  rw [Association.mem_endsOn_iff_opposite]
  refine exists_congr fun o => and_congr_right fun hopposite => ?_
  obtain ⟨path, hpath⟩ := hopposite.symm.exists_path
  constructor
  · rintro ⟨path', hpath', hmember⟩
    exact ((member?_eq_some_iff hpath').1 (member?_eq_some_of_mem hc hmember)).imp_right
      fun h => ⟨path', h⟩
  · intro h
    have hmember : m.member? path = some c := by
      refine (member?_eq_some_iff hpath).2 (h.imp_right ?_)
      rintro ⟨path', htype, hname⟩
      rw [htype] at hpath
      exact ⟨htype.trans (congrArg _ (Option.some.inj hpath)), hname⟩
    exact ⟨path, hpath, congrArg (Option.map _) hmember⟩

/-- **Where a renewal shows ends.**  Behind what a class keeps, a renewal puts those ends of the
association whose opposite denotes the class, and those whose opposite is a full path that no class
has and that has the local name of the class.  Hence the ends are shown on classes that their
opposites denote if and only if no opposite is such a path. -/
theorem renewViews_exposes (h : a ∈ m.associations.entries) :
    ∃ m', m.renewViews a.path = .ok m' ∧
      List.Forall₂ (fun c c' => c'.path = c.path ∧
        c'.exposed = (c.exposed.filter fun p => !c.drops m a p.owner) ++ a.endsOn m c.path)
        m.classes.entries m'.classes.entries ∧
      (∀ c ∈ m.classes.entries, ∀ p, p ∈ a.endsOn m c.path ↔ ∃ o, a.Opposite p o ∧
        (m.resolve? o.type = some c ∨ ∃ path, o.type = .ofClass path ∧ m.FindsByName o.type c)) ∧
      ((∀ c ∈ m.classes.entries, ∀ p ∈ a.endsOn m c.path,
          ∃ o, a.Opposite p o ∧ m.resolve? o.type = some c) ↔
        ∀ p o c path, a.Opposite p o → o.type = .ofClass path → ¬ m.FindsByName o.type c) := by
  refine ⟨m.renewViewsOf a, ?_, ?_, fun c hc p => mem_endsOn_iff_denotes hc, ?_, ?_⟩
  · rw [renewViews, association?_path h]
  · rw [(renewViewsOf_entries m a).2, List.forall₂_map_right_iff]
    exact List.forall₂_same.2 fun c _ => ⟨rfl, rfl⟩
  · -- an end shown by the local name would have an opposite that denotes the class
    intro hall p o c path hopposite htype hname
    have hc : c ∈ m.classes.entries := hname.mem
    obtain ⟨o', hopposite', hresolve⟩ :=
      hall c hc p ((mem_endsOn_iff_denotes hc).2 ⟨o, hopposite, .inr ⟨path, htype, hname⟩⟩)
    obtain rfl := hopposite.unique hopposite'
    obtain ⟨path', hpath, hnone, -⟩ := hname
    rw [htype] at hpath hresolve
    obtain rfl := Option.some.inj hpath
    rw [resolve?, hnone] at hresolve
    cases hresolve
  · intro hall c hc p hp
    obtain ⟨o, hopposite, hresolve | ⟨path, htype, hname⟩⟩ := (mem_endsOn_iff_denotes hc).1 hp
    · exact ⟨o, hopposite, hresolve⟩
    · exact absurd hname (hall p o c path hopposite htype)

/-- An association of `m::K` with a class, by the end `far`. -/
def joining (type : TypeRef) : Association where
  path := "m::A"
  properties := [
    { name := "far", type, multiplicity := .zeroOne, owner := .ofAssociation "m::A" },
    { name := "k", type := .ofClass "m::K", multiplicity := .zeroOne
      owner := .ofAssociation "m::A" }]

/-- A model without the class that the end leads to, and with a class of the same local name. -/
def elsewhere : Model :=
  ofDocument {
    classes := [{ path := "m::K" }, { path := "y::Foo" }]
    associations := [joining (.ofClass "x::Foo")] }

/-- The end `k` is shown on `y::Foo`, although its opposite denotes no class. -/
theorem elsewhere_exposes :
    elsewhere.resolve? (.ofClass "x::Foo") = none ∧
      (elsewhere.renewViews "m::A").toOption.map (fun m =>
        m.classes.entries.map fun c => (c.path, c.exposed.map (·.name))) =
          some [("m::K", ["far"]), ("y::Foo", ["k"])] ∧
      let a := joining (.ofClass "x::Foo")
      ¬ ∀ c ∈ elsewhere.classes.entries, ∀ p ∈ a.endsOn elsewhere c.path,
        ∃ o, a.Opposite p o ∧ elsewhere.resolve? o.type = some c := by
  refine ⟨by decide +kernel, by decide +kernel, fun hall => ?_⟩
  have ha : joining (.ofClass "x::Foo") ∈ elsewhere.associations.entries := by decide +kernel
  obtain ⟨-, -, -, -, hiff⟩ := renewViews_exposes ha
  exact hiff.1 hall _ _ { path := "y::Foo" } "x::Foo" (.inr rfl) rfl
    ⟨"x::Foo", rfl, by decide +kernel, by decide +kernel⟩

end Model

/-! ### Loading and renewing -/

namespace Association

/-- The ends that loading the association puts on the class of this path. -/
def loadedOn (a : Association) (path : String) : List Property :=
  a.properties.filter fun p => a.exposingType? p.type == some path

/-- The qualified properties that loading the association puts on the class of this path. -/
def loadedQualifiedOn (a : Association) (path : String) : List QualifiedProperty :=
  a.qualified.filter fun q => a.exposingType? q.type == some path

end Association

section Lists

variable {α β : Type}

/-- Where only one of some elements fills in what is claimed, what is claimed is its fill. -/
theorem filter_flatMap_eq {key : α → String} {fill : α → List β} {claims : β → Bool} {as : List α}
    {a : α} (hkeys : (as.map key).Nodup) (ha : a ∈ as) (hclaims : ∀ x ∈ fill a, claims x = true)
    (hothers : ∀ b ∈ as, key b ≠ key a → ∀ x ∈ fill b, claims x = false) :
    (as.flatMap fill).filter claims = fill a := by
  obtain ⟨before, after, rfl⟩ := List.append_of_mem ha
  rw [List.map_append, List.map_cons, List.nodup_append, List.nodup_cons] at hkeys
  obtain ⟨-, ⟨hafter, -⟩, hbefore⟩ := hkeys
  have hnil : ∀ bs : List α, (∀ b ∈ bs, b ∈ before ++ a :: after ∧ key b ≠ key a) →
      (bs.flatMap fill).filter claims = [] := by
    intro bs hbs
    rw [List.filter_eq_nil_iff]
    intro x hx
    obtain ⟨b, hb, hx⟩ := List.mem_flatMap.1 hx
    rw [hothers b (hbs b hb).1 (hbs b hb).2 x hx]
    exact Bool.false_ne_true
  rw [List.flatMap_append, List.flatMap_cons, List.filter_append, List.filter_append,
    hnil before fun b hb => ⟨by simp [hb], hbefore _ (List.mem_map_of_mem hb) _ List.mem_cons_self⟩,
    hnil after fun b hb => ⟨by simp [hb], fun he => hafter (he ▸ List.mem_map_of_mem hb)⟩,
    List.nil_append, List.append_nil, List.filter_eq_self.2 hclaims]

/-- Putting in more than was taken out loses nothing, and keeps a list up to its order if and only if
it is not more. -/
theorem perm_refill_iff {l old new : List α} {claims : α → Bool} (hold : l.filter claims = old)
    (h : old.Sublist new) :
    l.Subperm ((l.filter fun x => !claims x) ++ new) ∧
      (((l.filter fun x => !claims x) ++ new).Perm l ↔ old = new) := by
  have hsplit : ((l.filter fun x => !claims x) ++ old).Perm l := by
    rw [← hold]
    exact List.perm_append_comm.trans (List.filter_append_perm claims l)
  refine ⟨hsplit.symm.subperm.trans (h.append_left _).subperm, ?_, ?_⟩
  · intro hperm
    exact h.eq_of_length ((List.perm_append_left_iff _).1 (hperm.trans hsplit.symm)).length_eq.symm
  · rintro rfl
    exact hsplit

end Lists

namespace Model

variable {m : Model} {d : Document} {a : Association} {c : Class}

/-- Loading associations, class by class. -/
theorem foldl_addAssociation_entries (as : List Association) (m : Model) :
    (as.foldl addAssociation m).classes.entries = m.classes.entries.map fun c =>
      { c with
        exposed := c.exposed ++ as.flatMap (·.loadedOn c.path)
        exposedQualified := c.exposedQualified ++ as.flatMap (·.loadedQualifiedOn c.path) } := by
  induction as generalizing m with
  | nil => simp
  | cons a as ih =>
    rw [List.foldl_cons, ih, (addAssociation_entries m a).2, List.map_map]
    refine List.map_congr_left fun c _ => ?_
    simp only [Function.comp_apply, List.flatMap_cons, List.append_assoc]
    rfl

/-- What a loaded class shows, if it showed nothing before. -/
theorem exposed_ofDocument (hviews : ∀ c ∈ d.classes, c.exposed = [] ∧ c.exposedQualified = [])
    (hc : c ∈ (ofDocument d).classes.entries) :
    c.exposed = d.associations.flatMap (·.loadedOn c.path) ∧
      c.exposedQualified = d.associations.flatMap (·.loadedQualifiedOn c.path) := by
  rw [ofDocument, foldl_addAssociation_entries, foldl_addClass] at hc
  obtain ⟨c₀, hc₀, rfl⟩ := List.mem_map.1 hc
  have hlisted : c₀ ∈ d.classes :=
    (PathTable.mem_of_mem_foldl_insert hc₀).resolve_left List.not_mem_nil
  obtain ⟨hexposed, hqualified⟩ := hviews c₀ hlisted
  rw [hexposed, hqualified]
  exact ⟨rfl, rfl⟩

/-- Where classes are stored without views, all that they have to tell apart by name is what they
present. -/
theorem standing_ofDocument (hpaths : (d.associations.map Association.path).Nodup)
    (hviews : ∀ c ∈ d.classes, c.exposed = [] ∧ c.exposedQualified = [])
    (howned : ∀ a ∈ d.associations, a.toMembers.OwnedBy (.ofAssociation a.path))
    (hc : c ∈ (ofDocument d).classes.entries) :
    (ofDocument d).standing c = (ofDocument d).presented c := by
  have hnone : c.unclaimed (ofDocument d) (ofDocument d).associations.entries Property.owner
      c.exposed = [] := by
    rw [Class.unclaimed, List.filter_eq_nil_iff]
    intro p hp hunclaimed
    -- the association that put the end there claims it
    rw [(exposed_ofDocument hviews hc).1] at hp
    obtain ⟨a, ha, hp⟩ := List.mem_flatMap.1 hp
    obtain ⟨hp, hexposing⟩ := List.mem_filter.1 hp
    have hentry := (associations_ofDocument_perm hpaths).mem_iff.2 ha
    have hdrops : c.drops (ofDocument d) a p.owner = true := by
      rw [(howned a ha).properties p hp]
      exact drops_of_exposingType? hc (beq_iff_eq.1 hexposing)
    have := List.all_eq_true.1 hunclaimed a hentry
    rw [hdrops] at this
    cases this
  rw [standing, hnone, List.append_nil]

theorem edgePointsApart_ofDocument_iff (hpaths : (d.associations.map Association.path).Nodup)
    (hviews : ∀ c ∈ d.classes, c.exposed = [] ∧ c.exposedQualified = [])
    (howned : ∀ a ∈ d.associations, a.toMembers.OwnedBy (.ofAssociation a.path)) :
    (ofDocument d).EdgePointsApart ↔ ∀ c ∈ (ofDocument d).classes.entries,
      (((ofDocument d).presented c).map Property.name).Pairwise fun a b =>
        a ≠ b ∧ a ≠ Naming.edgePoint b ∧ b ≠ Naming.edgePoint a := by
  refine forall₂_congr fun c hc => ?_
  rw [standing_ofDocument hpaths hviews howned hc]

/-- **The generated code of a document.**  Where classes are stored without views, every generated
accessor of the compiled model is grounded as soon as the names that each class presents are distinct
and none is that of another's edge point. -/
theorem grounded_ofDocument {settings : Settings} {report : Report} {m' : Model}
    (hcompile : (ofDocument d).compile .builtin settings = .ok (report, m'))
    (hpaths : (d.associations.map Association.path).Nodup)
    (hviews : ∀ c ∈ d.classes, c.exposed = [] ∧ c.exposedQualified = [])
    (hpristine : (ofDocument d).Pristine) (howned : (ofDocument d).Owned)
    (hnames : ∀ c ∈ (ofDocument d).classes.entries,
      (((ofDocument d).presented c).map Property.name).Pairwise fun a b =>
        a ≠ b ∧ a ≠ Naming.edgePoint b ∧ b ≠ Naming.edgePoint a)
    (hdates : (ofDocument d).DatesFree) {c' : Class} (hc' : c' ∈ m'.classes.entries)
    {q : QualifiedProperty} (hq : q ∈ c'.allQualified) (hgenerated : q.isGenerated = true) :
    q.Grounded m' c' := by
  have hmembers : ∀ a ∈ d.associations, a.toMembers.OwnedBy (.ofAssociation a.path) := fun a ha =>
    howned.associations a ((associations_ofDocument_perm hpaths).mem_iff.2 ha)
  have hapart : (ofDocument d).EdgePointsApart :=
    (edgePointsApart_ofDocument_iff hpaths hviews hmembers).2 hnames
  exact grounded_of_mem_allQualified hpristine (compiles_of_compile hcompile) howned hapart hdates hc'
    hq hgenerated

/-- What renewing an association makes of a list of entries that loading associations has put on a
class. -/
theorem renewed_of_loaded {α : Type} (ownerOf : α → Owner) (typeOf : α → TypeRef)
    (entriesOf : Association → List α) {as : List Association} {l : List α}
    (hpaths : (as.map Association.path).Nodup) (ha : a ∈ as) (hc : c ∈ m.classes.entries)
    (howned : ∀ b ∈ as, ∀ x ∈ entriesOf b, ownerOf x = .ofAssociation b.path)
    (hloaded : l = as.flatMap fun b =>
      (entriesOf b).filter fun x => b.exposingType? (typeOf x) == some c.path) :
    l.Subperm ((l.filter fun x => !c.drops m a (ownerOf x)) ++
        (entriesOf a).filter fun x => m.exposingClass? a (typeOf x) == some c.path) ∧
      (((l.filter fun x => !c.drops m a (ownerOf x)) ++
          (entriesOf a).filter fun x => m.exposingClass? a (typeOf x) == some c.path).Perm l ↔
        ((entriesOf a).filter fun x => a.exposingType? (typeOf x) == some c.path) =
          (entriesOf a).filter fun x => m.exposingClass? a (typeOf x) == some c.path) := by
  refine perm_refill_iff ?_ ?_
  · -- of what is shown, the renewal drops what the association itself has put there
    rw [hloaded]
    refine filter_flatMap_eq hpaths ha ?_ ?_
    · intro x hx
      obtain ⟨hx, ht⟩ := List.mem_filter.1 hx
      rw [howned a ha x hx]
      exact drops_of_exposingType? hc (by simpa using ht)
    · intro b hb hne x hx
      rw [howned b hb x (List.mem_of_mem_filter hx), Class.drops, Bool.and_eq_false_iff]
      exact .inr (by simpa [Owner.isAssociation] using hne)
  · refine List.monotone_filter_right _ fun x hx => ?_
    simpa using exposingClass?_of_exposingType? hc (by simpa using hx)

/-- Loading and renewing show an association alike if and only if no end is found by its local name. -/
theorem loaded_eq_renewed_iff :
    (∀ c ∈ m.classes.entries, a.loadedOn c.path = a.endsOn m c.path ∧
        a.loadedQualifiedOn c.path = a.qualifiedOn m c.path) ↔
      ∀ p o c, a.Opposite p o → ¬ m.FindsByName o.type c := by
  constructor
  · rintro hall p o c hopposite ⟨path, hpath, hnone, hmember⟩
    have hc : c ∈ m.classes.entries := mem_of_member? hmember
    have hp : p ∈ a.endsOn m c.path :=
      Association.mem_endsOn_iff_opposite.2
        ⟨o, hopposite, path, hpath, congrArg (Option.map Class.path) hmember⟩
    -- loading shows `p` on the class of the opposite path itself
    rw [← (hall c hc).1] at hp
    have hexposing : a.exposingType? p.type = some path := hopposite.exposingType?_eq hpath
    have hpath' : path = c.path := by
      have := (List.mem_filter.1 hp).2
      rw [hexposing] at this
      simpa using this
    rw [hpath', class?_path hc] at hnone
    cases hnone
  · intro hall c hc
    have hiff : ∀ t : TypeRef, (a.exposingType? t == some c.path) =
        (m.exposingClass? a t == some c.path) := by
      intro t
      rw [Bool.eq_iff_iff, beq_iff_eq, beq_iff_eq]
      refine ⟨exposingClass?_of_exposingType? hc, fun h => ?_⟩
      obtain ⟨path, hexposing, hmember⟩ := Option.bind_eq_some_iff.1 h
      obtain ⟨target, -, hopposite⟩ := Option.bind_eq_some_iff.1 hexposing
      obtain ⟨p, o, hopposite, -, hpath⟩ := Association.exposing?_eq_some_iff.1 hopposite
      have hmember := member?_eq_some_of_mem hc hmember
      rcases hclass : m.class? path with - | c'
      · exact absurd ⟨path, hpath, hclass, hmember⟩ (hall p o c hopposite)
      · obtain rfl : c' = c := Option.some.inj ((member?_of_class? hclass).symm.trans hmember)
        rw [hexposing, (class?_eq_some_iff.1 hclass).2]
    exact ⟨List.filter_congr fun p _ => hiff p.type, List.filter_congr fun q _ => hiff q.type⟩

/-- **Loading and renewing.**  Where classes are stored without views, renewing an association right
after loading takes nothing from what they show, and it leaves what they show as it was, up to the
order, if and only if no end is found by its local name. -/
theorem renewViews_ofDocument (hpaths : (d.associations.map Association.path).Nodup)
    (hviews : ∀ c ∈ d.classes, c.exposed = [] ∧ c.exposedQualified = [])
    (howned : ∀ a ∈ d.associations, a.toMembers.OwnedBy (.ofAssociation a.path))
    (ha : a ∈ d.associations) :
    ∃ m', (ofDocument d).renewViews a.path = .ok m' ∧
      List.Forall₂ (fun c c' => c'.path = c.path ∧ c.exposed.Subperm c'.exposed ∧
        c.exposedQualified.Subperm c'.exposedQualified)
        (ofDocument d).classes.entries m'.classes.entries ∧
      (List.Forall₂ (fun c c' => c'.path = c.path ∧ c'.exposed.Perm c.exposed ∧
          c'.exposedQualified.Perm c.exposedQualified)
          (ofDocument d).classes.entries m'.classes.entries ↔
        ∀ p o c, a.Opposite p o → ¬ (ofDocument d).FindsByName o.type c) := by
  have hentry : a ∈ (ofDocument d).associations.entries := by
    rw [associations_ofDocument]
    exact (PathTable.ofList_perm hpaths).mem_iff.2 ha
  have hproperties := fun c (hc : c ∈ (ofDocument d).classes.entries) =>
    renewed_of_loaded Property.owner (·.type) (·.properties) hpaths ha hc
      (fun b hb => (howned b hb).properties) (exposed_ofDocument hviews hc).1
  have hqualified := fun c (hc : c ∈ (ofDocument d).classes.entries) =>
    renewed_of_loaded QualifiedProperty.owner (·.type) (·.qualified) hpaths ha hc
      (fun b hb => (howned b hb).qualified) (exposed_ofDocument hviews hc).2
  refine ⟨(ofDocument d).renewViewsOf a, ?_, ?_, ?_⟩
  · rw [renewViews, association?_path hentry]
  · rw [(renewViewsOf_entries _ a).2, List.forall₂_map_right_iff]
    exact List.forall₂_same.2 fun c hc => ⟨rfl, (hproperties c hc).1, (hqualified c hc).1⟩
  · rw [(renewViewsOf_entries _ a).2, List.forall₂_map_right_iff, List.forall₂_same,
      ← loaded_eq_renewed_iff]
    refine forall₂_congr fun c hc => ?_
    exact (and_iff_right rfl).trans (and_congr (hproperties c hc).2 (hqualified c hc).2)

/-- A document with a class that the end `far` abbreviates. -/
def abridged : Document where
  classes := [{ path := "m::K" }, { path := "m::L" }]
  associations := [joining (.abbreviated "L")]

/-- Loading shows nothing on `m::L`, and renewing shows the end `k` on it. -/
theorem abridged_renewed :
    (ofDocument abridged).classes.entries.map (fun c => (c.path, c.exposed.map (·.name))) =
        [("m::K", ["far"]), ("m::L", [])] ∧
      ∃ m', (ofDocument abridged).renewViews "m::A" = .ok m' ∧
        ¬ List.Forall₂ (fun c c' => c'.path = c.path ∧ c'.exposed.Perm c.exposed ∧
            c'.exposedQualified.Perm c.exposedQualified)
          (ofDocument abridged).classes.entries m'.classes.entries := by
  refine ⟨by decide +kernel, ?_⟩
  have ha : joining (.abbreviated "L") ∈ abridged.associations := by decide
  obtain ⟨m', hrenew, -, hiff⟩ := renewViews_ofDocument (by decide) (by decide) (by decide) ha
  refine ⟨m', hrenew, fun hsame => ?_⟩
  exact hiff.1 hsame _ _ { path := "m::L" } (.inr rfl)
    ⟨"L", rfl, by decide +kernel, by decide +kernel⟩

end Model

end Bitemporal
