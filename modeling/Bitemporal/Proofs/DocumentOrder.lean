/-
Bitemporal/Proofs/DocumentOrder.lean

The order of a document.

A document lists its classes and associations in any order, and its tables do
not show it (`PathTable.ofList_eq_of_perm`).  The views do: loading an
association puts its entries behind whatever a class shows already, so that
the entries stand as the associations were listed.  But all of them are
entries that renewing their association drops (`Underlies.addAssociation`), and
a compilation renews the views of every association before it reads one.  Hence
documents that list the same compile alike (`compile_eq_of_perm`), whether the
compilation succeeds or not.
-/
import Bitemporal.Proofs.Agreement
import Bitemporal.Proofs.Presented

namespace Bitemporal

/-! ### Tables -/

namespace PathTable

open HasPath

variable {α : Type} [HasPath α]

/-- An element with a path of its own is added. -/
theorem insertEntry_perm {a : α} {l : List α} (h : path a ∉ l.map path) :
    (insertEntry a l).Perm (a :: l) := by
  induction l with
  | nil => rfl
  | cons b l ih =>
    rw [List.map_cons, List.mem_cons, not_or] at h
    rw [insertEntry]
    split
    · rfl
    · rw [if_neg h.1]
      exact ((ih h.2).cons b).trans (List.Perm.swap a b l)

theorem foldl_insert_perm {l : List α} {t : PathTable α} (h : ((t.entries ++ l).map path).Nodup) :
    (l.foldl insert t).entries.Perm (t.entries ++ l) := by
  induction l generalizing t with
  | nil => rw [List.append_nil]; rfl
  | cons a l ih =>
    have hmiddle : (t.entries ++ a :: l).Perm (a :: t.entries ++ l) := List.perm_middle
    have hnew : path a ∉ t.entries.map path := by
      have := (hmiddle.map path).nodup_iff.1 h
      rw [List.cons_append, List.map_cons, List.nodup_cons, List.map_append, List.mem_append,
        not_or] at this
      exact this.1.1
    have hinsert : ((t.insert a).entries ++ l).Perm (t.entries ++ a :: l) :=
      ((insertEntry_perm hnew).append_right l).trans hmiddle.symm
    exact (ih ((hinsert.map path).nodup_iff.2 h)).trans hinsert

/-- A table of elements with different paths has them all. -/
theorem ofList_perm {l : List α} (h : (l.map path).Nodup) : (ofList l).entries.Perm l :=
  foldl_insert_perm (t := {}) h

theorem mem_of_mem_foldl_insert {l : List α} {t : PathTable α} {a : α}
    (h : a ∈ (l.foldl insert t).entries) : a ∈ t.entries ∨ a ∈ l := by
  induction l generalizing t with
  | nil => exact .inl h
  | cons b l ih =>
    rcases ih h with h | h
    · rcases mem_insertEntry h with rfl | h
      · exact .inr List.mem_cons_self
      · exact .inl h
    · exact .inr (List.mem_cons_of_mem b h)

/-- Tables with the same elements are equal. -/
theorem eq_of_perm {s t : PathTable α} (h : s.entries.Perm t.entries) : s = t := by
  apply ext_entries
  -- there is only one order in which paths ascend
  refine h.eq_of_pairwise ?_ s.ascending t.ascending
  intro a b _ _ hab hba
  exact absurd hba (String.lt_asymm hab)

/-- **A table does not show in which order its elements were listed.** -/
theorem ofList_eq_of_perm {l l' : List α} (hperm : l'.Perm l) (h : (l.map path).Nodup) :
    ofList l' = ofList l := by
  apply eq_of_perm
  have h' : (l'.map path).Nodup := (hperm.map path).nodup_iff.2 h
  exact (ofList_perm h').trans (hperm.trans (ofList_perm h).symm)

end PathTable

/-! ### Loading -/

namespace Model

variable {base m : Model} {as : List Association}

/-- Loading an association, class by class. -/
theorem addAssociation_entries (m : Model) (a : Association) :
    (m.addAssociation a).associations = m.associations.insert a ∧
    (m.addAssociation a).classes.entries = m.classes.entries.map fun c =>
      { c with
        exposed := c.exposed ++ a.properties.filter fun p => a.exposingType? p.type == some c.path
        exposedQualified :=
          c.exposedQualified ++ a.qualified.filter fun q => a.exposingType? q.type == some c.path } := by
  rw [addAssociation]
  obtain ⟨ha₁, hc₁⟩ := exposeAll_entries m (fun p => a.exposingType? p.type)
    (fun _ _ => rfl : ∀ c x, (Class.expose c x).path = c.path) a.properties
  generalize m.exposeAll _ Class.expose a.properties = m₁ at ha₁ hc₁ ⊢
  obtain ⟨ha₂, hc₂⟩ := exposeAll_entries m₁ (fun q => a.exposingType? q.type)
    (fun _ _ => rfl : ∀ c x, (Class.exposeQualified c x).path = c.path) a.qualified
  generalize m₁.exposeAll _ Class.exposeQualified a.qualified = m₂ at ha₂ hc₂ ⊢
  refine ⟨congrArg (fun t => PathTable.insert t a) (ha₂.trans ha₁), ?_⟩
  show m₂.classes.entries = _
  rw [hc₂, hc₁, List.map_map]
  refine List.map_congr_left fun c _ => ?_
  simp only [Function.comp_apply, foldl_expose, foldl_exposeQualified]

/-- An entry that loading an association puts on a class is one that renewing it puts there. -/
theorem exposingClass?_of_exposingType? {a : Association} {t : TypeRef} {c : Class}
    (hc : c ∈ base.classes.entries) (h : a.exposingType? t = some c.path) :
    base.exposingClass? a t = some c.path := by
  have hmember : base.member? c.path = some c := by
    rw [member?, resolve?, class?_path hc]
    rfl
  rw [exposingClass?, h, Option.bind_some, hmember]
  rfl

/-- An entry that loading an association puts on a class is one that renewing it drops there. -/
theorem drops_of_exposingType? {a : Association} {t : TypeRef} {c : Class}
    (hc : c ∈ base.classes.entries) (h : a.exposingType? t = some c.path) :
    c.drops base a (.ofAssociation a.path) = true := by
  have hexposing := exposingClass?_of_exposingType? hc h
  rw [Class.drops, Bool.and_eq_true, List.contains_iff_mem]
  exact ⟨mem_memberClasses_of_exposingClass? hexposing, by simp [Owner.isAssociation]⟩

/-- Classes agree with those of a model without the associations, but for entries that renewals drop. -/
def Underlies (base : Model) (as : List Association) (m : Model) : Prop :=
  List.Forall₂ (fun c₀ c => c₀.Agrees (c₀.claimed base as) c) base.classes.entries m.classes.entries

/-- **Loading an association keeps agreement.** -/
theorem Underlies.addAssociation {a : Association} (h : Underlies base as m) (ha : a ∈ as)
    (howned : a.toMembers.OwnedBy (.ofAssociation a.path)) : Underlies base as (m.addAssociation a) := by
  have hin : List.Forall₂ (fun c₀ c => c₀ ∈ base.classes.entries ∧
      c₀.Agrees (c₀.claimed base as) c) base.classes.entries m.classes.entries :=
    (List.forall₂_and_left _ _).2 ⟨fun _ hc => hc, h⟩
  rw [Underlies, (addAssociation_entries m a).2, List.forall₂_map_right_iff]
  refine hin.imp ?_
  rintro c₀ c ⟨hc₀, hc⟩
  have hclaimed : ∀ t, a.exposingType? t = some c.path →
      c₀.claimed base as (.ofAssociation a.path) = true := by
    intro t ht
    rw [hc.path] at ht
    exact List.any_eq_true.2 ⟨a, ha, drops_of_exposingType? hc₀ ht⟩
  -- every new entry is one that is dropped
  constructor
  · rw [hc.declared]
  · have hnil : ((a.properties.filter fun p => a.exposingType? p.type == some c.path).filter fun p =>
        !c₀.claimed base as p.owner) = [] := by
      rw [List.filter_eq_nil_iff]
      intro p hp
      obtain ⟨hp, ht⟩ := List.mem_filter.1 hp
      rw [howned.properties p hp, hclaimed p.type (by simpa using ht)]
      decide
    rw [List.filter_append, hc.exposed, hnil, List.append_nil]
  · have hnil : ((a.qualified.filter fun q => a.exposingType? q.type == some c.path).filter fun q =>
        !c₀.claimed base as q.owner) = [] := by
      rw [List.filter_eq_nil_iff]
      intro q hq
      obtain ⟨hq, ht⟩ := List.mem_filter.1 hq
      rw [howned.qualified q hq, hclaimed q.type (by simpa using ht)]
      decide
    rw [List.filter_append, hc.qualified, hnil, List.append_nil]

theorem Underlies.foldl_addAssociation {l : List Association} (h : Underlies base as m)
    (hl : ∀ a ∈ l, a ∈ as ∧ a.toMembers.OwnedBy (.ofAssociation a.path)) :
    Underlies base as (l.foldl Model.addAssociation m) := by
  induction l generalizing m with
  | nil => exact h
  | cons a l ih =>
    obtain ⟨ha, howned⟩ := hl a List.mem_cons_self
    exact ih (h.addAssociation ha howned) fun b hb => hl b (List.mem_cons_of_mem _ hb)

/-- What a document lists, its tables hold. -/
theorem foldl_addClass (cs : List Class) (m : Model) :
    cs.foldl addClass m = { m with classes := cs.foldl PathTable.insert m.classes } := by
  induction cs generalizing m with
  | nil => rfl
  | cons c cs ih => rw [List.foldl_cons, ih]; rfl

theorem associations_foldl_addAssociation (l : List Association) (m : Model) :
    (l.foldl addAssociation m).associations = l.foldl PathTable.insert m.associations := by
  induction l generalizing m with
  | nil => rfl
  | cons a l ih => rw [List.foldl_cons, ih, (addAssociation_entries m a).1]; rfl

theorem associations_ofDocument (d : Document) :
    (ofDocument d).associations = PathTable.ofList d.associations := by
  rw [ofDocument, associations_foldl_addAssociation, foldl_addClass]
  rfl

theorem associations_ofDocument_perm {d : Document}
    (hpaths : (d.associations.map Association.path).Nodup) :
    (ofDocument d).associations.entries.Perm d.associations := by
  rw [associations_ofDocument]
  exact PathTable.ofList_perm hpaths

theorem underlies_ofDocument {d : Document}
    (howned : ∀ a ∈ d.associations, a.toMembers.OwnedBy (.ofAssociation a.path)) :
    Underlies ⟨PathTable.ofList d.classes, ⟨[], .nil⟩⟩ d.associations (ofDocument d) := by
  rw [ofDocument, foldl_addClass]
  refine Underlies.foldl_addAssociation ?_ fun a ha => ⟨ha, howned a ha⟩
  exact List.forall₂_same.2 fun c _ => .refl c

/-- Which entries are dropped does not depend on the order of the associations. -/
theorem Underlies.of_perm {as' : List Association} (h : Underlies base as m) (hperm : as'.Perm as) :
    Underlies base as' m := by
  refine h.imp fun c₀ c hc => ?_
  have hclaimed : c₀.claimed base as' = c₀.claimed base as := funext fun o => hperm.any_eq
  rw [hclaimed]
  exact hc

/-- Models over the same classes agree. -/
theorem Underlies.agrees {m' : Model} (h : Underlies base as m) (h' : Underlies base as m')
    (hassociations : m'.associations = m.associations) : Agrees base as m m' where
  frame := map_eq_of_forall₂ h fun hc => hc.frame
  associations := hassociations
  classes := by
    refine forall₂_comp h.flip h' ?_
    intro c c₀ c' hc hc'
    have hclaimed : c.claimed base as = c₀.claimed base as := by
      funext o
      simp only [Class.claimed, Class.drops, hc.path]
    rw [hclaimed]
    exact hc.symm.trans hc'

/-- **The order of a document does not matter**: a document that lists the same classes and associations
in another order compiles with the same fault, or with the same report to the same model, whatever
the symbols are. -/
theorem compile_eq_of_perm (s : Symbols) (settings : Settings) {d d' : Document}
    (hclasses : d'.classes.Perm d.classes) (hassociations : d'.associations.Perm d.associations)
    (hpaths : (d.classes.map Class.path).Nodup)
    (hpaths' : (d.associations.map Association.path).Nodup)
    (howned : ∀ a ∈ d.associations, a.toMembers.OwnedBy (.ofAssociation a.path)) :
    (ofDocument d').compile s settings = (ofDocument d).compile s settings := by
  have htable : PathTable.ofList d'.classes = PathTable.ofList d.classes :=
    PathTable.ofList_eq_of_perm hclasses hpaths
  have htable' : (ofDocument d').associations = (ofDocument d).associations := by
    rw [associations_ofDocument, associations_ofDocument]
    exact PathTable.ofList_eq_of_perm hassociations hpaths'
  have hentries : (ofDocument d).associations.entries.Perm d.associations := by
    rw [associations_ofDocument]
    exact PathTable.ofList_perm hpaths'
  -- both documents are loaded on top of the same table of classes
  have hloaded := underlies_ofDocument howned
  have hloaded' := underlies_ofDocument (d := d') fun a ha => howned a (hassociations.mem_iff.1 ha)
  rw [htable] at hloaded'
  have hagrees := (hloaded.of_perm hentries).agrees
    (hloaded'.of_perm (hentries.trans hassociations.symm)) htable'
  exact hagrees.compile_eq s settings

/-- An association of `m::K` with another class, by an end that is always named `x`. -/
def namedX (path target : String) : Association where
  path := path
  properties := [
    { name := "x", type := .ofClass target, multiplicity := .zeroOne, owner := .ofAssociation path },
    { name := "k", type := .ofClass "m::K", multiplicity := .zeroOne, owner := .ofAssociation path }]

/-- A class that calls an end which two associations give it, to classes of different shapes. -/
def ambiguous : Document where
  classes := [
    { path := "m::K"
      stereotypes := [.resolved temporalProfile Shape.business.name]
      qualified := [
        { name := "first", type := .ofClass "m::S", multiplicity := .zeroOne, owner := .ofClass "m::K"
          signature := {
            parameters := [{ name := "this", type := .ofClass "m::K", multiplicity := .one }]
            result := ⟨.ofClass "m::S", .zeroOne⟩ }
          body := [
            (Navigation.plain "m::K" "x" (.reference "this" ⟨.ofClass "m::K", .one⟩) []).toExpression
              ⟨.ofClass "m::S", .zeroOne⟩] }] },
    { path := "m::S", stereotypes := [.resolved temporalProfile Shape.business.name] },
    { path := "m::T", stereotypes := [.resolved temporalProfile Shape.processing.name] }]
  associations := [namedX "m::A1" "m::S", namedX "m::A2" "m::T"]

/-- Listed the other way round, the document loads to another model, whose class shows the end with the
wrong shape first.  It compiles all the same. -/
theorem ambiguous_compile_reversed :
    let reversed : Document :=
      { classes := ambiguous.classes.reverse, associations := ambiguous.associations.reverse }
    ofDocument reversed ≠ ofDocument ambiguous ∧
      (ofDocument reversed).compile .builtin {} = (ofDocument ambiguous).compile .builtin {} ∧
      ((ofDocument ambiguous).compile .builtin {}).toOption.map (·.1.dated) = some 1 := by
  refine ⟨by decide +kernel, ?_, by decide +kernel⟩
  exact compile_eq_of_perm .builtin {} (List.reverse_perm _) (List.reverse_perm _) (by decide) (by decide)
    (by decide)

end Model

end Bitemporal
