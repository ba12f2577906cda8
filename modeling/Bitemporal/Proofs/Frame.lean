/-
Bitemporal/Proofs/Frame.lean

The frame of a model: the paths of its classes, with their annotations.

No step of a compilation touches a path or an annotation of a class.  What a
type reference denotes, which shape it leads to, which class exposes an entry
of an association and which properties are edges are all read off the frame
(`resolve?_frame` and its consequences), so that a step may be described by
the model that the compilation started from, whatever the steps before it did.
-/
import Bitemporal.Proofs.Table

namespace Bitemporal

/-- What of a class a compilation never touches. -/
def Class.frame (c : Class) : String × Annotations :=
  (c.path, c.toAnnotations)

/-- The classes of a model by path and annotations, in the order of paths. -/
def Model.frame (m : Model) : List (String × Annotations) :=
  m.classes.entries.map Class.frame

namespace Model

variable {m m' : Model}

/-- A classwise change that keeps paths and annotations keeps the frame. -/
theorem frame_of_map {g : Class → Class} (hg : ∀ c, (g c).frame = c.frame)
    (h : m'.classes.entries = m.classes.entries.map g) : m'.frame = m.frame := by
  rw [frame, frame, h, List.map_map]
  exact List.map_congr_left fun c _ => hg c

theorem class?_frame (h : m'.frame = m.frame) (p : String) :
    (m'.class? p).map Class.frame = (m.class? p).map Class.frame := by
  have hfind : ∀ n : Model, (n.class? p).map Class.frame = n.frame.find? fun f => f.1 == p := by
    intro n
    rw [frame, List.find?_map]
    rfl
  rw [hfind, hfind, h]

/-- The frame decides what a reference denotes. -/
theorem resolve?_frame (h : m'.frame = m.frame) (t : TypeRef) :
    (m'.resolve? t).map Class.frame = (m.resolve? t).map Class.frame := by
  cases t with
  | primitive _ => rfl
  | ofClass p => exact class?_frame h p
  | abbreviated p =>
    have hlocal : ∀ n : Model,
        (n.classes.entries.find? fun c => c.name == Text.localName p).map Class.frame =
          n.frame.find? fun f => Text.localName f.1 == Text.localName p := by
      intro n
      rw [frame, List.find?_map]
      rfl
    have hboth : ∀ n : Model, (n.resolve? (.abbreviated p)).map Class.frame =
        ((n.class? p).map Class.frame <|>
          n.frame.find? fun f => Text.localName f.1 == Text.localName p) := by
      intro n
      rw [← hlocal, resolve?]
      rcases n.class? p with - | c <;> rfl
    rw [hboth, hboth, class?_frame h p, h]

/-! ### What follows from the frame -/

theorem shapeOf?_frame (h : m'.frame = m.frame) (t : TypeRef) : m'.shapeOf? t = m.shapeOf? t := by
  have hs : ∀ n : Model, n.shapeOf? t = ((n.resolve? t).map Class.frame).bind fun f => f.2.shape? := by
    intro n
    rw [shapeOf?]
    rcases n.resolve? t with - | c <;> rfl
  rw [hs, hs, resolve?_frame h]

theorem shapeAt?_frame (h : m'.frame = m.frame) (p : String) : m'.shapeAt? p = m.shapeAt? p := by
  have hs : ∀ n : Model, n.shapeAt? p = ((n.class? p).map Class.frame).bind fun f => f.2.shape? := by
    intro n
    rw [shapeAt?]
    rcases n.class? p with - | c <;> rfl
  rw [hs, hs, class?_frame h]

theorem member?_frame (h : m'.frame = m.frame) (p : String) :
    (m'.member? p).map (·.path) = (m.member? p).map (·.path) := by
  have hs : ∀ n : Model, (n.member? p).map (·.path) =
      ((n.resolve? (.abbreviated p)).map Class.frame).map (·.1) := by
    intro n
    rw [member?, Option.map_map]
    rfl
  rw [hs, hs, resolve?_frame h]

theorem exposingClass?_frame (h : m'.frame = m.frame) (a : Association) (t : TypeRef) :
    m'.exposingClass? a t = m.exposingClass? a t := by
  rw [exposingClass?, exposingClass?]
  rcases a.exposingType? t with - | p
  · rfl
  · exact member?_frame h p

theorem memberClasses_frame (h : m'.frame = m.frame) (a : Association) :
    m'.memberClasses a = m.memberClasses a := by
  rw [memberClasses, memberClasses]
  exact congrArg dropRepeats (List.filterMap_congr fun p _ => member?_frame h p)

theorem temporalTarget?_frame (h : m'.frame = m.frame) (p : Property) :
    (m'.temporalTarget? p).map (fun (c, s) => (c.path, s)) =
      (m.temporalTarget? p).map fun (c, s) => (c.path, s) := by
  have hs : ∀ n : Model, (n.temporalTarget? p).map (fun (c, s) => (c.path, s)) =
      if p.isGenerated then none
      else ((n.resolve? p.type).map Class.frame).bind fun f => f.2.shape?.map fun s => (f.1, s) := by
    intro n
    rw [temporalTarget?]
    split
    · rfl
    · rcases n.resolve? p.type with - | c
      · rfl
      · show (c.shape?.map _).map _ = c.shape?.map _
        rw [Option.map_map]
        rfl
  rw [hs, hs, resolve?_frame h]

/-- The frame decides which properties are edges. -/
theorem edge?_frame (h : m'.frame = m.frame) (sourceOf : Property → Option String) (p : Property) :
    m'.edge? sourceOf p = m.edge? sourceOf p := by
  have hs : ∀ n : Model, n.edge? sourceOf p =
      ((n.temporalTarget? p).map fun (c, s) => (c.path, s)).bind fun target =>
        (sourceOf p).map fun source =>
          { source, target := target.1, shape := target.2, property := p } := by
    intro n
    rw [edge?]
    rcases n.temporalTarget? p with - | ⟨c, s⟩
    · rfl
    · rcases sourceOf p with - | q <;> rfl
  rw [hs, hs, temporalTarget?_frame h]

/-! ### Edges -/

theorem edge?_eq_some_iff {sourceOf : Property → Option String} {p : Property} {e : Edge} :
    m.edge? sourceOf p = some e ↔
      p.isGenerated = false ∧ (∃ c, m.resolve? p.type = some c ∧ c.shape? = some e.shape ∧
        e.target = c.path) ∧ sourceOf p = some e.source ∧ e.property = p := by
  obtain ⟨source, target, shape, property⟩ := e
  rw [edge?, temporalTarget?]
  constructor
  · intro h
    simp only [Option.bind_eq_bind, Option.bind_eq_some_iff] at h
    obtain ⟨⟨c, s⟩, ht, q, hq, he⟩ := h
    split at ht
    · cases ht
    · rename_i hg
      obtain ⟨c', hc', ht⟩ := Option.bind_eq_some_iff.1 ht
      obtain ⟨s', hs', ht⟩ := Option.map_eq_some_iff.1 ht
      obtain ⟨rfl, rfl⟩ := Prod.mk.inj ht
      cases he
      exact ⟨by simpa using hg, ⟨c', hc', hs', rfl⟩, hq, rfl⟩
  · rintro ⟨hg, ⟨c, hc, hs, rfl⟩, hq, rfl⟩
    simp only at hs hq
    simp [hg, hc, hs, hq]

end Model

end Bitemporal
