/-
Bitemporal/Proofs/Classification.lean

The shapes of a class, read in three ways.

`shapes` goes through all stereotypes and skips a shape it has; `shape?` stops at
the first stereotype that declares one; `shapeChecked` is what a compilation
asks, and under the strict setting it refuses what the other two would pass
over.  Neither scan is part of the rule they follow:

* a stereotype *bears* its value, which of an abbreviation is what follows its
  last `@` (`Stereotype.bears_iff`);
* a shape is *declared* by the stereotypes that bear its name;
* a list *enumerates* the shapes that stereotypes declare if it has each of them
  once, and each before those that are declared later.

One list enumerates them (`Shape.Enumerates.unique`), and `shapes` is that list
(`Annotations.shapes_eq_iff`).  Its head is the shape of the class, and its
length decides what the strict setting makes of it
(`Class.classifications_agree`).
-/
import Bitemporal.Proofs.Fresh

namespace Bitemporal

/-! ### Cutting at one character -/

namespace Text

variable {sep : Char} {s a b : List Char}

/-- A text that is not cut is without the separator. -/
theorem splitLast?_eq_none_iff : splitLast? [sep] s = none ↔ sep ∉ s := by
  induction s with
  | nil => exact ⟨fun _ => List.not_mem_nil, fun _ => rfl⟩
  | cons c s ih =>
    rw [splitLast?, List.mem_cons, not_or, ← ih]
    rcases splitLast? [sep] s with - | ⟨a, b⟩
    · by_cases hc : sep = c <;> simp [dropHead?, hc]
    · simp

theorem splitLast?_append (a : List Char) (hb : sep ∉ b) :
    splitLast? [sep] (a ++ sep :: b) = some (a, b) := by
  induction a with
  | nil =>
    rw [List.nil_append, splitLast?, splitLast?_eq_none_iff.2 hb]
    simp [dropHead?]
  | cons c a ih => rw [List.cons_append, splitLast?, ih]

/-- A text is cut where the separator stands and does not stand again. -/
theorem splitLast?_eq_some_iff :
    splitLast? [sep] s = some (a, b) ↔ s = a ++ sep :: b ∧ sep ∉ b := by
  constructor
  · intro h
    induction s generalizing a with
    | nil => cases h
    | cons c s ih =>
      rw [splitLast?] at h
      rcases hcut : splitLast? [sep] s with - | ⟨a', b'⟩
      · -- the separator can stand at the head only
        rw [hcut, dropHead?] at h
        by_cases hc : sep = c
        · subst hc
          rw [if_pos rfl] at h
          cases h
          exact ⟨rfl, splitLast?_eq_none_iff.1 hcut⟩
        · rw [if_neg hc] at h
          cases h
      · rw [hcut] at h
        cases h
        obtain ⟨rfl, hb⟩ := ih hcut
        exact ⟨rfl, hb⟩
  · rintro ⟨rfl, hb⟩
    exact splitLast?_append a hb

end Text

/-! ### The value of a stereotype -/

/-- A stereotype bears the value it is resolved with.  An abbreviation bears what follows its last
`@`; one without `@` bears all of itself. -/
def Stereotype.Bears : Stereotype → String → Prop
  | resolved _ v, value => v = value
  | abbreviated w, value => '@' ∉ value.toList ∧ (w = value ∨ ∃ p, w = p ++ "@" ++ value)

/-- **What a stereotype bears** is its value. -/
theorem Stereotype.bears_iff {s : Stereotype} {value : String} : s.Bears value ↔ s.value = value := by
  rcases s with ⟨p, v⟩ | w
  · rfl
  · -- to write `w` around an `@` is to cut it there
    have hwritten : ∀ p v : String, w = p ++ "@" ++ v ↔ w.toList = p.toList ++ '@' :: v.toList := by
      intro p v
      rw [← String.toList_inj, String.toList_append, String.toList_append, List.append_assoc]
      rfl
    simp only [Bears, Stereotype.value, hwritten]
    rcases hcut : Text.splitLast? ['@'] w.toList with - | ⟨p, v⟩
    · have hw := Text.splitLast?_eq_none_iff.1 hcut
      constructor
      · rintro ⟨-, rfl | ⟨p, hp⟩⟩
        · rfl
        · exact absurd (hp ▸ List.mem_append_cons_self) hw
      · rintro rfl
        exact ⟨hw, .inl rfl⟩
    · obtain ⟨hw, hv⟩ := Text.splitLast?_eq_some_iff.1 hcut
      constructor
      · rintro ⟨hvalue, rfl | ⟨p', hp'⟩⟩
        · exact absurd (hw ▸ List.mem_append_cons_self) hvalue
        · -- the two cuts are one
          have hcut' := Text.splitLast?_eq_some_iff.2 ⟨hp', hvalue⟩
          rw [hcut, Option.some.injEq, Prod.mk.injEq] at hcut'
          obtain ⟨-, rfl⟩ := hcut'
          exact String.ofList_toList
      · rintro rfl
        rw [String.toList_ofList]
        exact ⟨hv, .inr ⟨String.ofList p, by rw [hw, String.toList_ofList]⟩⟩

/-! ### The shapes that stereotypes declare -/

namespace Shape

theorem ofName?_eq_some_iff {value : String} {shape : Shape} :
    ofName? value = some shape ↔ value = shape.name := by
  constructor
  · intro h
    have hname := List.find?_some h
    exact (eq_of_beq hname).symm
  · rintro rfl
    exact ofName?_name shape

/-- Some stereotype bears the name of the shape. -/
def DeclaredBy (declared : List Stereotype) (shape : Shape) : Prop :=
  ∃ s ∈ declared, s.Bears shape.name

/-- Up to some place one shape is declared and the other is not. -/
def Precedes (declared : List Stereotype) (x y : Shape) : Prop :=
  ∃ first, first <+: declared ∧ x.DeclaredBy first ∧ ¬ y.DeclaredBy first

/-- The list has the shapes that the stereotypes declare, each once, in the order of their first
declarations. -/
structure Enumerates (declared : List Stereotype) (shapes : List Shape) : Prop where
  nodup : shapes.Nodup
  mem_iff : ∀ shape, shape ∈ shapes ↔ shape.DeclaredBy declared
  ordered : shapes.Pairwise (Precedes declared)

variable {declared : List Stereotype} {x y shape : Shape}

theorem declaredBy_iff :
    shape.DeclaredBy declared ↔ shape ∈ declared.filterMap fun s => ofName? s.value := by
  rw [List.mem_filterMap]
  simp only [DeclaredBy, Stereotype.bears_iff, ofName?_eq_some_iff]

theorem DeclaredBy.mono {declared' : List Stereotype} (h : shape.DeclaredBy declared)
    (hle : declared <+: declared') : shape.DeclaredBy declared' := by
  obtain ⟨s, hs, hbears⟩ := h
  exact ⟨s, hle.subset hs, hbears⟩

/-- Of two places one is not after the other, and by the later of them both shapes are declared. -/
theorem Precedes.asymm (h : Precedes declared x y) : ¬ Precedes declared y x := by
  rintro ⟨first', hfirst', hy', hx'⟩
  obtain ⟨first, hfirst, hx, hy⟩ := h
  rcases List.prefix_or_prefix_of_prefix hfirst hfirst' with hle | hle
  · exact hx' (hx.mono hle)
  · exact hy (hy'.mono hle)

/-- **There is one enumeration.** -/
theorem Enumerates.unique {shapes shapes' : List Shape} (h : Enumerates declared shapes)
    (h' : Enumerates declared shapes') : shapes = shapes' := by
  have hperm : shapes.Perm shapes' := by
    rw [List.perm_ext_iff_of_nodup h.nodup h'.nodup]
    intro shape
    rw [h.mem_iff, h'.mem_iff]
  refine hperm.eq_of_pairwise ?_ h.ordered h'.ordered
  intro x y _ _ hxy hyx
  exact absurd hyx hxy.asymm

end Shape

namespace Annotations

variable {a : Annotations} {shape : Shape}

theorem shapes_eq_news (a : Annotations) :
    a.shapes = news id [] (a.stereotypes.filterMap fun s => Shape.ofName? s.value) := by
  have hput : (fun (shapes : List Shape) s =>
      if shapes.contains s then shapes else shapes ++ [s]) = putNew id := by
    funext shapes s
    rw [putNew, List.map_id]
    simp only [List.contains_iff_mem, id]
  rw [shapes, hput, foldl_putNew]
  rfl

/-- A shape is declared by the stereotypes of its name. -/
theorem mem_shapes_iff : shape ∈ a.shapes ↔ ∃ s ∈ a.stereotypes, s.value = shape.name := by
  rw [shapes_eq_news]
  constructor
  · intro h
    obtain ⟨s, hs, hshape⟩ := List.mem_filterMap.1 (mem_of_mem_news h).1
    exact ⟨s, hs, Shape.ofName?_eq_some_iff.1 hshape⟩
  · rintro ⟨s, hs, hvalue⟩
    have hmem : shape ∈ a.stereotypes.filterMap fun s => Shape.ofName? s.value :=
      List.mem_filterMap.2 ⟨s, hs, Shape.ofName?_eq_some_iff.2 hvalue⟩
    obtain ⟨_, ht, rfl⟩ : ∃ t ∈ news id [] (a.stereotypes.filterMap fun s => Shape.ofName? s.value),
        id t = shape :=
      exists_mem_news ((List.map_id _).symm ▸ hmem) List.not_mem_nil
    exact ht

theorem nodup_shapes (a : Annotations) : a.shapes.Nodup := by
  have hnodup : (a.shapes.map id).Nodup := by
    rw [shapes_eq_news]
    exact nodup_news [] _
  rwa [List.map_id] at hnodup

/-- Skipping the shapes it has, the scan meets the others in the order of their declaration. -/
theorem pairwise_shapes (a : Annotations) : a.shapes.Pairwise (Shape.Precedes a.stereotypes) := by
  rw [shapes_eq_news]
  refine (pairwise_news [] _).imp fun {x y} hmet => ?_
  obtain ⟨l, hl, hx, hy⟩ := hmet
  obtain ⟨first, hfirst, rfl⟩ := List.prefix_filterMap_iff.1 hl
  rw [List.map_id] at hy
  exact ⟨first, hfirst, Shape.declaredBy_iff.2 hx, fun h => hy (Shape.declaredBy_iff.1 h)⟩

theorem enumerates_shapes (a : Annotations) : Shape.Enumerates a.stereotypes a.shapes where
  nodup := a.nodup_shapes
  mem_iff shape := by
    rw [mem_shapes_iff]
    simp only [Shape.DeclaredBy, Stereotype.bears_iff]
  ordered := a.pairwise_shapes

/-- The first shape that is declared is never skipped. -/
theorem head?_shapes (a : Annotations) : a.shapes.head? = a.shape? := by
  rw [shapes_eq_news, shape?, ← List.head?_filterMap]
  generalize (List.filterMap _ a.stereotypes : List Shape) = declared
  cases declared <;> rfl

/-- **The shapes that the annotations declare** are their enumeration. -/
theorem shapes_eq_iff {shapes : List Shape} :
    a.shapes = shapes ↔ Shape.Enumerates a.stereotypes shapes := by
  constructor
  · rintro rfl
    exact a.enumerates_shapes
  · exact a.enumerates_shapes.unique

/-- A repeated shape, values of no shape, and an `@` within an abbreviation. -/
example : ({ stereotypes := [.abbreviated "temporal@draft@bitemporal", .resolved "doc" "deprecated",
      .resolved temporalProfile "temporal@processingtemporal", .abbreviated "businesstemporal",
      .resolved temporalProfile "bitemporal"] } : Annotations).shapes = [.bitemporal, .business] := by
  decide

end Annotations

/-! ### The three readings -/

namespace Class

variable (c : Class)

/-- A class with one shape at most passes under either setting, and one with several under the setting
that is not strict.  What it passes with is its shape. -/
theorem shapeChecked_eq_ok_iff {strict : Bool} {shape? : Option Shape} :
    c.shapeChecked strict = .ok shape? ↔
      (strict && decide (1 < c.shapes.length)) = false ∧ shape? = c.shape? := by
  rw [shapeChecked, c.head?_shapes]
  split
  · rename_i hfault
    exact ⟨nofun, fun h => absurd (hfault.symm.trans h.1) Bool.noConfusion⟩
  · rename_i hpass
    rw [Except.ok.injEq, and_iff_right (Bool.eq_false_iff.2 hpass), eq_comm]

theorem shapeChecked_eq_error_iff {strict : Bool} {fault : Fault} :
    c.shapeChecked strict = .error fault ↔ strict = true ∧ 1 < c.shapes.length ∧
      fault = .conflictingShapes c.path c.shapes c.span := by
  have htest : (strict && decide (1 < c.shapes.length)) = true ↔ strict = true ∧ 1 < c.shapes.length := by
    rw [Bool.and_eq_true, decide_eq_true_iff]
  rw [shapeChecked, ← and_assoc, ← htest]
  split
  · rename_i hfault
    rw [Except.error.injEq, and_iff_right hfault, eq_comm]
  · rename_i hpass
    exact ⟨nofun, fun h => absurd h.1 hpass⟩

/-- **The three readings of a class's shapes agree.**  The list of its shapes has those that its
stereotypes declare, each once and in the order of their first declarations; the shape of the class is
the first of the list.  Classified without the strict setting, every class has that shape.  Under the
strict setting a class is at fault if the list has more than one member, and then for its path, its
span and the whole list, which the fault is worded with by name; otherwise the setting makes no
difference. -/
theorem classifications_agree :
    (∀ shapes, c.shapes = shapes ↔ Shape.Enumerates c.stereotypes shapes) ∧
    c.shapes.head? = c.shape? ∧
    c.shapeChecked false = .ok c.shapes.head? ∧
    (∀ fault, c.shapeChecked true = .error fault ↔
      1 < c.shapes.length ∧ fault = .conflictingShapes c.path c.shapes c.span) ∧
    (Fault.conflictingShapes c.path c.shapes c.span).message =
      "Class '" ++ c.path ++ "' has conflicting temporal stereotypes: " ++
        Text.join ", " (c.shapes.map Shape.name) ∧
    (c.shapeChecked true = c.shapeChecked false ↔ ¬ 1 < c.shapes.length) := by
  have hlenient : c.shapeChecked false = .ok c.shape? :=
    c.shapeChecked_eq_ok_iff.2 ⟨Bool.false_and _, rfl⟩
  refine ⟨fun _ => Annotations.shapes_eq_iff, c.head?_shapes, ?_, fun fault => ?_, rfl, ?_⟩
  · rw [hlenient, c.head?_shapes]
  · rw [c.shapeChecked_eq_error_iff, and_iff_right rfl]
  · rw [hlenient, c.shapeChecked_eq_ok_iff, and_iff_left rfl, Bool.true_and, decide_eq_false_iff_not]

end Class

end Bitemporal
