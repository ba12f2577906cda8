/-
Bitemporal/PathTable.lean

Elements kept by their paths.

A table holds at most one element of each path, in ascending order of paths;
paths compare by code points.  The order is part of the type, so that two
tables with the same elements are equal, however they came to be.
-/

namespace Bitemporal

/-- Elements that have a path of their own. -/
class HasPath (α : Type) where
  path : α → String

open HasPath

/-- A table of elements, strictly ascending by path. -/
structure PathTable (α : Type) [HasPath α] where
  entries : List α := []
  ascending : entries.Pairwise fun a b => path a < path b := by simp

namespace PathTable

variable {α : Type} [HasPath α]

instance [DecidableEq α] : DecidableEq (PathTable α) := fun s t =>
  decidable_of_iff (s.entries = t.entries) (by cases s; cases t; simp)

/-- Puts an element into an ascending list, in place of one with the same path. -/
def insertEntry (a : α) : List α → List α
  | [] => [a]
  | b :: rest =>
    if path a < path b then a :: b :: rest
    else if path a = path b then a :: rest
    else b :: insertEntry a rest

theorem mem_insertEntry {a x : α} {l : List α} (h : x ∈ insertEntry a l) : x = a ∨ x ∈ l := by
  induction l with
  | nil => simpa [insertEntry] using h
  | cons b rest ih =>
    rw [insertEntry] at h
    split at h
    · simpa using h
    · split at h
      · rcases List.mem_cons.1 h with h | h
        · exact .inl h
        · exact .inr (List.mem_cons_of_mem _ h)
      · rcases List.mem_cons.1 h with h | h
        · exact .inr (h ▸ List.mem_cons_self)
        · exact (ih h).imp id (List.mem_cons_of_mem _)

theorem pairwise_insertEntry (a : α) {l : List α}
    (h : l.Pairwise fun a b => path a < path b) :
    (insertEntry a l).Pairwise fun a b => path a < path b := by
  induction l with
  | nil => simp [insertEntry]
  | cons b rest ih =>
    obtain ⟨hb, hrest⟩ := List.pairwise_cons.1 h
    rw [insertEntry]
    split
    · -- `a` comes first
      rename_i hab
      refine List.pairwise_cons.2 ⟨fun x hx => ?_, h⟩
      rcases List.mem_cons.1 hx with rfl | hx
      · exact hab
      · exact String.lt_trans hab (hb x hx)
    · split
      · -- `a` replaces `b`
        rename_i _ hab
        exact List.pairwise_cons.2 ⟨fun x hx => hab ▸ hb x hx, hrest⟩
      · -- `a` goes further down
        rename_i hlt hne
        refine List.pairwise_cons.2 ⟨fun x hx => ?_, ih hrest⟩
        rcases mem_insertEntry hx with rfl | hx
        · grind
        · exact hb x hx

/-- The table with `a` in it, in place of an element of the same path. -/
def insert (t : PathTable α) (a : α) : PathTable α :=
  ⟨insertEntry a t.entries, pairwise_insertEntry a t.ascending⟩

/-- The element of this path. -/
def find? (t : PathTable α) (p : String) : Option α :=
  t.entries.find? fun a => path a == p

/-- Applies `f` to the element of this path, if there is one. -/
def modify (t : PathTable α) (p : String) (f : α → α) : PathTable α :=
  match t.find? p with
  | some a => t.insert (f a)
  | none => t

/-- The paths of a table, ascending. -/
def paths (t : PathTable α) : List String :=
  t.entries.map path

/-- The table of the elements of a list; of two with the same path the later one stays. -/
def ofList (l : List α) : PathTable α :=
  l.foldl insert {}

end PathTable

end Bitemporal
