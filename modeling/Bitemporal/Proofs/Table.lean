/-
Bitemporal/Proofs/Table.lean

Tables and the runs over them.

A table is determined by its entries, and a path finds at most one of them.
Every step of a compilation puts an element back under the path it came from,
so on the entries it is a change in one place (`entries_insert_middle`) or,
where the place is not known, a map (`entries_modify`).

`forEach` visits the paths of a table in turn, or what was recorded of some of
its entries.  What such a run establishes is shown by an invariant over the
elements already visited (`forEach_induction`): the rest of the argument never
mentions the fold.
-/
import Bitemporal.Compilation
import Mathlib.Data.List.Nodup

namespace Bitemporal

/-! ### Computations that may fail -/

theorem bind_eq_ok {ε α β : Type} {x : Except ε α} {f : α → Except ε β} {b : β} :
    x >>= f = .ok b ↔ ∃ a, x = .ok a ∧ f a = .ok b := by
  rcases x with e | a
  · simp [bind, Except.bind]
  · simp [bind, Except.bind]

/-- A result one half of which is known. -/
theorem exists_eq_ok_of_snd {ε α β : Type} {x : Except ε (α × β)} {b : β}
    (h : x.toOption.map (·.2) = some b) : ∃ a, x = .ok (a, b) := by
  rcases x with fault | ⟨a, b'⟩
  · cases h
  · obtain rfl := Option.some.inj h
    exact ⟨a, rfl⟩

theorem bind_eq_error {ε α β : Type} {x : Except ε α} {f : α → Except ε β} {fault : ε} :
    x >>= f = .error fault ↔ x = .error fault ∨ ∃ a, x = .ok a ∧ f a = .error fault := by
  rcases x with e | a
  · simp [bind, Except.bind]
  · simp [bind, Except.bind]

/-- A computation that comes to a value on each element of a list comes to their list on it. -/
theorem mapM_eq_pure {m : Type → Type} [Monad m] [LawfulMonad m] {α β : Type} {f : α → m β}
    {g : α → β} {l : List α} (h : ∀ a ∈ l, f a = pure (g a)) : l.mapM f = pure (l.map g) := by
  induction l with
  | nil => exact List.mapM_nil
  | cons a l ih =>
    have ha := h a List.mem_cons_self
    have hl := ih fun b hb => h b (List.mem_cons_of_mem _ hb)
    rw [List.mapM_cons, ha, hl, pure_bind, pure_bind]
    rfl

/-- A computation that cannot fail on any element of a list does not fail on the list. -/
theorem mapM_eq_ok {ε α β : Type} {f : α → Except ε β} {g : α → β} {l : List α}
    (h : ∀ a ∈ l, f a = .ok (g a)) : l.mapM f = .ok (l.map g) :=
  mapM_eq_pure h

/-- Undoing a change of every element gives the list back. -/
theorem mapM_map_eq_some {α β : Type} {f : β → Option α} {g : α → β} {l : List α}
    (h : ∀ x ∈ l, f (g x) = some x) : (l.map g).mapM f = some l := by
  have hl := mapM_eq_pure (f := f ∘ g) (g := id) h
  rwa [← List.mapM_map, List.map_id] at hl

/-- A list computed element by element corresponds to it element by element. -/
theorem forall₂_of_mapM_eq_ok {ε α β : Type} {f : α → Except ε β} {l : List α} {r : List β}
    (h : l.mapM f = .ok r) : List.Forall₂ (fun a b => f a = .ok b) l r := by
  induction l generalizing r with
  | nil =>
    obtain rfl : [] = r := Except.ok.inj h
    exact .nil
  | cons a l ih =>
    rw [List.mapM_cons, bind_eq_ok] at h
    obtain ⟨b, hb, h⟩ := h
    rw [bind_eq_ok] at h
    obtain ⟨bs, hbs, h⟩ := h
    obtain rfl : b :: bs = r := Except.ok.inj h
    exact .cons hb (ih hbs)

/-- A computation that fails on a list fails on one of its elements. -/
theorem exists_of_mapM_eq_error {ε α β : Type} {f : α → Except ε β} {l : List α} {fault : ε}
    (h : l.mapM f = .error fault) : ∃ a ∈ l, f a = .error fault := by
  induction l with
  | nil => cases h
  | cons a l ih =>
    rw [List.mapM_cons, bind_eq_error] at h
    rcases h with ha | ⟨b, -, h⟩
    · exact ⟨a, List.mem_cons_self, ha⟩
    · rcases bind_eq_error.1 h with hl | ⟨bs, -, h⟩
      · obtain ⟨a', ha', hfault⟩ := ih hl
        exact ⟨a', List.mem_cons_of_mem a ha', hfault⟩
      · cases h

theorem mapM_of_forall₂ {ε α β : Type} {f : α → Except ε β} {l : List α} {r : List β}
    (h : List.Forall₂ (fun a b => f a = .ok b) l r) : l.mapM f = .ok r := by
  induction h with
  | nil => rfl
  | cons ha _ ih =>
    rw [List.mapM_cons, ha, ih]
    rfl

theorem exists_of_forall₂_left {α β : Type} {R : α → β → Prop} {l : List α} {r : List β} {a : α}
    (h : List.Forall₂ R l r) (ha : a ∈ l) : ∃ b ∈ r, R a b := by
  induction h with
  | nil => cases ha
  | cons hab _ ih =>
    rcases List.mem_cons.1 ha with rfl | ha
    · exact ⟨_, List.mem_cons_self, hab⟩
    · obtain ⟨b, hb, h⟩ := ih ha
      exact ⟨b, List.mem_cons_of_mem _ hb, h⟩

theorem exists_of_forall₂_right {α β : Type} {R : α → β → Prop} {l : List α} {r : List β} {b : β}
    (h : List.Forall₂ R l r) (hb : b ∈ r) : ∃ a ∈ l, R a b :=
  exists_of_forall₂_left h.flip hb

theorem forall₂_comp {α β γ : Type} {R : α → β → Prop} {S : β → γ → Prop} {T : α → γ → Prop}
    {l : List α} {r : List β} {u : List γ} (h : List.Forall₂ R l r) (h' : List.Forall₂ S r u)
    (hT : ∀ {a b c}, R a b → S b c → T a c) : List.Forall₂ T l u := by
  induction h generalizing u with
  | nil =>
    cases h'
    exact .nil
  | cons hab _ ih =>
    rcases h' with - | ⟨hbc, h'⟩
    exact .cons (hT hab hbc) (ih h')

theorem map_eq_of_forall₂ {α β γ : Type} {R : α → β → Prop} {f : α → γ} {g : β → γ} {l : List α}
    {r : List β} (h : List.Forall₂ R l r) (hR : ∀ {a b}, R a b → g b = f a) : r.map g = l.map f := by
  induction h with
  | nil => rfl
  | cons hab _ ih => rw [List.map_cons, List.map_cons, hR hab, ih]

/-- Of elements with different keys, one bears the key of a given one. -/
theorem filter_eq_singleton {α κ : Type} [DecidableEq κ] {key : α → κ} {l : List α} {x : α}
    (h : (l.map key).Nodup) (hx : x ∈ l) : (l.filter fun y => key y == key x) = [x] := by
  induction l with
  | nil => cases hx
  | cons y l ih =>
    obtain ⟨hy, hl⟩ := List.nodup_cons.1 (List.map_cons ▸ h)
    rcases List.mem_cons.1 hx with rfl | hx
    · have hnil : (l.filter fun y => key y == key x) = [] := by
        rw [List.filter_eq_nil_iff]
        intro z hz hkey
        exact hy (beq_iff_eq.1 hkey ▸ List.mem_map_of_mem hz)
      rw [List.filter_cons, beq_self_eq_true, if_pos rfl, hnil]
    · have hne : (key y == key x) = false :=
        beq_eq_false_iff_ne.2 fun hkey => hy (hkey ▸ List.mem_map_of_mem hx)
      rw [List.filter_cons, hne, if_neg Bool.false_ne_true]
      exact ih hl hx

/-! ### Entries of a table -/

namespace PathTable

open HasPath

variable {α : Type} [HasPath α]

theorem ext_entries {s t : PathTable α} (h : s.entries = t.entries) : s = t := by
  cases s
  cases t
  obtain rfl := h
  rfl

/-- Two entries of a table with one path are the same entry. -/
theorem eq_of_path_eq (t : PathTable α) {a b : α} (ha : a ∈ t.entries) (hb : b ∈ t.entries)
    (h : path a = path b) : a = b := by
  have asymm : ∀ {x y : α}, path x < path y → path x = path y → False := by
    intro x y hlt he
    rw [he] at hlt
    exact String.lt_irrefl _ hlt
  by_contra hne
  rcases List.pairwise_iff_getElem.1 t.ascending with hp
  obtain ⟨i, hi, rfl⟩ := List.getElem_of_mem ha
  obtain ⟨j, hj, rfl⟩ := List.getElem_of_mem hb
  rcases Nat.lt_trichotomy i j with hij | rfl | hij
  · exact asymm (hp i j hi hj hij) h
  · exact hne rfl
  · exact asymm (hp j i hj hi hij) h.symm

theorem find?_eq_some_iff {t : PathTable α} {p : String} {a : α} :
    t.find? p = some a ↔ a ∈ t.entries ∧ path a = p := by
  constructor
  · intro h
    have hp := List.find?_some h
    exact ⟨List.mem_of_find?_eq_some h, by simpa using hp⟩
  · rintro ⟨ha, rfl⟩
    rcases h : t.find? (path a) with - | b
    · have hnone := List.find?_eq_none.1 h a ha
      simp at hnone
    · have hb := List.find?_some h
      have hab : path b = path a := by simpa using hb
      rw [t.eq_of_path_eq (List.mem_of_find?_eq_some h) ha hab]

theorem nodup_paths (t : PathTable α) : (t.entries.map path).Nodup := by
  rw [List.Nodup, List.pairwise_map]
  refine t.ascending.imp ?_
  intro a b hlt he
  rw [he] at hlt
  exact String.lt_irrefl _ hlt

/-- What holds between entries in turn holds between entries in the order of their paths. -/
theorem pairwise_iff {t : PathTable α} {R : α → α → Prop} :
    t.entries.Pairwise R ↔ ∀ a ∈ t.entries, ∀ b ∈ t.entries, path a < path b → R a b := by
  constructor
  · intro h a ha b hb hlt
    obtain ⟨i, hi, rfl⟩ := List.getElem_of_mem ha
    obtain ⟨j, hj, rfl⟩ := List.getElem_of_mem hb
    rcases Nat.lt_trichotomy i j with hij | rfl | hij
    · exact List.pairwise_iff_getElem.1 h i j hi hj hij
    · exact (String.lt_irrefl _ hlt).elim
    · have hgt := List.pairwise_iff_getElem.1 t.ascending j i hj hi hij
      exact (String.lt_asymm hlt hgt).elim
  · intro h
    exact t.ascending.imp_of_mem fun ha hb hlt => h _ ha _ hb hlt

/-- Inserting an element in place of one of the same path. -/
theorem insertEntry_middle {a b : α} {l₁ l₂ : List α}
    (hl : (l₁ ++ a :: l₂).Pairwise fun a b => path a < path b) (h : path b = path a) :
    insertEntry b (l₁ ++ a :: l₂) = l₁ ++ b :: l₂ := by
  induction l₁ with
  | nil =>
    show insertEntry b (a :: l₂) = b :: l₂
    rw [insertEntry, if_neg (h ▸ String.lt_irrefl _), if_pos h]
  | cons c l₁ ih =>
    obtain ⟨hc, hl⟩ := List.pairwise_cons.1 hl
    have hca : path c < path b := h ▸ hc a (by simp)
    show insertEntry b (c :: (l₁ ++ a :: l₂)) = c :: (l₁ ++ b :: l₂)
    rw [insertEntry, if_neg (String.lt_asymm hca), if_neg, ih hl]
    intro hbc
    rw [hbc] at hca
    exact String.lt_irrefl _ hca

theorem entries_insert_middle {t : PathTable α} {a b : α} {l₁ l₂ : List α}
    (ht : t.entries = l₁ ++ a :: l₂) (h : path b = path a) :
    (t.insert b).entries = l₁ ++ b :: l₂ := by
  show insertEntry b t.entries = _
  rw [ht]
  exact insertEntry_middle (ht ▸ t.ascending) h

theorem entries_modify_middle {t : PathTable α} {f : α → α} {a : α} {l₁ l₂ : List α}
    (ht : t.entries = l₁ ++ a :: l₂) (h : path (f a) = path a) :
    (t.modify (path a) f).entries = l₁ ++ f a :: l₂ := by
  have ha : t.find? (path a) = some a := find?_eq_some_iff.2 ⟨ht ▸ by simp, rfl⟩
  rw [modify, ha]
  exact entries_insert_middle ht h

/-- A change that keeps paths acts on the entries as a map. -/
theorem entries_modify {t : PathTable α} {f : α → α} {p : String} (hf : ∀ a, path (f a) = path a) :
    (t.modify p f).entries = t.entries.map fun a => if path a = p then f a else a := by
  rcases h : t.find? p with - | a
  · rw [modify, h]
    have hid : ∀ a ∈ t.entries, (if path a = p then f a else a) = a := by
      intro a ha
      have := List.find?_eq_none.1 h a ha
      rw [if_neg (by simpa using this)]
    rw [List.map_congr_left hid, List.map_id']
  · obtain ⟨ha, rfl⟩ := find?_eq_some_iff.1 h
    obtain ⟨l₁, l₂, ht⟩ := List.append_of_mem ha
    -- away from `a` the paths differ, so that the map leaves `l₁` and `l₂` alone
    have hnodup := t.nodup_paths
    rw [ht, List.map_append, List.map_cons, List.nodup_append, List.nodup_cons] at hnodup
    obtain ⟨-, ⟨hright, -⟩, hleft⟩ := hnodup
    have hout : ∀ l : List α, (∀ b ∈ l, path b ≠ path a) →
        l.map (fun b => if path b = path a then f b else b) = l := by
      intro l hl
      rw [List.map_congr_left fun b hb => if_neg (hl b hb), List.map_id']
    have h₁ := hout l₁ fun b hb => hleft _ (List.mem_map_of_mem hb) _ List.mem_cons_self
    have h₂ := hout l₂ fun b hb he => hright (he ▸ List.mem_map_of_mem hb)
    rw [entries_modify_middle ht (hf a), ht, List.map_append, List.map_cons, h₁, h₂, if_pos rfl]

/-- A change that keeps paths changes what one path finds. -/
theorem find?_modify {t : PathTable α} {f : α → α} {p : String} (hf : ∀ a, path (f a) = path a)
    (q : String) :
    (t.modify p f).find? q = (t.find? q).map fun a => if path a = p then f a else a := by
  have hpath : ∀ a, path (if path a = p then f a else a) = path a := by
    intro a
    split
    · exact hf a
    · rfl
  rw [find?, find?, entries_modify hf, List.find?_map]
  simp only [Function.comp_def, hpath]

/-- Changes of entries at different paths may change places. -/
theorem modify_modify_comm {t : PathTable α} {f g : α → α} {p q : String}
    (hf : ∀ a, path (f a) = path a) (hg : ∀ a, path (g a) = path a) (hpq : p ≠ q) :
    (t.modify p f).modify q g = (t.modify q g).modify p f := by
  apply ext_entries
  rw [entries_modify hg, entries_modify hf, entries_modify hf, entries_modify hg, List.map_map,
    List.map_map]
  refine List.map_congr_left fun a _ => ?_
  rw [Function.comp_apply, Function.comp_apply]
  by_cases hp : path a = p
  · have hq : path a ≠ q := fun hq => hpq (hp.symm.trans hq)
    rw [if_pos hp, if_neg (hf a ▸ hq), if_neg hq, if_pos hp]
  · by_cases hq : path a = q
    · rw [if_neg hp, if_pos hq, if_neg (hg a ▸ hp)]
    · rw [if_neg hp, if_neg hq, if_neg hp]

/-! ### Tables that correspond -/

section Correspondence

variable {s t : PathTable α} {R : α → α → Prop}

/-- A path finds related entries in tables that correspond, or none in both. -/
theorem find?_of_forall₂ (h : List.Forall₂ R s.entries t.entries)
    (hR : ∀ {a b}, R a b → path b = path a) (p : String) :
    (s.find? p = none ∧ t.find? p = none) ∨
      ∃ a b, s.find? p = some a ∧ t.find? p = some b ∧ R a b := by
  rcases ha : s.find? p with - | a
  · left
    refine ⟨rfl, ?_⟩
    rcases hb : t.find? p with - | b
    · rfl
    · obtain ⟨hmem, rfl⟩ := find?_eq_some_iff.1 hb
      obtain ⟨a, hmem', hab⟩ := exists_of_forall₂_right h hmem
      rw [find?_eq_some_iff.2 ⟨hmem', (hR hab).symm⟩] at ha
      cases ha
  · right
    obtain ⟨hmem, rfl⟩ := find?_eq_some_iff.1 ha
    obtain ⟨b, hmem', hab⟩ := exists_of_forall₂_left h hmem
    exact ⟨a, b, rfl, find?_eq_some_iff.2 ⟨hmem', hR hab⟩, hab⟩

/-- Tables that correspond do so after related entries were changed alike. -/
theorem forall₂_modify (h : List.Forall₂ R s.entries t.entries)
    (hR : ∀ {a b}, R a b → path b = path a) {f g : α → α} (hf : ∀ a, path (f a) = path a)
    (hg : ∀ a, path (g a) = path a) {p : String}
    (hfg : ∀ {a b}, path a = p → R a b → R (f a) (g b)) :
    List.Forall₂ R (s.modify p f).entries (t.modify p g).entries := by
  rw [entries_modify hf, entries_modify hg, List.forall₂_map_left_iff, List.forall₂_map_right_iff]
  refine h.imp fun a b hab => ?_
  by_cases ha : path a = p
  · rw [if_pos ha, if_pos ((hR hab).trans ha)]
    exact hfg ha hab
  · rw [if_neg ha, if_neg fun hb => ha ((hR hab).symm.trans hb)]
    exact hab

end Correspondence

end PathTable

/-! ### Elements of a model -/

namespace Model

theorem ext_entries {m m' : Model} (hc : m.classes.entries = m'.classes.entries)
    (ha : m.associations.entries = m'.associations.entries) : m = m' := by
  cases m
  cases m'
  obtain rfl := PathTable.ext_entries hc
  obtain rfl := PathTable.ext_entries ha
  rfl

theorem class?_eq_some_iff {m : Model} {p : String} {c : Class} :
    m.class? p = some c ↔ c ∈ m.classes.entries ∧ c.path = p :=
  PathTable.find?_eq_some_iff

theorem association?_eq_some_iff {m : Model} {p : String} {a : Association} :
    m.association? p = some a ↔ a ∈ m.associations.entries ∧ a.path = p :=
  PathTable.find?_eq_some_iff

theorem class?_path {m : Model} {c : Class} (h : c ∈ m.classes.entries) :
    m.class? c.path = some c :=
  class?_eq_some_iff.2 ⟨h, rfl⟩

theorem association?_path {m : Model} {a : Association} (h : a ∈ m.associations.entries) :
    m.association? a.path = some a :=
  association?_eq_some_iff.2 ⟨h, rfl⟩

theorem class?_modifyClass {m : Model} {p q : String} {f : Class → Class}
    (hf : ∀ c, (f c).path = c.path) :
    (m.modifyClass p f).class? q = (m.class? q).map fun c => if c.path = p then f c else c :=
  PathTable.find?_modify hf q

/-! ### Runs over items -/

section Runs

variable {α ι : Type} {key : α → ι} {l : List α} {step : Model → ι → Except Fault (Model × Nat)}

/-- One step of a run, with the count so far. -/
def countingStep (step : Model → ι → Except Fault (Model × Nat)) (before : Model × Nat)
    (item : ι) : Except Fault (Model × Nat) := do
  let (m, more) ← step before.1 item
  return (m, before.2 + more)

theorem forEach_eq (step : Model → ι → Except Fault (Model × Nat)) (m : Model) (items : List ι) :
    forEach step m items = items.foldlM (countingStep step) (m, 0) := rfl

/-- What every step keeps, a run establishes.  The invariant `I` knows the elements visited so far;
`rest` are those after the present one. -/
theorem forEach_induction {m m' : Model} {n : Nat}
    (I : List α → Model → Nat → Prop) (start : I [] m 0)
    (visit : ∀ {visited a rest m₁ n₁ m₂ k}, l = visited ++ a :: rest → I visited m₁ n₁ →
      step m₁ (key a) = .ok (m₂, k) → I (visited ++ [a]) m₂ (n₁ + k))
    (run : forEach step m (l.map key) = .ok (m', n)) : I l m' n := by
  -- the fold is generalised over where it stands, with the visited elements taken off its list
  have aux : ∀ (rest visited : List α) (m₁ : Model) (n₁ : Nat), l = visited ++ rest →
      I visited m₁ n₁ →
      (rest.map key).foldlM (countingStep step) (m₁, n₁) = .ok (m', n) → I l m' n := by
    intro rest
    induction rest with
    | nil =>
      intro visited m₁ n₁ hl hI h
      have he : (m₁, n₁) = (m', n) := Except.ok.inj h
      obtain ⟨rfl, rfl⟩ := Prod.mk.inj he
      rw [hl, List.append_nil]
      exact hI
    | cons a rest ih =>
      intro visited m₁ n₁ hl hI h
      rw [List.map_cons, List.foldlM_cons, bind_eq_ok] at h
      obtain ⟨⟨m₂, n₂⟩, h₂, h⟩ := h
      obtain ⟨⟨m₃, k⟩, hstep, h₂⟩ := bind_eq_ok.1 h₂
      have he : (m₃, n₁ + k) = (m₂, n₂) := Except.ok.inj h₂
      obtain ⟨rfl, rfl⟩ := Prod.mk.inj he
      exact ih (visited ++ [a]) m₃ (n₁ + k) (by rw [hl]; simp) (visit hl hI hstep) h
  rw [forEach_eq] at run
  exact aux l [] m 0 rfl start run

/-- A run that fails does so in one of its steps, from where the steps before it have led. -/
theorem forEach_eq_error {m : Model} {fault : Fault}
    (run : forEach step m (l.map key) = .error fault) :
    ∃ visited a rest m₁ n₁, l = visited ++ a :: rest ∧
      forEach step m (visited.map key) = .ok (m₁, n₁) ∧ step m₁ (key a) = .error fault := by
  -- the fold is generalised over what it starts from
  have aux : ∀ (l : List α) (start : Model × Nat),
      (l.map key).foldlM (countingStep step) start = .error fault →
      ∃ visited a rest m₁ n₁, l = visited ++ a :: rest ∧
        (visited.map key).foldlM (countingStep step) start = .ok (m₁, n₁) ∧
          step m₁ (key a) = .error fault := by
    intro l
    induction l with
    | nil =>
      intro start h
      cases h
    | cons a l ih =>
      intro start h
      rw [List.map_cons, List.foldlM_cons, bind_eq_error] at h
      rcases h with h | ⟨next, hnext, h⟩
      · rcases bind_eq_error.1 h with hstep | ⟨_, -, h⟩
        · exact ⟨[], a, l, start.1, start.2, rfl, rfl, hstep⟩
        · cases h
      · obtain ⟨visited, b, rest, m₁, n₁, rfl, hvisited, hstep⟩ := ih next h
        refine ⟨a :: visited, b, rest, m₁, n₁, rfl, ?_, hstep⟩
        rw [List.map_cons, List.foldlM_cons, hnext]
        exact hvisited
  rw [forEach_eq] at run
  exact aux l (m, 0) run

/-- A run succeeds if each step does from wherever the invariant leaves it. -/
theorem forEach_ok (key : α → ι) (l : List α) (step : Model → ι → Except Fault (Model × Nat)) (m : Model)
    (I : List α → Model → Nat → Prop) (start : I [] m 0)
    (visit : ∀ {visited a rest m₁ n₁}, l = visited ++ a :: rest → I visited m₁ n₁ →
      ∃ m₂ k, step m₁ (key a) = .ok (m₂, k) ∧ I (visited ++ [a]) m₂ (n₁ + k)) :
    ∃ m' n, forEach step m (l.map key) = .ok (m', n) ∧ I l m' n := by
  have aux : ∀ (rest visited : List α) (m₁ : Model) (n₁ : Nat), l = visited ++ rest →
      I visited m₁ n₁ →
      ∃ m' n, (rest.map key).foldlM (countingStep step) (m₁, n₁) = .ok (m', n) ∧ I l m' n := by
    intro rest
    induction rest with
    | nil =>
      intro visited m₁ n₁ hl hI
      refine ⟨m₁, n₁, rfl, ?_⟩
      rw [hl, List.append_nil]
      exact hI
    | cons a rest ih =>
      intro visited m₁ n₁ hl hI
      obtain ⟨m₂, k, hstep, hI₂⟩ := visit hl hI
      obtain ⟨m', n, hrun, hI'⟩ := ih (visited ++ [a]) m₂ (n₁ + k) (by rw [hl]; simp) hI₂
      refine ⟨m', n, ?_, hI'⟩
      rw [List.map_cons, List.foldlM_cons]
      refine bind_eq_ok.2 ⟨(m₂, n₁ + k), ?_, hrun⟩
      exact bind_eq_ok.2 ⟨(m₂, k), hstep, rfl⟩
  rw [forEach_eq]
  exact aux l [] m 0 rfl start

end Runs

end Model

end Bitemporal
