/-
Bitemporal/Proofs/Bodies.lean

The stages of a compilation that date bodies.

A run over the classes rewrites declared bodies and nothing else, so that every
class is dated against the calls of the model the run started from
(`dateClasses_eq_ok`).  A run over the associations moreover renews the views
of each association whose bodies changed; it is told here by the list of those
associations (`dateAssociations_eq_ok`).

Both runs count the bodies that changed (`changedBodiesIn`), and so count zero
exactly if nothing did.
-/
import Bitemporal.Proofs.Stages

namespace Bitemporal

/-! ### Lists of bodies -/

/-- The number of bodies that differ between two lists, place by place. -/
def changedBodies (before after : List QualifiedProperty) : Nat :=
  (before.zip after).countP fun (q, r) => q.body != r.body

/-- The number of declared bodies that differ between two lists of elements, place by place. -/
def changedBodiesIn {α : Type} (qualified : α → List QualifiedProperty) (before after : List α) : Nat :=
  ((before.zip after).map fun (a, b) => changedBodies (qualified a) (qualified b)).sum

theorem changedBodies_self (qs : List QualifiedProperty) : changedBodies qs qs = 0 := by
  induction qs with
  | nil => rfl
  | cons q qs ih =>
    rw [changedBodies, List.zip_cons_cons, List.countP_cons, ← changedBodies, ih, if_neg (by simp)]

/-- What stands behind two lists alike is not counted. -/
theorem changedBodies_append {qs qs' : List QualifiedProperty} (h : qs.length = qs'.length)
    (gs : List QualifiedProperty) : changedBodies (qs ++ gs) (qs' ++ gs) = changedBodies qs qs' := by
  rw [changedBodies, List.zip_append h, List.countP_append]
  exact congrArg _ (changedBodies_self gs)

section Counts

variable {α : Type} {qualified : α → List QualifiedProperty} {l l' : List α}

theorem changedBodiesIn_concat (h : l.length = l'.length) (a a' : α) :
    changedBodiesIn qualified (l ++ [a]) (l' ++ [a']) =
      changedBodiesIn qualified l l' + changedBodies (qualified a) (qualified a') := by
  rw [changedBodiesIn, List.zip_append h, List.map_append, List.sum_append]
  rfl

/-- Only the qualified properties matter. -/
theorem changedBodiesIn_map {f : α → α} (h : ∀ a, qualified (f a) = qualified a) :
    changedBodiesIn qualified l (l'.map f) = changedBodiesIn qualified l l' := by
  rw [changedBodiesIn, List.zip_map_right, List.map_map]
  refine congrArg _ (List.map_congr_left fun x _ => ?_)
  show changedBodies (qualified x.1) (qualified (f x.2)) = changedBodies (qualified x.1) _
  rw [h]

theorem changedBodiesIn_eq_zero_iff
    (h : List.Forall₂ (fun a b => changedBodies (qualified a) (qualified b) = 0 ↔ b = a) l l') :
    changedBodiesIn qualified l l' = 0 ↔ l' = l := by
  induction h with
  | nil => simp [changedBodiesIn]
  | cons hab _ ih =>
    rw [List.cons.injEq, ← hab, ← ih, ← Nat.add_eq_zero_iff]
    rfl

end Counts

namespace Model

/-- The qualified properties `qs'` are `qs` with their bodies dated. -/
def Dates (m : Model) (qs qs' : List QualifiedProperty) : Prop :=
  List.Forall₂ (fun q q' => m.dateBody .builtin q = .ok q') qs qs'

variable {m m' : Model} {qs qs' : List QualifiedProperty}

theorem Dates.congr (h : SameCalls m' m) (hd : m'.Dates qs qs') : m.Dates qs qs' :=
  hd.imp fun q _ hq => (dateBody_congr h q).symm.trans hq

theorem Dates.headers (h : m.Dates qs qs') :
    qs'.map QualifiedProperty.header = qs.map QualifiedProperty.header :=
  map_eq_of_forall₂ h header_dateBody

theorem dateBody_of_isGenerated {q : QualifiedProperty} (hq : q.isGenerated = true) :
    m.dateBody .builtin q = .ok q := by
  rw [dateBody_builtin, if_pos hq]

theorem Dates.eq_of_isGenerated (h : m.Dates qs qs') (hqs : ∀ q ∈ qs, q.isGenerated = true) :
    qs' = qs := by
  induction h with
  | nil => rfl
  | @cons q q' qs qs' hq _ ih =>
    rw [dateBody_of_isGenerated (hqs q List.mem_cons_self)] at hq
    rw [ih fun r hr => hqs r (List.mem_cons_of_mem q hr), Except.ok.inj hq]

/-- Generated accessors that stand behind others stay there. -/
theorem Dates.of_append {gs : List QualifiedProperty} (h : m.Dates (qs ++ gs) qs')
    (hgs : ∀ q ∈ gs, q.isGenerated = true) : ∃ ds, qs' = ds ++ gs ∧ m.Dates qs ds := by
  induction qs generalizing qs' with
  | nil => exact ⟨[], h.eq_of_isGenerated hgs, .nil⟩
  | cons q qs ih =>
    rcases h with - | ⟨hq, h⟩
    obtain ⟨ds, rfl, hds⟩ := ih h
    exact ⟨_ :: ds, rfl, .cons hq hds⟩

/-- Dating neither adds nor removes generated accessors. -/
theorem Dates.mem_iff (h : m.Dates qs qs') {q : QualifiedProperty} (hq : q.isGenerated = true) :
    q ∈ qs' ↔ q ∈ qs := by
  constructor
  · intro hmem
    obtain ⟨q₀, hq₀, hdate⟩ := exists_of_forall₂_right h hmem
    have hheader : q.header.isGenerated = q₀.header.isGenerated := by rw [header_dateBody hdate]
    have hq₀generated : q₀.isGenerated = true := hheader.symm.trans hq
    rw [dateBody_of_isGenerated hq₀generated] at hdate
    obtain rfl := Except.ok.inj hdate
    exact hq₀
  · intro hmem
    obtain ⟨q', hq', hdate⟩ := exists_of_forall₂_left h hmem
    rw [dateBody_of_isGenerated hq] at hdate
    obtain rfl := Except.ok.inj hdate
    exact hq'

/-- A dated body makes all the difference between a qualified property and its dated form. -/
theorem eq_of_header_of_body {q q' : QualifiedProperty} (hh : q'.header = q.header)
    (hb : q'.body = q.body) : q' = q := by
  obtain ⟨typing, annotations, name, owner, signature, body⟩ := q
  obtain ⟨typing', annotations', name', owner', signature', body'⟩ := q'
  obtain rfl := hb
  simp only [QualifiedProperty.header, QualifiedProperty.mk.injEq, and_true] at hh
  obtain ⟨rfl, rfl, rfl, rfl, rfl⟩ := hh
  rfl

/-- No body changed exactly if the lists are the same. -/
theorem Dates.changedBodies_eq_zero_iff (h : m.Dates qs qs') :
    changedBodies qs qs' = 0 ↔ qs' = qs := by
  induction h with
  | nil => simp [changedBodies]
  | @cons q q' qs qs' hq _ ih =>
    rw [changedBodies, List.zip_cons_cons, List.countP_cons, ← changedBodies, Nat.add_eq_zero_iff, ih,
      List.cons.injEq]
    constructor
    · rintro ⟨rfl, hbody⟩
      refine ⟨eq_of_header_of_body (header_dateBody hq) ?_, rfl⟩
      by_contra hne
      rw [if_pos (by simpa using Ne.symm hne)] at hbody
      cases hbody
    · rintro ⟨rfl, rfl⟩
      simp

theorem dateBodies_eq_ok {k : Nat} (h : m.dateBodies .builtin qs = .ok (qs', k)) :
    m.Dates qs qs' ∧ k = changedBodies qs qs' := by
  obtain ⟨dated, hdated, h⟩ := bind_eq_ok.1 h
  obtain ⟨rfl, rfl⟩ := Prod.mk.inj (Except.ok.inj h)
  exact ⟨forall₂_of_mapM_eq_ok hdated, rfl⟩

/-- Bodies that dating leaves alone. -/
def Fixes (m : Model) (qs : List QualifiedProperty) : Prop :=
  ∀ q ∈ qs, m.dateBody .builtin q = .ok q

theorem dates_self_iff : m.Dates qs qs ↔ m.Fixes qs := by
  rw [Dates, Fixes]
  exact List.forall₂_same

theorem dateBodies_of_fixes (h : m.Fixes qs) : m.dateBodies .builtin qs = .ok (qs, 0) := by
  refine bind_eq_ok.2 ⟨qs, mapM_of_forall₂ (dates_self_iff.2 h), ?_⟩
  show Except.ok (qs, changedBodies qs qs) = _
  rw [(dates_self_iff.2 h).changedBodies_eq_zero_iff.2 rfl]

end Model

/-! ### Classes -/

/-- The class `c'` is `c` with its declared bodies dated. -/
def Class.Redated (m : Model) (c c' : Class) : Prop :=
  c' = { c with qualified := c'.qualified } ∧ m.Dates c.qualified c'.qualified

namespace Class.Redated

variable {m : Model} {c c' : Class}

theorem frame (h : Redated m c c') : c'.frame = c.frame := by
  rw [h.1]
  rfl

theorem path (h : Redated m c c') : c'.path = c.path :=
  congrArg Prod.fst h.frame

theorem headers (h : Redated m c c') : c'.headers = c.headers := by
  have hq := h.2.headers
  rw [Class.headers, Class.headers, Class.allQualified, Class.allQualified, List.map_append,
    List.map_append, hq, h.1]

theorem changedBodies_eq_zero_iff (h : Redated m c c') :
    changedBodies c.qualified c'.qualified = 0 ↔ c' = c := by
  rw [h.2.changedBodies_eq_zero_iff]
  constructor
  · intro hq
    rw [h.1, hq]
  · rintro rfl
    rfl

end Class.Redated

namespace Model

/-- Models whose classes agree, in turn, on frames and headers answer calls alike. -/
theorem SameCalls.of_entries {m m' : Model}
    (h : m'.classes.entries.map (fun c => (c.frame, c.headers)) =
      m.classes.entries.map fun c => (c.frame, c.headers)) : SameCalls m' m := by
  have hframe : m'.frame = m.frame := by
    have hfst := congrArg (List.map Prod.fst) h
    rwa [List.map_map, List.map_map] at hfst
  refine SameCalls.of_headers hframe fun path => ?_
  have hfind : ∀ n : Model, (n.class? path).map Class.headers =
      ((n.classes.entries.map fun c => (c.frame, c.headers)).find? fun f => f.1.1 == path).map
        (·.2) := by
    intro n
    rw [List.find?_map, Option.map_map]
    rfl
  rw [hfind, hfind, h]

private theorem map_frame_headers {m : Model} {l l' : List Class}
    (h : List.Forall₂ (Class.Redated m) l l') :
    l'.map (fun c => (c.frame, c.headers)) = l.map fun c => (c.frame, c.headers) :=
  map_eq_of_forall₂ h fun hc => by rw [hc.frame, hc.headers]

/-- Dating one class. -/
theorem dateClass_eq_ok {m m₁ m₂ : Model} {c : Class} {l₁ l₂ : List Class} {k : Nat}
    (hc : m₁.classes.entries = l₁ ++ c :: l₂) (hsame : SameCalls m₁ m)
    (h : dateClass .builtin m₁ c.path = .ok (m₂, k)) :
    ∃ c', Class.Redated m c c' ∧ m₂.associations = m₁.associations ∧
      m₂.classes.entries = l₁ ++ c' :: l₂ ∧ k = changedBodies c.qualified c'.qualified := by
  have hclass : m₁.class? c.path = some c :=
    class?_path (hc ▸ List.mem_append_cons_self)
  rw [dateClass, hclass] at h
  obtain ⟨⟨qs, changed⟩, hqs, h⟩ := bind_eq_ok.1 h
  obtain ⟨hdates, hchanged⟩ := dateBodies_eq_ok hqs
  have hredated : Class.Redated m c { c with qualified := qs } := ⟨rfl, hdates.congr hsame⟩
  refine ⟨_, hredated, ?_⟩
  dsimp only at h
  split at h
  · -- no body changed, and the class is left where it is
    rename_i hzero
    obtain ⟨rfl, rfl⟩ := Prod.mk.inj (Except.ok.inj h)
    refine ⟨rfl, ?_, hzero ▸ hchanged⟩
    rw [hredated.changedBodies_eq_zero_iff.1 (hchanged.symm.trans hzero), hc]
  · obtain ⟨rfl, rfl⟩ := Prod.mk.inj (Except.ok.inj h)
    have hmiddle : (m₁.modifyClass c.path fun c => { c with qualified := qs }).classes.entries =
        l₁ ++ { c with qualified := qs } :: l₂ :=
      PathTable.entries_modify_middle (f := fun c : Class => { c with qualified := qs }) hc rfl
    exact ⟨rfl, hmiddle, hchanged⟩

/-- What a run over the classes of `p` has made of those it visited, with the rest still to come. -/
structure DatesClasses (p : Model) (visited done rest : List Class) (m : Model) (k : Nat) : Prop where
  associations : m.associations = p.associations
  before : p.classes.entries = visited ++ rest
  after : m.classes.entries = done ++ rest
  redated : List.Forall₂ (Class.Redated p) visited done
  count : k = changedBodiesIn (·.qualified) visited done

/-- Dated bodies are no part of the headers that calls are read off. -/
theorem DatesClasses.sameCalls {p m : Model} {visited done rest : List Class} {k : Nat}
    (h : p.DatesClasses visited done rest m k) : SameCalls m p := by
  apply SameCalls.of_entries
  rw [h.after, h.before, List.map_append, List.map_append, map_frame_headers h.redated]

theorem DatesClasses.visit {p m₁ m₂ : Model} {visited done rest : List Class} {c : Class} {n k : Nat}
    (h : p.DatesClasses visited done (c :: rest) m₁ n)
    (hstep : dateClass .builtin m₁ c.path = .ok (m₂, k)) :
    ∃ c', p.DatesClasses (visited ++ [c]) (done ++ [c']) rest m₂ (n + k) := by
  obtain ⟨c', hredated, hassociations, hclasses, hk⟩ := dateClass_eq_ok h.after h.sameCalls hstep
  refine ⟨c', hassociations.trans h.associations, ?_, ?_, ?_, ?_⟩
  · rw [h.before, List.append_assoc]
    rfl
  · rw [hclasses, List.append_assoc]
    rfl
  · exact List.rel_append h.redated (.cons hredated .nil)
  · rw [changedBodiesIn_concat h.redated.length_eq, h.count, hk]

/-- **A run over the first classes**, as far as it has come. -/
theorem datesClasses_of_run {p m : Model} {visited rest : List Class} {k : Nat}
    (hsplit : p.classes.entries = visited ++ rest)
    (h : forEach (dateClass .builtin) p (visited.map Class.path) = .ok (m, k)) :
    ∃ done, p.DatesClasses visited done rest m k := by
  have hrun : ∃ done rest, p.DatesClasses visited done rest m k := by
    refine forEach_induction (fun visited m k => ∃ done rest, p.DatesClasses visited done rest m k)
      ⟨[], _, rfl, rfl, rfl, .nil, rfl⟩ ?_ h
    rintro before c after m₁ n m₂ k hvisited ⟨done, rest', hdone⟩ hstep
    obtain rfl : rest' = c :: (after ++ rest) := by
      have hbefore := hdone.before
      rw [hsplit, hvisited, List.append_assoc, List.cons_append] at hbefore
      exact List.append_cancel_left hbefore.symm
    obtain ⟨c', hc'⟩ := hdone.visit hstep
    exact ⟨_, _, hc'⟩
  obtain ⟨done, rest', hdone⟩ := hrun
  obtain rfl := List.append_cancel_left (hdone.before.symm.trans hsplit)
  exact ⟨done, hdone⟩

/-- **Dating the bodies of all classes.** -/
theorem dateClasses_eq_ok {p d : Model} {k : Nat}
    (h : forEach (dateClass .builtin) p p.classes.paths = .ok (d, k)) :
    d.associations = p.associations ∧
      List.Forall₂ (Class.Redated p) p.classes.entries d.classes.entries ∧
      k = changedBodiesIn (·.qualified) p.classes.entries d.classes.entries := by
  obtain ⟨done, hassociations, -, hafter, hredated, hcount⟩ :=
    datesClasses_of_run (List.append_nil _).symm h
  rw [List.append_nil] at hafter
  subst hafter
  exact ⟨hassociations, hredated, hcount⟩

theorem dateClasses_of_fixes {p : Model} (h : ∀ c ∈ p.classes.entries, p.Fixes c.qualified) :
    forEach (dateClass .builtin) p p.classes.paths = .ok (p, 0) := by
  obtain ⟨m', n, hrun, rfl, rfl⟩ := forEach_ok Class.path p.classes.entries (dateClass .builtin) p
    (fun _ m' n => m' = p ∧ n = 0) ⟨rfl, rfl⟩ (by
      rintro visited c rest m₁ n₁ hsplit ⟨rfl, rfl⟩
      have hc : c ∈ m₁.classes.entries := hsplit ▸ List.mem_append_cons_self
      refine ⟨m₁, 0, ?_, rfl, rfl⟩
      rw [dateClass, class?_path hc]
      exact bind_eq_ok.2 ⟨_, dateBodies_of_fixes (h c hc), rfl⟩)
  exact hrun

end Model

/-! ### Classes with renewed views -/

/-- The class `c'` is `c` with bodies changed and the views of some associations renewed. -/
def Class.Rearranged (m : Model) (as : List Association) (c c' : Class) : Prop :=
  c' = { Class.renewedAll m as c with qualified := c'.qualified } ∧
    c'.qualified.map QualifiedProperty.header = c.qualified.map QualifiedProperty.header

namespace Class

theorem renewedAll_withQualified (m : Model) (as : List Association) (c : Class)
    (qs : List QualifiedProperty) :
    renewedAll m as { c with qualified := qs } = { renewedAll m as c with qualified := qs } := by
  induction as generalizing c with
  | nil => rfl
  | cons a as ih => exact ih (c.renewed m a)

theorem renewedAll_of_frame {m m' : Model} (h : m'.frame = m.frame) (as : List Association) :
    renewedAll m' as = renewedAll m as := by
  funext c
  induction as generalizing c with
  | nil => rfl
  | cons a as ih => rw [renewedAll_cons, renewedAll_cons, renewed_of_frame h, ih]

variable {m : Model} {as : List Association} {c c' c'' : Class}

theorem rearranged_renewedAll (m : Model) (as : List Association) (c : Class) :
    Rearranged m as c (renewedAll m as c) := by
  rw [Rearranged, renewedAll_qualified]
  refine ⟨?_, rfl⟩
  rw [← renewedAll_qualified m as c]

theorem Redated.rearranged {d : Model} (h : Redated m c c') (hd : d.frame = m.frame)
    (h' : Rearranged d as c' c'') : Rearranged m as c c'' := by
  refine ⟨?_, h'.2.trans h.2.headers⟩
  have h'' := h'.1
  rw [renewedAll_of_frame hd, h.1, renewedAll_withQualified] at h''
  exact h''

theorem Rearranged.frame (h : Rearranged m as c c') : c'.frame = c.frame := by
  rw [h.1]
  exact renewedAll_frame m as c

theorem Rearranged.headers_nil (h : Rearranged m [] c c') : c'.headers = c.headers := by
  rw [headers, headers, allQualified, allQualified, List.map_append, List.map_append, h.2, h.1]
  rfl

end Class

/-! ### Associations -/

namespace Association

/-- The association `a'` is `a` with its declared bodies dated. -/
def Redated (m : Model) (a a' : Association) : Prop :=
  a' = { a with qualified := a'.qualified } ∧ m.Dates a.qualified a'.qualified

theorem Redated.changedBodies_eq_zero_iff {m : Model} {a a' : Association} (h : Redated m a a') :
    changedBodies a.qualified a'.qualified = 0 ↔ a' = a := by
  rw [h.2.changedBodies_eq_zero_iff]
  constructor
  · intro hq
    rw [h.1, hq]
  · rintro rfl
    rfl

/-- Of the associations of a list, those that are not as they were before. -/
def changed (before after : List Association) : List Association :=
  ((before.zip after).filter fun (a, a') => a' != a).map (·.2)

variable {l l' : List Association}

theorem changed_concat (h : l.length = l'.length) (a a' : Association) :
    changed (l ++ [a]) (l' ++ [a']) = changed l l' ++ if a' = a then [] else [a'] := by
  rw [changed, List.zip_append h, List.filter_append, List.map_append, ← changed]
  by_cases ha : a' = a <;> simp [ha]

theorem changed_eq_nil_iff (h : l.length = l'.length) : changed l l' = [] ↔ l' = l := by
  rw [changed, List.map_eq_nil_iff]
  induction l generalizing l' with
  | nil =>
    obtain rfl := List.length_eq_zero_iff.1 h.symm
    simp
  | cons a l ih =>
    rcases l' with - | ⟨a', l'⟩
    · cases h
    · rw [List.zip_cons_cons, List.filter_cons, List.cons.injEq, ← ih (Nat.succ.inj h)]
      by_cases ha : a' = a <;> simp [ha]

end Association

namespace Model

/-- A model that differs from `p` in bodies that classes declare, and in views of some of the given
associations that have been renewed. -/
def Between (p : Model) (as : List Association) (n : Model) : Prop :=
  ∃ bs, bs.Sublist as ∧ List.Forall₂ (Class.Rearranged p bs) p.classes.entries n.classes.entries

theorem Between.frame {p n : Model} {as : List Association} (h : p.Between as n) :
    n.frame = p.frame := by
  obtain ⟨bs, -, hc⟩ := h
  exact map_eq_of_forall₂ hc Class.Rearranged.frame

theorem Between.mono {p n : Model} {as bs : List Association} (h : p.Between as n)
    (hs : as.Sublist bs) : p.Between bs n := by
  obtain ⟨cs, hcs, hc⟩ := h
  exact ⟨cs, hcs.trans hs, hc⟩

/-- Where no association is given, nothing that calls depend on differs. -/
theorem Between.sameCalls {p n : Model} (h : p.Between [] n) : SameCalls n p := by
  obtain ⟨bs, hbs, hc⟩ := h
  obtain rfl := List.sublist_nil.1 hbs
  apply SameCalls.of_entries
  exact map_eq_of_forall₂ hc fun h => by rw [h.frame, h.headers_nil]

/-- Dating one association. -/
theorem dateAssociation_eq_ok {d m₁ m₂ : Model} {a : Association} {l₁ l₂ : List Association} {k : Nat}
    (ha : m₁.associations.entries = l₁ ++ a :: l₂) (hframe : m₁.frame = d.frame)
    (h : dateAssociation .builtin m₁ a.path = .ok (m₂, k)) :
    ∃ a', Association.Redated m₁ a a' ∧ m₂.associations.entries = l₁ ++ a' :: l₂ ∧
      m₂.classes.entries = m₁.classes.entries.map
        (Class.renewedAll d (if a' = a then [] else [a'])) ∧
      k = changedBodies a.qualified a'.qualified := by
  have hassociation : m₁.association? a.path = some a :=
    association?_path (ha ▸ List.mem_append_cons_self)
  rw [dateAssociation, hassociation] at h
  obtain ⟨⟨qs, changed⟩, hqs, h⟩ := bind_eq_ok.1 h
  obtain ⟨hdates, hchanged⟩ := dateBodies_eq_ok hqs
  have hredated : Association.Redated m₁ a { a with qualified := qs } := ⟨rfl, hdates⟩
  have hsame : changed = 0 ↔ { a with qualified := qs } = a := by
    rw [hchanged, hredated.changedBodies_eq_zero_iff]
  refine ⟨_, hredated, ?_⟩
  dsimp only at h
  split at h
  · rename_i hzero
    obtain ⟨rfl, rfl⟩ := Prod.mk.inj (Except.ok.inj h)
    refine ⟨?_, ?_, hzero ▸ hchanged⟩
    · rw [hsame.1 hzero, ha]
    · rw [if_pos (hsame.1 hzero)]
      exact (List.map_id _).symm
  · -- the bodies changed, so that the views are renewed
    rename_i hzero
    rw [if_neg fun he => hzero (hsame.2 he)]
    have hmiddle : (m₁.modifyAssociation a.path fun a =>
        { a with qualified := qs }).associations.entries = l₁ ++ { a with qualified := qs } :: l₂ :=
      PathTable.entries_modify_middle (f := fun a : Association => { a with qualified := qs }) ha rfl
    generalize hafter : (m₁.modifyAssociation a.path fun a => { a with qualified := qs }) = after
      at h hmiddle
    have hclasses : after.classes = m₁.classes := by
      rw [← hafter]
      rfl
    have hframe' : after.frame = d.frame := by
      rw [frame, hclasses]
      exact hframe
    have hthere : after.association? a.path = some { a with qualified := qs } :=
      association?_path (hmiddle ▸ List.mem_append_cons_self)
    obtain ⟨m₃, hm₃, h⟩ := bind_eq_ok.1 h
    rw [renewViews, hthere] at hm₃
    obtain rfl := Except.ok.inj hm₃
    obtain ⟨rfl, rfl⟩ := Prod.mk.inj (Except.ok.inj h)
    obtain ⟨ha₂, hc₂⟩ := after.renewViewsOf_entries { a with qualified := qs }
    refine ⟨?_, ?_, hchanged⟩
    · rw [ha₂, hmiddle]
    · rw [hc₂, hclasses, Class.renewed_of_frame hframe']
      rfl

/-- What a run over the associations of `d` has made of those it visited, with the rest still to come:
their bodies are dated in models on the way, and the views of those that changed are renewed. -/
structure DatesAssociations (d : Model) (visited done rest : List Association) (m : Model) (k : Nat) :
    Prop where
  before : d.associations.entries = visited ++ rest
  after : m.associations.entries = done ++ rest
  redated : List.Forall₂ (fun a a' => ∃ n, d.Between (Association.changed visited done) n ∧
    Association.Redated n a a') visited done
  classes : m.classes.entries =
    d.classes.entries.map (Class.renewedAll d (Association.changed visited done))
  count : k = changedBodiesIn (·.qualified) visited done

namespace DatesAssociations

variable {d m₁ m₂ : Model} {visited done rest : List Association} {a : Association} {n k : Nat}

theorem between (h : d.DatesAssociations visited done rest m₁ n) :
    d.Between (Association.changed visited done) m₁ := by
  refine ⟨_, List.Sublist.refl _, ?_⟩
  rw [h.classes]
  exact List.forall₂_map_right_iff.2 (List.forall₂_same.2 fun c _ => Class.rearranged_renewedAll d _ c)

theorem visit (h : d.DatesAssociations visited done (a :: rest) m₁ n)
    (hstep : dateAssociation .builtin m₁ a.path = .ok (m₂, k)) :
    ∃ a', d.DatesAssociations (visited ++ [a]) (done ++ [a']) rest m₂ (n + k) := by
  have hlength := h.redated.length_eq
  obtain ⟨a', hredated, hassociations, hclasses, hk⟩ :=
    dateAssociation_eq_ok h.after h.between.frame hstep
  have hchanged := Association.changed_concat hlength a a'
  have hsublist : (Association.changed visited done).Sublist
      (Association.changed (visited ++ [a]) (done ++ [a'])) := by
    rw [hchanged]
    exact List.sublist_append_left _ _
  refine ⟨a', ?_, ?_, ?_, ?_, ?_⟩
  · rw [h.before, List.append_assoc]
    rfl
  · rw [hassociations, List.append_assoc]
    rfl
  · -- the models on the way so far are also on the way to where one more has changed
    refine List.rel_append (h.redated.imp ?_) (.cons ⟨m₁, h.between.mono hsublist, hredated⟩ .nil)
    rintro b b' ⟨n, hn, hb⟩
    exact ⟨n, hn.mono hsublist, hb⟩
  · rw [hclasses, h.classes, List.map_map, hchanged]
    refine List.map_congr_left fun c _ => ?_
    rw [Class.renewedAll_append]
    rfl
  · rw [changedBodiesIn_concat hlength, h.count, hk]

end DatesAssociations

/-- **A run over the first associations**, as far as it has come. -/
theorem datesAssociations_of_run {d m : Model} {visited rest : List Association} {k : Nat}
    (hsplit : d.associations.entries = visited ++ rest)
    (h : forEach (dateAssociation .builtin) d (visited.map Association.path) = .ok (m, k)) :
    ∃ done, d.DatesAssociations visited done rest m k := by
  have hrun : ∃ done rest, d.DatesAssociations visited done rest m k := by
    refine forEach_induction
      (fun visited m k => ∃ done rest, d.DatesAssociations visited done rest m k)
      ⟨[], _, rfl, rfl, .nil, (List.map_id _).symm, rfl⟩ ?_ h
    rintro before a after m₁ n m₂ k hvisited ⟨done, rest', hdone⟩ hstep
    obtain rfl : rest' = a :: (after ++ rest) := by
      have hbefore := hdone.before
      rw [hsplit, hvisited, List.append_assoc, List.cons_append] at hbefore
      exact List.append_cancel_left hbefore.symm
    obtain ⟨a', ha'⟩ := hdone.visit hstep
    exact ⟨_, _, ha'⟩
  obtain ⟨done, rest', hdone⟩ := hrun
  obtain rfl := List.append_cancel_left (hdone.before.symm.trans hsplit)
  exact ⟨done, hdone⟩

/-- **Dating the bodies of all associations.** -/
theorem dateAssociations_eq_ok {d m' : Model} {k : Nat}
    (h : forEach (dateAssociation .builtin) d d.associations.paths = .ok (m', k)) :
    List.Forall₂ (fun a a' => ∃ n,
        d.Between (Association.changed d.associations.entries m'.associations.entries) n ∧
          Association.Redated n a a') d.associations.entries m'.associations.entries ∧
      m'.classes.entries = d.classes.entries.map (Class.renewedAll d
        (Association.changed d.associations.entries m'.associations.entries)) ∧
      k = changedBodiesIn (·.qualified) d.associations.entries m'.associations.entries := by
  obtain ⟨done, -, hafter, hredated, hclasses, hcount⟩ :=
    datesAssociations_of_run (List.append_nil _).symm h
  rw [List.append_nil] at hafter
  subst hafter
  exact ⟨hredated, hclasses, hcount⟩

theorem dateAssociations_of_fixes {d : Model} (h : ∀ a ∈ d.associations.entries, d.Fixes a.qualified) :
    forEach (dateAssociation .builtin) d d.associations.paths = .ok (d, 0) := by
  obtain ⟨m', n, hrun, rfl, rfl⟩ := forEach_ok Association.path d.associations.entries
    (dateAssociation .builtin) d (fun _ m' n => m' = d ∧ n = 0) ⟨rfl, rfl⟩ (by
      rintro visited a rest m₁ n₁ hsplit ⟨rfl, rfl⟩
      have ha : a ∈ m₁.associations.entries := hsplit ▸ List.mem_append_cons_self
      refine ⟨m₁, 0, ?_, rfl, rfl⟩
      rw [dateAssociation, association?_path ha]
      exact bind_eq_ok.2 ⟨_, dateBodies_of_fixes (h a ha), rfl⟩)
  exact hrun

/-! ### A compilation -/

/-- What a compilation of `m` that ends in `m'` has made of the prepared model. -/
structure Compiles (m : Model) (settings : Settings) (report : Report) (m' : Model) : Prop where
  classified : m.classify settings.strictShapes = .ok report.temporalClasses
  synthesized : report.synthesized = m.lackedDates
  milestoned : report.milestoned = m.edgeCount
  dated : report.dated =
    changedBodiesIn (·.qualified) (m.prepared settings.rangeFilter).classes.entries
      m'.classes.entries +
    changedBodiesIn (·.qualified) (m.prepared settings.rangeFilter).associations.entries
      m'.associations.entries
  /-- Classes get their bodies dated and the views of changed associations renewed. -/
  classes : List.Forall₂
    (fun c c' => c' = { Class.renewedAll (m.prepared settings.rangeFilter) (Association.changed
          (m.prepared settings.rangeFilter).associations.entries m'.associations.entries) c with
        qualified := c'.qualified } ∧
      (m.prepared settings.rangeFilter).Dates c.qualified c'.qualified)
    (m.prepared settings.rangeFilter).classes.entries m'.classes.entries
  /-- Associations get their bodies dated, each in a model on the way to `m'`. -/
  associations : List.Forall₂
    (fun a a' => ∃ n, (m.prepared settings.rangeFilter).Between (Association.changed
        (m.prepared settings.rangeFilter).associations.entries m'.associations.entries) n ∧
      Association.Redated n a a')
    (m.prepared settings.rangeFilter).associations.entries m'.associations.entries

/-- **A compilation that succeeds, told by what it leaves behind.** -/
theorem compiles_of_compile {m m' : Model} {settings : Settings} {report : Report}
    (h : m.compile .builtin settings = .ok (report, m')) : m.Compiles settings report m' := by
  obtain ⟨t, d, k, k', ht, hd, hm', rfl⟩ := compile_eq_ok_iff.1 h
  obtain ⟨ha, hc, hk⟩ := dateClasses_eq_ok hd
  obtain ⟨ha', hc', hk'⟩ := dateAssociations_eq_ok hm'
  rw [ha] at ha' hc'
  generalize hp : m.prepared settings.rangeFilter = p at hd ha hc hk ha' hc'
  have hframe : d.frame = p.frame := map_eq_of_forall₂ hc Class.Redated.frame
  refine ⟨ht, rfl, rfl, ?_, ?_, ?_⟩
  · -- renewed views are no part of what is counted
    have hqualified : ∀ c, (Class.renewedAll d (Association.changed p.associations.entries
        m'.associations.entries) c).qualified = c.qualified := Class.renewedAll_qualified d _
    rw [hp, hc', changedBodiesIn_map hqualified, ← hk, ← ha, ← hk']
  · rw [hp, hc', Class.renewedAll_of_frame hframe]
    refine List.forall₂_map_right_iff.2 (hc.imp fun c c' hredated => ?_)
    rw [Class.renewedAll_qualified]
    refine ⟨?_, hredated.2⟩
    rw [← Class.renewedAll_withQualified, ← hredated.1]
  · rw [hp]
    refine ha'.imp ?_
    rintro a a' ⟨n, ⟨bs, hbs, hn⟩, hredated⟩
    exact ⟨n, ⟨bs, hbs, forall₂_comp hc hn fun h h' => h.rearranged hframe h'⟩, hredated⟩

/-- No body was counted as changed exactly if the prepared model was left as it was. -/
theorem Compiles.dated_eq_zero_iff {m m' : Model} {settings : Settings} {report : Report}
    (h : m.Compiles settings report m') :
    report.dated = 0 ↔ m' = m.prepared settings.rangeFilter := by
  have hassociations : changedBodiesIn (·.qualified)
      (m.prepared settings.rangeFilter).associations.entries m'.associations.entries = 0 ↔
        m'.associations.entries = (m.prepared settings.rangeFilter).associations.entries := by
    refine changedBodiesIn_eq_zero_iff (h.associations.imp ?_)
    rintro a a' ⟨n, -, hredated⟩
    exact hredated.changedBodies_eq_zero_iff
  rw [h.dated, Nat.add_eq_zero_iff, hassociations]
  constructor
  · rintro ⟨hc, ha⟩
    -- no association changed, so that no view was renewed either
    have hclasses := h.classes
    rw [ha, (Association.changed_eq_nil_iff rfl).2 rfl] at hclasses
    have hredated : List.Forall₂ (Class.Redated (m.prepared settings.rangeFilter))
        (m.prepared settings.rangeFilter).classes.entries m'.classes.entries := hclasses
    refine ext_entries ((changedBodiesIn_eq_zero_iff ?_).1 hc) ha
    exact hredated.imp fun _ _ hc => hc.changedBodies_eq_zero_iff
  · rintro rfl
    refine ⟨?_, rfl⟩
    refine (changedBodiesIn_eq_zero_iff (List.forall₂_same.2 fun c _ => ?_)).2 rfl
    exact iff_of_true (changedBodies_self c.qualified) rfl

end Model

/-! ### What becomes of one class and of one association -/

/-- A compilation has made `c'` of the class `c`, renewing the views of the given associations in
turn. -/
structure Class.Compiled (m : Model) (filter : RangeFilter) (as : List Association) (c c' : Class) :
    Prop where
  eq_renewed : c' = { Class.renewedAll m as (c.equipped m filter) with qualified := c'.qualified }
  dates : (m.prepared filter).Dates (c.equipped m filter).qualified c'.qualified

/-- A compilation has made `a'` of the association `a`. -/
structure Association.Compiled (m : Model) (filter : RangeFilter) (as : List Association)
    (a a' : Association) : Prop where
  eq_milestoned : a' = { a.milestoned m filter with qualified := a'.qualified }
  dates : ∃ n, (m.prepared filter).Between as n ∧
    n.Dates (a.milestoned m filter).qualified a'.qualified

namespace Class.Compiled

variable {m : Model} {filter : RangeFilter} {as : List Association} {c c' : Class}

theorem frame (h : c.Compiled m filter as c') : c'.frame = c.frame := by
  rw [h.eq_renewed]
  exact (renewedAll_frame m as _).trans (c.equipped_frame m filter)

theorem path (h : c.Compiled m filter as c') : c'.path = c.path :=
  congrArg Prod.fst h.frame

theorem shape? (h : c.Compiled m filter as c') : c'.shape? = c.shape? :=
  congrArg (fun f => f.2.shape?) h.frame

theorem properties (h : c.Compiled m filter as c') :
    c'.properties = (c.equipped m filter).properties := by
  rw [h.eq_renewed]
  exact renewedAll_properties m as _

theorem exposed (h : c.Compiled m filter as c') :
    c'.exposed = (renewedAll m as (c.equipped m filter)).exposed := by
  rw [h.eq_renewed]

theorem exposedQualified (h : c.Compiled m filter as c') :
    c'.exposedQualified = (renewedAll m as (c.equipped m filter)).exposedQualified := by
  rw [h.eq_renewed]

theorem replaced (h : c.Compiled m filter as c') :
    c'.replaced = (renewedAll m as (c.equipped m filter)).replaced := by
  rw [h.eq_renewed]

end Class.Compiled

namespace Association.Compiled

variable {m : Model} {filter : RangeFilter} {as : List Association} {a a' : Association}

theorem path (h : a.Compiled m filter as a') : a'.path = a.path := by
  rw [h.eq_milestoned]
  rfl

theorem properties (h : a.Compiled m filter as a') :
    a'.properties = (a.milestoned m filter).properties := by
  rw [h.eq_milestoned]

theorem replaced (h : a.Compiled m filter as a') :
    a'.replaced = (a.milestoned m filter).replaced := by
  rw [h.eq_milestoned]

theorem headers (h : a.Compiled m filter as a') :
    a'.qualified.map QualifiedProperty.header =
      (a.milestoned m filter).qualified.map QualifiedProperty.header := by
  obtain ⟨n, -, hdates⟩ := h.dates
  exact hdates.headers

end Association.Compiled

namespace Model

variable {m m' : Model} {settings : Settings} {report : Report}

/-- The associations whose bodies a compilation from `m` to `m'` has changed. -/
def changedAssociations (m : Model) (filter : RangeFilter) (m' : Model) : List Association :=
  Association.changed (m.milestonedAssociations filter) m'.associations.entries

theorem Compiles.forall₂_classes (h : m.Compiles settings report m') :
    List.Forall₂ (Class.Compiled m settings.rangeFilter
        (m.milestonedAssociations settings.rangeFilter ++
          m.changedAssociations settings.rangeFilter m'))
      m.classes.entries m'.classes.entries := by
  refine (List.forall₂_map_left_iff.1 h.classes).imp ?_
  rintro c c' ⟨heq, hdates⟩
  rw [Class.renewedAll_qualified] at hdates
  refine ⟨?_, hdates⟩
  rw [Class.renewedAll_of_frame (m.prepared_frame _), ← Class.renewedAll_append] at heq
  exact heq

theorem Compiles.forall₂_associations (h : m.Compiles settings report m') :
    List.Forall₂ (Association.Compiled m settings.rangeFilter
        (m.changedAssociations settings.rangeFilter m'))
      m.associations.entries m'.associations.entries := by
  refine (List.forall₂_map_left_iff.1 h.associations).imp ?_
  rintro a a' ⟨n, hn, heq, hdates⟩
  exact ⟨heq, n, hn, hdates⟩

theorem Compiles.frame (h : m.Compiles settings report m') : m'.frame = m.frame :=
  map_eq_of_forall₂ h.forall₂_classes Class.Compiled.frame

/-- The compiled model is itself on the way. -/
theorem Compiles.between (h : m.Compiles settings report m') :
    (m.prepared settings.rangeFilter).Between (m.changedAssociations settings.rangeFilter m') m' := by
  refine ⟨_, List.Sublist.refl _, h.classes.imp ?_⟩
  rintro c c' ⟨heq, hdates⟩
  exact ⟨heq, hdates.headers⟩

end Model

end Bitemporal
