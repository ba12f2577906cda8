/-
Bitemporal/Proofs/Independence.lean

One body changed.

Two models that differ in one declared body (`Model.withBody`) have the same
frame and the same headers, so that calls are answered alike in both, and
preparing them leaves them so (`withBody_prepared`).  Each body is dated on its
own, against the calls of the prepared model.  Hence dating the classes fails
with the changed body if it fails at all, and otherwise leaves models that again
differ in this body and in nothing else (`dateClasses_withBody`).  To the bodies
of associations the two models look the same (`dateAssociation_withBody`).

Compilations of the two therefore differ in what becomes of that body, which the
prepared model tells alone, and in the count of the bodies that changed
(`compile_withBody`).
-/
import Bitemporal.Proofs.RangeFilters
import Bitemporal.Expression.Text

namespace Bitemporal

/-! ### Entries of a list -/

section Lists

variable {α β : Type} {f : α → α} {i : Nat}

theorem map_modify_of_forall {g : α → β} (h : ∀ a, g (f a) = g a) (l : List α) :
    (l.modify i f).map g = l.map g := by
  induction l generalizing i with
  | nil => cases i <;> rfl
  | cons a l ih =>
    cases i with
    | zero => rw [List.modify_zero_cons, List.map_cons, List.map_cons, h]
    | succ i => rw [List.modify_succ_cons, List.map_cons, List.map_cons, ih]

theorem modify_append_left {l : List α} (h : i < l.length) (l' : List α) :
    (l ++ l').modify i f = l.modify i f ++ l' := by
  induction l generalizing i with
  | nil => cases h
  | cons a l ih =>
    cases i with
    | zero => rfl
    | succ i =>
      rw [List.cons_append, List.modify_succ_cons, List.modify_succ_cons, List.cons_append,
        ih (Nat.lt_of_succ_lt_succ h)]

/-- What is in a changed list was in it before, or is what was changed. -/
theorem mem_of_mem_modify {l : List α} {x : α} (h : x ∈ l.modify i f) :
    x ∈ l ∨ ∃ a, l[i]? = some a ∧ x = f a := by
  induction l generalizing i with
  | nil =>
    rw [List.modify_nil] at h
    cases h
  | cons a l ih =>
    cases i with
    | zero =>
      rcases List.mem_cons.1 h with rfl | h
      · exact .inr ⟨a, rfl, rfl⟩
      · exact .inl (List.mem_cons_of_mem a h)
    | succ i =>
      rcases List.mem_cons.1 h with rfl | h
      · exact .inl List.mem_cons_self
      · exact (ih h).imp_left (List.mem_cons_of_mem a)

end Lists

/-! ### Another body -/

/-- The class with another body of the qualified property that it declares in this place. -/
def Class.withBody (c : Class) (i : Nat) (body : List Expression) : Class :=
  { c with qualified := c.qualified.modify i fun q => { q with body } }

/-- The model with another body of a qualified property that the class of this path declares. -/
def Model.withBody (m : Model) (path : String) (i : Nat) (body : List Expression) : Model :=
  m.modifyClass path fun c => c.withBody i body

namespace Class

variable {c : Class} {i : Nat} {body : List Expression}

@[simp] theorem withBody_frame : (c.withBody i body).frame = c.frame := rfl

/-- What does not look at bodies is the same of the qualified properties of both. -/
theorem map_withBody_qualified {α : Type} {g : QualifiedProperty → α}
    (h : ∀ q : QualifiedProperty, g { q with body } = g q) :
    (c.withBody i body).qualified.map g = c.qualified.map g :=
  map_modify_of_forall h c.qualified

theorem withBody_headers : (c.withBody i body).headers = c.headers := by
  rw [headers, headers, allQualified, allQualified, List.map_append, List.map_append,
    map_withBody_qualified fun _ => rfl]
  rfl

theorem withBody_withDates : (c.withBody i body).withDates = c.withDates.withBody i body := by
  have hsame : (c.withBody i body).shape? = c.shape? := rfl
  rcases hshape : c.shape? with - | shape
  · rw [withDates_of_none hshape, withDates_of_none (hsame.trans hshape)]
  · rw [withDates_of_shape hshape, withDates_of_shape (hsame.trans hshape)]
    rfl

/-- Milestoning adds accessors behind the declared ones, whose bodies it does not look at. -/
theorem withBody_milestoned (hi : i < c.qualified.length) (m : Model) (filter : RangeFilter) :
    (c.withBody i body).milestoned m filter = (c.milestoned m filter).withBody i body := by
  have hqualified : ((c.withBody i body).milestoned m filter).qualified =
      ((c.milestoned m filter).withBody i body).qualified := by
    show (m.milestonedMembers filter _ (c.withBody i body).toMembers).qualified =
      (m.milestonedMembers filter _ c.toMembers).qualified.modify i _
    rw [Model.milestonedMembers_qualified, Model.milestonedMembers_qualified,
      map_withBody_qualified fun _ => rfl, modify_append_left hi]
    rfl
  have hsame : (c.withBody i body).milestoned m filter =
      { (c.milestoned m filter).withBody i body with
        qualified := ((c.withBody i body).milestoned m filter).qualified } := rfl
  rw [hsame, hqualified]

theorem withBody_equipped (hi : i < c.qualified.length) (m : Model) (filter : RangeFilter) :
    (c.withBody i body).equipped m filter = (c.equipped m filter).withBody i body := by
  rw [equipped, withBody_withDates, withBody_milestoned (c.withDates_qualified ▸ hi), equipped]

theorem withBody_renewed (m : Model) (a : Association) :
    (c.withBody i body).renewed m a = (c.renewed m a).withBody i body := rfl

theorem withBody_renewedAll (m : Model) (as : List Association) :
    renewedAll m as (c.withBody i body) = (renewedAll m as c).withBody i body := by
  rw [withBody, renewedAll_withQualified, withBody, renewedAll_qualified]

end Class

namespace Model

variable {m p d : Model} {path : String} {i : Nat} {body : List Expression}

theorem withBody_entries (m : Model) (path : String) (i : Nat) (body : List Expression) :
    (m.withBody path i body).classes.entries =
      m.classes.entries.map fun c => if c.path = path then c.withBody i body else c :=
  PathTable.entries_modify fun _ => rfl

/-- Calls are answered alike, whatever the bodies are. -/
theorem sameCalls_withBody (m : Model) (path : String) (i : Nat) (body : List Expression) :
    SameCalls (m.withBody path i body) m := by
  apply SameCalls.of_entries
  rw [withBody_entries, List.map_map]
  refine List.map_congr_left fun c _ => ?_
  rw [Function.comp_apply]
  split
  · rw [Class.withBody_frame, Class.withBody_headers]
  · rfl

theorem withBody_frame (m : Model) (path : String) (i : Nat) (body : List Expression) :
    (m.withBody path i body).frame = m.frame :=
  (sameCalls_withBody m path i body).frame

/-! ### Preparing a model with another body -/

theorem milestonedAssociations_frame {m' : Model} (hframe : m'.frame = m.frame)
    (hassociations : m'.associations = m.associations) (filter : RangeFilter) :
    m'.milestonedAssociations filter = m.milestonedAssociations filter := by
  rw [milestonedAssociations, milestonedAssociations, hassociations]
  exact List.map_congr_left fun a _ => Association.milestoned_of_frame hframe filter a

/-- **Preparing a model** with another body prepares the model. -/
theorem withBody_prepared {c : Class} (hc : m.class? path = some c) (hi : i < c.qualified.length)
    (filter : RangeFilter) :
    (m.withBody path i body).prepared filter = (m.prepared filter).withBody path i body := by
  have hframe := withBody_frame m path i body
  obtain ⟨hmem, rfl⟩ := class?_eq_some_iff.1 hc
  refine ext_entries ?_ (milestonedAssociations_frame hframe rfl filter)
  rw [withBody_entries]
  show (m.withBody c.path i body).classes.entries.map _ = (m.classes.entries.map _).map _
  rw [withBody_entries, List.map_map, List.map_map]
  refine List.map_congr_left fun c' hc' => ?_
  rw [Function.comp_apply, Function.comp_apply, milestonedAssociations_frame hframe rfl,
    Class.renewedAll_of_frame hframe, Class.renewedAll_path, Class.equipped_path, Class.equipped,
    Class.milestoned_of_frame hframe, ← Class.equipped]
  split
  · rename_i hpath
    obtain rfl := m.classes.eq_of_path_eq hc' hmem hpath
    rw [Class.withBody_equipped hi, Class.withBody_renewedAll]
  · rfl

theorem withBody_lackedDates (m : Model) (path : String) (i : Nat) (body : List Expression) :
    (m.withBody path i body).lackedDates = m.lackedDates := by
  rw [lackedDates, lackedDates, withBody_entries, List.map_map]
  refine congrArg List.sum (List.map_congr_left fun c _ => ?_)
  rw [Function.comp_apply]
  split
  · rw [Class.withBody_withDates]
    rfl
  · rfl

theorem withBody_edgeCount (m : Model) (path : String) (i : Nat) (body : List Expression) :
    (m.withBody path i body).edgeCount = m.edgeCount := by
  have hframe := withBody_frame m path i body
  have hassociation : (m.withBody path i body).associationEdges = m.associationEdges :=
    funext (associationEdges_frame hframe)
  rw [edgeCount, edgeCount, hassociation, withBody_entries, List.map_map]
  refine congrArg (List.sum · + _) (List.map_congr_left fun c _ => ?_)
  rw [Function.comp_apply, classEdges_frame hframe]
  split
  · rw [Class.withBody_withDates]
    rfl
  · rfl

/-! ### Dating the classes -/

variable {c : Class} {q : QualifiedProperty}

theorem Dates.unique {qs ds ds' : List QualifiedProperty} (h : m.Dates qs ds) (h' : m.Dates qs ds') :
    ds = ds' :=
  List.right_unique_forall₂' (fun _ _ _ hq hq' => Except.ok.inj (hq.symm.trans hq')) h h'

/-- Dating gives a qualified property another body. -/
theorem eq_withBody_of_dateBody {q' : QualifiedProperty} (h : m.dateBody .builtin q = .ok q') :
    q' = { q with body := q'.body } := by
  have hheader : q'.header = q.header := header_dateBody h
  exact eq_of_header_of_body (q := { q with body := q'.body }) hheader rfl

/-- Two lists that differ in one body are dated to lists that do. -/
theorem Dates.modify {qs ds ds' : List QualifiedProperty} {q' : QualifiedProperty} (h : m.Dates qs ds)
    (h' : m.Dates (qs.modify i fun q => { q with body }) ds') (hq : qs[i]? = some q)
    (hdate : m.dateBody .builtin { q with body } = .ok q') :
    ds' = ds.modify i fun d => { d with body := q'.body } := by
  induction h generalizing i ds' with
  | nil => cases hq
  | @cons q₀ d₀ qs ds hd₀ hds ih =>
    cases i with
    | zero =>
      obtain rfl : q₀ = q := Option.some.inj hq
      rw [List.modify_zero_cons] at h'
      rcases h' with - | ⟨hd, hds'⟩
      obtain rfl := Except.ok.inj (hdate.symm.trans hd)
      rw [List.modify_zero_cons, Dates.unique hds hds', eq_withBody_of_dateBody hd₀,
        eq_withBody_of_dateBody hd]
    | succ i =>
      rw [List.modify_succ_cons] at h'
      rcases h' with - | ⟨hd, hds'⟩
      obtain rfl := Except.ok.inj (hd₀.symm.trans hd)
      rw [List.modify_succ_cons, ih hds' hq]

/-- **Dating the classes** of two models that differ in one body leaves models that differ in it. -/
theorem dateClasses_withBody {d' : Model} {k k' : Nat} (hc : p.class? path = some c)
    (hq : c.qualified[i]? = some q)
    (h : forEach (dateClass .builtin) p p.classes.paths = .ok (d, k))
    (h' : forEach (dateClass .builtin) (p.withBody path i body)
      (p.withBody path i body).classes.paths = .ok (d', k')) :
    ∃ q', p.dateBody .builtin { q with body } = .ok q' ∧ d' = d.withBody path i q'.body := by
  obtain ⟨hassociations, hclasses, -⟩ := dateClasses_eq_ok h
  obtain ⟨hassociations', hclasses', -⟩ := dateClasses_eq_ok h'
  obtain ⟨hmem, rfl⟩ := class?_eq_some_iff.1 hc
  have hsame := sameCalls_withBody p c.path i body
  rw [withBody_entries, List.forall₂_map_left_iff] at hclasses'
  -- the class with the other body was dated
  obtain ⟨x, -, hx⟩ := exists_of_forall₂_left hclasses' hmem
  rw [if_pos rfl] at hx
  have hchanged : { q with body } ∈ (c.withBody i body).qualified := by
    refine List.mem_of_getElem? (i := i) ?_
    simp [Class.withBody, hq]
  obtain ⟨q', -, hq'⟩ := exists_of_forall₂_left (hx.2.congr hsame) hchanged
  refine ⟨q', hq', ext_entries ?_ ?_⟩
  · have hin : List.Forall₂ (fun c₁ x => c₁ ∈ p.classes.entries ∧ Class.Redated p c₁ x)
        p.classes.entries d.classes.entries :=
      (List.forall₂_and_left _ _).2 ⟨fun _ h => h, hclasses⟩
    rw [withBody_entries, ← List.map_id d'.classes.entries]
    refine map_eq_of_forall₂ (forall₂_comp hin.flip hclasses' ?_) fun h => h
    rintro x c₁ y ⟨hc₁, hx, hdates⟩ ⟨hy, hdates'⟩
    replace hdates' := hdates'.congr hsame
    rw [hx, hy]
    show _ = if c₁.path = c.path then _ else _
    split
    · rename_i hpath
      obtain rfl := p.classes.eq_of_path_eq hc₁ hmem hpath
      rw [if_pos rfl] at hdates'
      rw [Dates.modify hdates hdates' hq hq']
      rfl
    · rename_i hpath
      rw [if_neg hpath] at hdates'
      rw [Dates.unique hdates hdates']
      rfl
  · rw [hassociations']
    exact congrArg PathTable.entries hassociations.symm

/-- Where the classes of a model can be dated, another body is the only one on which they can fail. -/
theorem dateBody_of_dateClasses_eq_error {k : Nat} {fault : Fault} (hc : p.class? path = some c)
    (hq : c.qualified[i]? = some q)
    (h : forEach (dateClass .builtin) p p.classes.paths = .ok (d, k))
    (h' : forEach (dateClass .builtin) (p.withBody path i body)
      (p.withBody path i body).classes.paths = .error fault) :
    p.dateBody .builtin { q with body } = .error fault := by
  obtain ⟨-, hclasses, -⟩ := dateClasses_eq_ok h
  obtain ⟨hmem, rfl⟩ := class?_eq_some_iff.1 hc
  -- no body of the model itself fails
  have hdated : ∀ c₁ ∈ p.classes.entries, ∀ r ∈ c₁.qualified, p.dateBody .builtin r ≠ .error fault := by
    intro c₁ hc₁ r hr
    obtain ⟨x, -, hx⟩ := exists_of_forall₂_left hclasses hc₁
    obtain ⟨r', -, hr'⟩ := exists_of_forall₂_left hx.2 hr
    rw [hr']
    exact nofun
  obtain ⟨visited, c', rest, m₁, k₁, hsplit, hrun, hstep⟩ := forEach_eq_error h'
  obtain ⟨done, hdone⟩ := datesClasses_of_run hsplit hrun
  have hclass : m₁.class? c'.path = some c' :=
    class?_path (hdone.after ▸ List.mem_append_cons_self)
  obtain ⟨r, hr, hfault⟩ := exists_of_dateClass_eq_error hclass hstep
  rw [dateBody_congr hdone.sameCalls, dateBody_congr (sameCalls_withBody p c.path i body)] at hfault
  have hmem' : c' ∈ (p.withBody c.path i body).classes.entries :=
    hsplit ▸ List.mem_append_cons_self
  rw [withBody_entries] at hmem'
  obtain ⟨c₁, hc₁, rfl⟩ := List.mem_map.1 hmem'
  split at hr
  · rename_i hpath
    obtain rfl := p.classes.eq_of_path_eq hc₁ hmem hpath
    rcases mem_of_mem_modify hr with hr | ⟨q₁, hq₁, rfl⟩
    · exact absurd hfault (hdated c₁ hc₁ r hr)
    · obtain rfl := Option.some.inj (hq.symm.trans hq₁)
      exact hfault
  · exact absurd hfault (hdated c₁ hc₁ r hr)

/-! ### Dating the associations -/

theorem withBody_renewViewsOf (m : Model) (path : String) (i : Nat) (body : List Expression)
    (a : Association) :
    (m.withBody path i body).renewViewsOf a = (m.renewViewsOf a).withBody path i body := by
  obtain ⟨hassociations, hclasses⟩ := m.renewViewsOf_entries a
  obtain ⟨hassociations', hclasses'⟩ := (m.withBody path i body).renewViewsOf_entries a
  refine ext_entries ?_ ?_
  · rw [hclasses', Class.renewed_of_frame (withBody_frame m path i body), withBody_entries,
      withBody_entries, hclasses, List.map_map, List.map_map]
    refine List.map_congr_left fun c _ => ?_
    rw [Function.comp_apply, Function.comp_apply, Class.renewed_path]
    split
    · rw [Class.withBody_renewed]
    · rfl
  · rw [hassociations']
    exact congrArg PathTable.entries hassociations.symm

/-- **Dating an association** does not look at the bodies of classes. -/
theorem dateAssociation_withBody (m : Model) (path : String) (i : Nat) (body : List Expression)
    (association : String) :
    Alike (Counted fun m m' => m' = m.withBody path i body)
      (dateAssociation .builtin m association)
      (dateAssociation .builtin (m.withBody path i body) association) := by
  rcases ha : m.association? association with - | a
  · have ha' : (m.withBody path i body).association? association = none := ha
    rw [dateAssociation, dateAssociation, ha, ha']
    exact .ok ⟨rfl, rfl⟩
  · refine dateAssociation_alike (Q := Eq) rfl ha ha ?_ ?_
    · rw [dateBodies_congr (sameCalls_withBody m path i body)]
      exact .of_eq rfl fun _ => ⟨rfl, rfl⟩
    · rintro qs _ rfl
      exact withBody_renewViewsOf
        (m.modifyAssociation association fun a => { a with qualified := qs }) path i body _

theorem dateAssociations_withBody (m : Model) (path : String) (i : Nat) (body : List Expression) :
    Alike (Counted fun m m' => m' = m.withBody path i body)
      (forEach (dateAssociation .builtin) m m.associations.paths)
      (forEach (dateAssociation .builtin) (m.withBody path i body)
        (m.withBody path i body).associations.paths) := by
  refine forEach_alike_of_step (R := fun m m' => m' = m.withBody path i body) rfl
    m.associations.paths ?_
  rintro association m _ rfl
  exact dateAssociation_withBody m path i body association

/-! ### Compiling a model with another body -/

/-- A class as it is prepared begins with what it declares. -/
theorem exists_class_prepared (hc : m.class? path = some c) (hq : c.qualified[i]? = some q)
    (filter : RangeFilter) :
    ∃ c', (m.prepared filter).class? path = some c' ∧ c'.qualified[i]? = some q := by
  obtain ⟨hmem, rfl⟩ := class?_eq_some_iff.1 hc
  have hi : i < c.qualified.length := (List.getElem?_eq_some_iff.1 hq).1
  refine ⟨_, class?_eq_some_iff.2 ⟨List.mem_map_of_mem hmem, ?_⟩, ?_⟩
  · rw [Class.renewedAll_path, Class.equipped_path]
  · rw [Class.renewedAll_qualified, equipped_qualified, List.getElem?_append_left hi, hq]

/-- **Compiling a model with another body**, where the model compiles.  The prepared model dates this
body, or does not, and the compilation ends accordingly.  All else is as it was, up to the count of
changed bodies. -/
theorem compile_withBody {settings : Settings} {report : Report} {m' : Model}
    (hc : m.class? path = some c) (hq : c.qualified[i]? = some q)
    (h : m.compile .builtin settings = .ok (report, m')) (body : List Expression) :
    ∃ dated, (m.withBody path i body).compile .builtin settings =
      ((m.prepared settings.rangeFilter).dateBody .builtin { q with body }).map fun q' =>
        ({ report with dated }, m'.withBody path i q'.body) := by
  have hi : i < c.qualified.length := (List.getElem?_eq_some_iff.1 hq).1
  have hframe := withBody_frame m path i body
  obtain ⟨t, d, k, k', ht, hd, hm', rfl⟩ := compile_eq_ok_iff.1 h
  have ht' : (m.withBody path i body).classify settings.strictShapes = .ok t := by
    rw [classify_eq_ok_iff, hframe]
    exact classify_eq_ok_iff.1 ht
  obtain ⟨c', hc', hq'⟩ := exists_class_prepared hc hq settings.rangeFilter
  rw [compile_builtin, ht', withBody_prepared hc hi, withBody_lackedDates, withBody_edgeCount]
  generalize m.prepared settings.rangeFilter = p at hd hc' ⊢
  rcases hrun : forEach (dateClass .builtin) (p.withBody path i body)
    (p.withBody path i body).classes.paths with fault | ⟨d', n⟩
  · rw [dateBody_of_dateClasses_eq_error hc' hq' hd hrun]
    exact ⟨0, bind_eq_error.2 (.inr ⟨t, rfl, bind_eq_error.2 (.inl hrun)⟩)⟩
  · obtain ⟨q', hq', rfl⟩ := dateClasses_withBody hc' hq' hd hrun
    have halike := dateAssociations_withBody d path i q'.body
    rw [hm'] at halike
    obtain ⟨⟨m₂, n'⟩, hm₂, hcounted⟩ := halike.exists_ok
    obtain ⟨rfl, rfl⟩ : m₂ = m'.withBody path i q'.body ∧ k' = n' := hcounted
    rw [hq']
    refine ⟨n + k', bind_eq_ok.2 ⟨t, rfl, bind_eq_ok.2 ⟨_, hrun, ?_⟩⟩⟩
    exact bind_eq_ok.2 ⟨_, hm₂, rfl⟩

/-- **Bodies do not reach one another.**  Where two models that differ in one declared body both
compile, the compiled models differ in this body, which the prepared model dates by itself, and
in nothing else.  The reports differ in the count of changed bodies at most. -/
theorem bodies_apart {settings : Settings} {report report' : Report} {m₁ m₂ : Model}
    (hc : m.class? path = some c) (hq : c.qualified[i]? = some q)
    (h : m.compile .builtin settings = .ok (report, m₁))
    (h' : (m.withBody path i body).compile .builtin settings = .ok (report', m₂)) :
    report' = { report with dated := report'.dated } ∧
      ∃ body', m₂ = m₁.withBody path i body' ∧
        (m.prepared settings.rangeFilter).dateBody .builtin { q with body } =
          .ok { q with body := body' } := by
  obtain ⟨dated, hcompile⟩ := compile_withBody hc hq h body
  rw [hcompile] at h'
  rcases hdate : (m.prepared settings.rangeFilter).dateBody .builtin { q with body } with fault | q'
  · rw [hdate] at h'
    cases h'
  · rw [hdate] at h'
    obtain ⟨rfl, rfl⟩ := Prod.mk.inj (Except.ok.inj h')
    refine ⟨rfl, q'.body, rfl, ?_⟩
    rw [eq_withBody_of_dateBody hdate]

/-- A class with an edge to itself and two derived properties, `here` and `there`, that both take the
edge twice. -/
def walker : Model :=
  let this : Variable := { name := "this", type := .ofClass "m::K", multiplicity := .one }
  let next : Typing := ⟨.ofClass "m::K", .zeroOne⟩
  let walk (name : String) : QualifiedProperty :=
    { next with
      name := name, owner := .ofClass "m::K"
      signature := { parameters := [this], result := next }
      body := [
        (Navigation.plain "m::K" "next"
          ((Navigation.plain "m::K" "next" this.reference []).toExpression next) []).toExpression next] }
  ofDocument {
    classes := [{
      path := "m::K"
      stereotypes := [.resolved temporalProfile Shape.business.name]
      properties := [{ next with name := "next", owner := .ofClass "m::K" }]
      qualified := [walk "here", walk "there"] }] }

/-- The same walk, with a date given for the first call. -/
def datedWalk : Expression :=
  let this : Variable := { name := "this", type := .ofClass "m::K", multiplicity := .one }
  let next : Typing := ⟨.ofClass "m::K", .zeroOne⟩
  (Navigation.plain "m::K" "next"
    ((Navigation.plain "m::K" "next" this.reference [.date "2020-01-01"]).toExpression next)
    []).toExpression next

/-- Given in one body, the date is passed on to the next call of that body, and the other body is dated
as before. -/
theorem walker_apart :
    ((walker.withBody "m::K" 0 [datedWalk]).compile .builtin {}).toOption.map (fun (_, m) =>
        m.classes.entries.map fun c => (c.qualified.take 2).map fun q => q.body.map (·.text)) =
      some [[["$this.next(%2020-01-01).next(%2020-01-01)"],
        ["$this.next($this.businessDate).next($this.businessDate)"]]] ∧
      ∃ report report' m₁ m₂ body', walker.compile .builtin {} = .ok (report, m₁) ∧
        (walker.withBody "m::K" 0 [datedWalk]).compile .builtin {} = .ok (report', m₂) ∧
        report' = { report with dated := report'.dated } ∧ m₂ = m₁.withBody "m::K" 0 body' := by
  refine ⟨by decide +kernel, ?_⟩
  have hok : (walker.compile .builtin {}).toOption.isSome := by decide +kernel
  have hok' : ((walker.withBody "m::K" 0 [datedWalk]).compile .builtin {}).toOption.isSome := by
    decide +kernel
  rcases h : walker.compile .builtin {} with fault | ⟨report, m₁⟩
  · rw [h] at hok
    cases hok
  rcases h' : (walker.withBody "m::K" 0 [datedWalk]).compile .builtin {} with fault | ⟨report', m₂⟩
  · rw [h'] at hok'
    cases hok'
  have hclass : walker.class? "m::K" = some walker.classes.entries[0] := by decide +kernel
  obtain ⟨hreport, body', hm₂, -⟩ := bodies_apart hclass (i := 0) rfl h h'
  exact ⟨report, report', m₁, m₂, body', rfl, rfl, hreport, hm₂⟩

end Model

end Bitemporal
