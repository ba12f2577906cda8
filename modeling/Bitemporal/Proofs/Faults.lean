/-
Bitemporal/Proofs/Faults.lean

How a compilation can fail.

With all built-in symbols, the stages before the dating of bodies fail in one
way: under the strict setting, at a class with several shapes.  Dating fails at
single calls, in two ways: a call of a date accessor leaves dates out, or the
accessor that takes all of them is not there (`Navigation.Raises`).

A failure is traced back to the call that raised it, through one call
(`Navigation.raises_of_settle`), one expression
(`Expression.exists_settle_of_dated`) and one body
(`QualifiedProperty.raises_of_dateBody`) to the element whose bodies were being
dated when the run over all elements broke off.  Of the arguments of a call
only their number matters to what it raises, so that the call can be named as
it is written.  Neither does it matter which elements came before: they leave a
model that answers calls as the prepared one, or as one with some views renewed
(`Model.Midway`).  The main statement is `Model.fails_of_compile_eq_error`.
-/
import Bitemporal.Proofs.DateArguments

namespace Bitemporal

/-! ### The navigations of an expression -/

namespace Expression

mutual

/-- The navigations of an expression, at any depth. -/
def navigations : Expression → List Navigation
  | reference _ _ => []
  | literal _ _ => []
  | equal _ l r _ => navigations l ++ navigations r
  | compare _ _ l r _ => navigations l ++ navigations r
  | conjunction _ os _ => navigationsAll os
  | filter _ s _ e _ => navigations s ++ navigations e
  | navigate site as w _ => { toSite := site, arguments := as, written := w } :: navigationsAll as

/-- The navigations of the expressions of a list. -/
def navigationsAll : List Expression → List Navigation
  | [] => []
  | e :: es => navigations e ++ navigationsAll es

end

variable {P : Navigation → Prop} {n : Navigation}

mutual

/-- What every navigation of an expression has, each one has. -/
theorem everywhere_of_mem_navigations {e : Expression} (he : e.Everywhere P)
    (hn : n ∈ e.navigations) : P n := by
  match e with
  | reference _ _ => cases hn
  | literal _ _ => cases hn
  | equal f l r t =>
    exact (List.mem_append.1 hn).elim (everywhere_of_mem_navigations he.1)
      (everywhere_of_mem_navigations he.2)
  | compare f o l r t =>
    exact (List.mem_append.1 hn).elim (everywhere_of_mem_navigations he.1)
      (everywhere_of_mem_navigations he.2)
  | conjunction f os t => exact everywhereAll_of_mem_navigationsAll he hn
  | filter f s b e t =>
    exact (List.mem_append.1 hn).elim (everywhere_of_mem_navigations he.1)
      (everywhere_of_mem_navigations he.2)
  | navigate site as w t =>
    rcases List.mem_cons.1 hn with rfl | hn
    · exact he.1
    · exact everywhereAll_of_mem_navigationsAll he.2 hn

theorem everywhereAll_of_mem_navigationsAll {es : List Expression} (hes : EverywhereAll P es)
    (hn : n ∈ navigationsAll es) : P n := by
  match es with
  | [] => cases hn
  | e :: es =>
    exact (List.mem_append.1 hn).elim (everywhere_of_mem_navigations hes.1)
      (everywhereAll_of_mem_navigationsAll hes.2)

end

end Expression

/-! ### One call -/

namespace Navigation

/-- What a call can raise in a model, with whatever dates in force. -/
inductive Raises (m : Model) (n : Navigation) : Fault → Prop
  /-- It calls a date accessor and leaves dates out. -/
  | missingDate {target : Shape} (hcall : m.callShape? n.owner n.property = some target)
      (hless : n.explicit.length < target.axes.length) :
      Raises m n (.missingDate n.property target.axes n.span)
  /-- It calls a date accessor, and the one that takes all dates is not there. -/
  | accessorNotFound {target : Shape} (hcall : m.callShape? n.owner n.property = some target)
      (hle : n.explicit.length ≤ target.axes.length)
      (hnone : m.takes n.owner n.property (1 + target.axes.length) = false) :
      Raises m n (.accessorNotFound n.property n.owner (1 + target.axes.length) n.span)

variable {m : Model} {n : Navigation} {fault : Fault} {ambient after : Ambient}

theorem called_eq_error (h : n.called m = .error fault) :
    m.takes n.owner n.property n.arguments.length = false ∧
      fault = .accessorNotFound n.property n.owner n.arguments.length n.span := by
  rw [called] at h
  split at h
  · cases h
  · exact ⟨Bool.eq_false_iff.2 ‹_›, (Except.error.inj h).symm⟩

/-- Settling a call fails if dates are missing, or if the call cannot be made with all dates, be they
written or supplied. -/
theorem cases_of_settle_eq_error (h : (n.settle m).from ambient = (.error fault, after)) :
    ∃ target, m.callShape? n.owner n.property = some target ∧
      (n.explicit.length < target.axes.length ∧
          fault = .missingDate n.property target.axes n.span ∨
        n.explicit.length = target.axes.length ∧ n.called m = .error fault ∨
        n.explicit.length < target.axes.length ∧ ∃ dates, dates.length = target.axes.length ∧
          (n.supply dates).called m = .error fault) := by
  rw [settle_from, settledFrom] at h
  split at h
  · cases (Prod.mk.inj h).1
  · rename_i target hcall
    refine ⟨target, hcall, ?_⟩
    split at h
    · -- no date is left out
      obtain ⟨hcalled, -⟩ := Prod.mk.inj h
      split at hcalled
      · rename_i hexact
        exact .inr (.inl ⟨hexact, hcalled⟩)
      · cases hcalled
    · rename_i hlt
      have hless : n.explicit.length < target.axes.length := Nat.lt_of_not_le hlt
      dsimp only at h
      split at h
      · exact .inl ⟨hless, (Except.error.inj (Prod.mk.inj h).1).symm⟩
      · rename_i dates hslots
        exact .inr (.inr ⟨hless, dates, (mem_fillSlots hslots).1, (Prod.mk.inj h).1⟩)

/-- **Settling a call fails in these ways only.** -/
theorem raises_of_settle (hn : n.HasReceiver)
    (h : (n.settle m).from ambient = (.error fault, after)) : n.Raises m fault := by
  rcases cases_of_settle_eq_error h with ⟨target, hcall,
    ⟨hless, rfl⟩ | ⟨hexact, hcalled⟩ | ⟨hless, dates, hdates, hcalled⟩⟩
  · exact .missingDate hcall hless
  · obtain ⟨hnone, rfl⟩ := called_eq_error hcalled
    have hlength : n.arguments.length = 1 + target.axes.length := by
      rw [length_arguments hn, hexact]
    rw [hlength] at hnone ⊢
    exact .accessorNotFound hcall (Nat.le_of_eq hexact) hnone
  · obtain ⟨hnone, rfl⟩ := called_eq_error hcalled
    have hlength : (n.supply dates).arguments.length = 1 + target.axes.length := by
      rw [length_arguments (hasReceiver_supply hn dates), explicit_supply hn, hdates]
    rw [hlength] at hnone ⊢
    exact .accessorNotFound hcall (Nat.le_of_lt hless) hnone

/-- What a call raises depends on its arguments through their number. -/
theorem Raises.of_length {arguments : List Expression}
    (hlength : arguments.length = n.arguments.length)
    (h : Raises m { n with arguments } fault) : n.Raises m fault := by
  have hexplicit : arguments.tail.length = n.explicit.length := by
    rw [List.length_tail, hlength, explicit, List.length_tail]
  cases h with
  | missingDate hcall hless => exact .missingDate hcall (hexplicit ▸ hless)
  | accessorNotFound hcall hle hnone => exact .accessorNotFound hcall (hexplicit ▸ hle) hnone

end Navigation

/-! ### One expression, and one body -/

namespace Expression

variable {m : Model}

mutual

/-- **An expression that cannot be dated has a navigation that cannot be settled**, with its
arguments dated. -/
theorem exists_settle_of_dated {e : Expression} {fault : Fault} {ambient after : Ambient}
    (h : (dated m e).from ambient = (.error fault, after)) :
    ∃ n ∈ e.navigations, ∃ arguments before, arguments.length = n.arguments.length ∧
      (Navigation.settle m { n with arguments }).from before = (.error fault, after) := by
  match e with
  | reference n t => cases (Prod.mk.inj h).1
  | literal v t => cases (Prod.mk.inj h).1
  | equal f l r t =>
    rcases Dating.from_map₂_eq_error.1 h with hl | ⟨l', between, -, hr⟩
    · obtain ⟨n, hn, hsettle⟩ := exists_settle_of_dated hl
      exact ⟨n, List.mem_append_left _ hn, hsettle⟩
    · obtain ⟨n, hn, hsettle⟩ := exists_settle_of_dated hr
      exact ⟨n, List.mem_append_right _ hn, hsettle⟩
  | compare f o l r t =>
    rcases Dating.from_map₂_eq_error.1 h with hl | ⟨l', between, -, hr⟩
    · obtain ⟨n, hn, hsettle⟩ := exists_settle_of_dated hl
      exact ⟨n, List.mem_append_left _ hn, hsettle⟩
    · obtain ⟨n, hn, hsettle⟩ := exists_settle_of_dated hr
      exact ⟨n, List.mem_append_right _ hn, hsettle⟩
  | conjunction f os t =>
    exact exists_settle_of_datedAll (Dating.from_map_eq_error.1 h)
  | filter f s b e t =>
    rcases Dating.from_map₂_eq_error.1 h with hs | ⟨s', between, -, he'⟩
    · obtain ⟨n, hn, hsettle⟩ := exists_settle_of_dated hs
      exact ⟨n, List.mem_append_left _ hn, hsettle⟩
    · obtain ⟨n, hn, hsettle⟩ := exists_settle_of_dated he'
      exact ⟨n, List.mem_append_right _ hn, hsettle⟩
  | navigate site as w t =>
    rcases Dating.from_map₂_eq_error.1 h with has | ⟨as', between, has, hn⟩
    · obtain ⟨n, hn, hsettle⟩ := exists_settle_of_datedAll has
      exact ⟨n, List.mem_cons_of_mem _ hn, hsettle⟩
    · -- the call itself, with its arguments dated
      exact ⟨_, List.mem_cons_self, as', between, length_datedAll has, hn⟩

theorem exists_settle_of_datedAll {es : List Expression} {fault : Fault} {ambient after : Ambient}
    (h : (datedAll m es).from ambient = (.error fault, after)) :
    ∃ n ∈ navigationsAll es, ∃ arguments before, arguments.length = n.arguments.length ∧
      (Navigation.settle m { n with arguments }).from before = (.error fault, after) := by
  match es with
  | [] => cases (Prod.mk.inj h).1
  | e :: es =>
    rcases Dating.from_map₂_eq_error.1 h with he | ⟨e', between, -, hes⟩
    · obtain ⟨n, hn, hsettle⟩ := exists_settle_of_dated he
      exact ⟨n, List.mem_append_left _ hn, hsettle⟩
    · obtain ⟨n, hn, hsettle⟩ := exists_settle_of_datedAll hes
      exact ⟨n, List.mem_append_right _ hn, hsettle⟩

end

/-- Where every navigation has a receiver, the one that cannot be settled raises the fault. -/
theorem exists_raises_of_datedAll {es : List Expression} {fault : Fault} {ambient after : Ambient}
    (hes : EverywhereAll Navigation.HasReceiver es)
    (h : (datedAll m es).from ambient = (.error fault, after)) :
    ∃ n ∈ navigationsAll es, n.Raises m fault := by
  obtain ⟨n, hn, arguments, before, hlength, hsettle⟩ := exists_settle_of_datedAll h
  have hreceiver : Navigation.HasReceiver { n with arguments } :=
    (everywhereAll_of_mem_navigationsAll hes hn).of_length hlength
  exact ⟨n, hn, (Navigation.raises_of_settle hreceiver hsettle).of_length hlength⟩

end Expression

/-- The qualified property is no generated one, and a navigation of its body raises the fault in the
model. -/
def QualifiedProperty.Raises (m : Model) (fault : Fault) (q : QualifiedProperty) : Prop :=
  q.isGenerated = false ∧ ∃ n ∈ Expression.navigationsAll q.body, n.Raises m fault

/-- A body that cannot be dated is declared. -/
theorem Model.exists_of_dateBody_eq_error {m : Model} {fault : Fault} {q : QualifiedProperty}
    (h : m.dateBody .builtin q = .error fault) : q.isGenerated = false ∧
      ∃ after, (Expression.datedAll m q.body).from (m.openingDates q) = (.error fault, after) := by
  rw [dateBody_builtin] at h
  split at h
  · cases h
  · rename_i hdeclared
    refine ⟨Bool.eq_false_iff.2 hdeclared, ?_⟩
    rcases hrun : (Expression.datedAll m q.body).from (m.openingDates q) with ⟨fault' | body, after⟩
    · rw [hrun] at h
      obtain rfl := Except.error.inj h
      exact ⟨after, rfl⟩
    · rw [hrun] at h
      cases h

theorem QualifiedProperty.raises_of_dateBody {m : Model} {fault : Fault} {q : QualifiedProperty}
    (hq : q.Received) (h : m.dateBody .builtin q = .error fault) : q.Raises m fault := by
  obtain ⟨hdeclared, after, hrun⟩ := Model.exists_of_dateBody_eq_error h
  exact ⟨hdeclared, Expression.exists_raises_of_datedAll (hq hdeclared) hrun⟩

/-! ### One element -/

namespace Model

variable {m d : Model} {fault : Fault}

theorem exists_of_dateBodies_eq_error {qs : List QualifiedProperty}
    (h : m.dateBodies .builtin qs = .error fault) :
    ∃ q ∈ qs, m.dateBody .builtin q = .error fault := by
  rcases bind_eq_error.1 h with h | ⟨dated, -, h⟩
  · exact exists_of_mapM_eq_error h
  · cases h

theorem exists_of_dateClass_eq_error {c : Class} (hc : m.class? c.path = some c)
    (h : dateClass .builtin m c.path = .error fault) :
    ∃ q ∈ c.qualified, m.dateBody .builtin q = .error fault := by
  rw [dateClass, hc] at h
  rcases bind_eq_error.1 h with h | ⟨⟨qs, changed⟩, -, h⟩
  · exact exists_of_dateBodies_eq_error h
  · dsimp only at h
    split at h <;> cases h

theorem association?_modifyAssociation {a : Association} {f : Association → Association}
    (ha : m.association? a.path = some a) (hf : (f a).path = a.path) :
    (m.modifyAssociation a.path f).association? a.path = some (f a) := by
  obtain ⟨l₁, l₂, hentries⟩ := List.append_of_mem (association?_eq_some_iff.1 ha).1
  have hmiddle : (m.modifyAssociation a.path f).associations.entries = l₁ ++ f a :: l₂ :=
    PathTable.entries_modify_middle hentries hf
  exact association?_eq_some_iff.2 ⟨hmiddle ▸ List.mem_append_cons_self, hf⟩

theorem exists_of_dateAssociation_eq_error {a : Association} (ha : m.association? a.path = some a)
    (h : dateAssociation .builtin m a.path = .error fault) :
    ∃ q ∈ a.qualified, m.dateBody .builtin q = .error fault := by
  rw [dateAssociation, ha] at h
  rcases bind_eq_error.1 h with h | ⟨⟨qs, changed⟩, -, h⟩
  · exact exists_of_dateBodies_eq_error h
  · dsimp only at h
    split at h
    · cases h
    · -- the association is still there, so that its views can be renewed
      have hthere := association?_modifyAssociation (f := fun a => { a with qualified := qs }) ha rfl
      rcases bind_eq_error.1 h with h | ⟨m', -, h⟩
      · rw [renewViews, hthere] at h
        cases h
      · cases h

/-! ### Runs over the elements -/

/-- A model on the way from the prepared to the compiled one, in which bodies are dated. -/
def Midway (m : Model) (filter : RangeFilter) (d : Model) : Prop :=
  ∃ as, m.Forms filter as ∧ (m.prepared filter).Between as d

/-- A body that the model declares raises the fault on the way. -/
def Raises (m : Model) (filter : RangeFilter) (fault : Fault) : Prop :=
  ∃ d, m.Midway filter d ∧ ∃ q ∈ m.declared, q.Raises d fault

variable {filter : RangeFilter} {sourceOf : Property → Option String} {members : Members}

theorem midway_prepared (m : Model) (filter : RangeFilter) : m.Midway filter (m.prepared filter) := by
  refine ⟨[], nofun, [], List.Sublist.refl _, ?_⟩
  exact List.forall₂_same.2 fun c _ => Class.rearranged_renewedAll _ [] c

/-- What is put into a list by milestoning raises nothing. -/
theorem mem_qualified_of_raises {q : QualifiedProperty} (h : q.Raises d fault)
    (hq : q ∈ (m.milestonedMembers filter sourceOf members).qualified) : q ∈ members.qualified := by
  refine (mem_milestonedMembers_qualified hq).resolve_right ?_
  rintro ⟨e, -, hq⟩
  exact Bool.false_ne_true (h.1.symm.trans (of_mem_accessorsOf hq).1)

/-- The run over the classes. -/
theorem raises_of_dateClasses (hreceived : m.Received)
    (h : forEach (dateClass .builtin) (m.prepared filter) (m.prepared filter).classes.paths =
      .error fault) : m.Raises filter fault := by
  obtain ⟨visited, c, rest, m₁, k, hsplit, hrun, hstep⟩ := forEach_eq_error h
  obtain ⟨done, hdone⟩ := datesClasses_of_run hsplit hrun
  have hclass : m₁.class? c.path = some c :=
    class?_path (hdone.after ▸ List.mem_append_cons_self)
  obtain ⟨q, hq, hfault⟩ := exists_of_dateClass_eq_error hclass hstep
  rw [dateBody_congr hdone.sameCalls] at hfault
  have hmem : c ∈ (m.prepared filter).classes.entries :=
    hsplit ▸ List.mem_append_cons_self
  obtain ⟨c₀, hc₀, rfl⟩ := List.mem_map.1 hmem
  rw [Class.renewedAll_qualified] at hq
  have hraises := QualifiedProperty.raises_of_dateBody (hreceived.equipped hc₀ filter q hq) hfault
  have hdeclared := mem_qualified_of_raises hraises hq
  rw [Class.withDates_qualified] at hdeclared
  exact ⟨_, m.midway_prepared filter, q,
    List.mem_append_left _ (List.mem_flatMap.2 ⟨c₀, hc₀, hdeclared⟩), hraises⟩

/-- What a run over the associations has come to is on the way. -/
theorem DatesAssociations.midway {m₁ : Model} {visited done rest : List Association} {k k' : Nat}
    (hd : forEach (dateClass .builtin) (m.prepared filter) (m.prepared filter).classes.paths =
      .ok (d, k))
    (h : d.DatesAssociations visited done rest m₁ k') : m.Midway filter m₁ := by
  obtain ⟨hassociations, hclasses, -⟩ := dateClasses_eq_ok hd
  refine ⟨Association.changed visited done, ?_, ?_⟩
  · intro b hb
    obtain ⟨⟨a, b'⟩, hzip, rfl⟩ := List.mem_map.1 hb
    obtain ⟨n, -, hredated, hdates⟩ :=
      (List.forall₂_iff_zip.1 h.redated).2 (List.mem_filter.1 hzip).1
    have ha : a ∈ (m.prepared filter).associations.entries := by
      rw [← hassociations, h.before]
      exact List.mem_append_left _ (List.of_mem_zip (List.mem_filter.1 hzip).1).1
    obtain ⟨a₀, ha₀, rfl⟩ := List.mem_map.1 ha
    exact ⟨a₀, ha₀, hredated, hdates.headers⟩
  · obtain ⟨bs, hbs, hbetween⟩ := h.between
    have hframe : d.frame = (m.prepared filter).frame :=
      map_eq_of_forall₂ hclasses Class.Redated.frame
    exact ⟨bs, hbs, forall₂_comp hclasses hbetween fun h h' => h.rearranged hframe h'⟩

/-- The run over the associations. -/
theorem raises_of_dateAssociations (hreceived : m.Received) {k : Nat}
    (hd : forEach (dateClass .builtin) (m.prepared filter) (m.prepared filter).classes.paths =
      .ok (d, k))
    (h : forEach (dateAssociation .builtin) d d.associations.paths = .error fault) :
    m.Raises filter fault := by
  obtain ⟨visited, a, rest, m₁, k', hsplit, hrun, hstep⟩ := forEach_eq_error h
  obtain ⟨done, hdone⟩ := datesAssociations_of_run hsplit hrun
  have hassociation : m₁.association? a.path = some a :=
    association?_path (hdone.after ▸ List.mem_append_cons_self)
  obtain ⟨q, hq, hfault⟩ := exists_of_dateAssociation_eq_error hassociation hstep
  have hmem : a ∈ (m.prepared filter).associations.entries := by
    rw [← (dateClasses_eq_ok hd).1, hsplit]
    exact List.mem_append_cons_self
  obtain ⟨a₀, ha₀, rfl⟩ := List.mem_map.1 hmem
  have hraises := QualifiedProperty.raises_of_dateBody (hreceived.milestoned ha₀ filter q hq) hfault
  have hdeclared := mem_qualified_of_raises hraises hq
  exact ⟨m₁, hdone.midway hd, q,
    List.mem_append_right _ (List.mem_flatMap.2 ⟨a₀, ha₀, hdeclared⟩), hraises⟩

/-! ### A compilation -/

/-- How a compilation of a model can fail. -/
inductive Fails (m : Model) (settings : Settings) : Fault → Prop
  /-- Under the strict setting, at a class that declares several shapes. -/
  | conflictingShapes {c : Class} (hc : c ∈ m.classes.entries)
      (hstrict : settings.strictShapes = true) (hseveral : 1 < c.shapes.length) :
      Fails m settings (.conflictingShapes c.path c.shapes c.span)
  /-- At a navigation of a body that is declared. -/
  | raised {fault : Fault} (h : m.Raises settings.rangeFilter fault) : Fails m settings fault

/-- The classification fails at a class with several shapes. -/
theorem exists_of_classify_eq_error {strict : Bool} (h : m.classify strict = .error fault) :
    ∃ c ∈ m.classes.entries, strict = true ∧ 1 < c.shapes.length ∧
      fault = .conflictingShapes c.path c.shapes c.span := by
  rcases bind_eq_error.1 h with h | ⟨shapes, -, h⟩
  · obtain ⟨c, hc, h⟩ := exists_of_mapM_eq_error h
    rcases bind_eq_error.1 h with h | ⟨shape, -, h⟩
    · exact ⟨c, hc, c.shapeChecked_eq_error_iff.1 h⟩
    · cases h
  · cases h

/-- **A compilation fails in these ways only.** -/
theorem fails_of_compile_eq_error {settings : Settings} (hreceived : m.Received)
    (h : m.compile .builtin settings = .error fault) : m.Fails settings fault := by
  rcases compile_eq_error_iff.1 h with h | ⟨-, h | ⟨d, k, hd, h⟩⟩
  · obtain ⟨c, hc, hstrict, hseveral, rfl⟩ := exists_of_classify_eq_error h
    exact .conflictingShapes hc hstrict hseveral
  · exact .raised (raises_of_dateClasses hreceived h)
  · exact .raised (raises_of_dateAssociations hreceived hd h)

end Model

end Bitemporal
