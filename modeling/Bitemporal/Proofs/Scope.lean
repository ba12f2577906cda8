/-
Bitemporal/Proofs/Scope.lean

Where the variables of a dated expression come from.

The dates in force are kept from one call to the next, into the body of a
filter and out of it again.  A date that is given to a call there and in which
the variable of the filter is free remains in force behind the filter, where
nothing binds that variable.  Such a filter *lends* its variable
(`Expression.Lends`).

That is the only way in which a variable escapes: a name that no call is given
a date with is not put in force, at one call (`Navigation.Settles.silent`) or
in a run (`Expression.dated_silent`), and so every free variable of a dated
expression is free in what it was made of, free in a date in force at the
start, or lent (`Expression.mentions_of_dated`).

For a compilation this bounds the variables of every declared body
(`Model.lent_of_escapes`).
-/
import Bitemporal.Proofs.Recompilation
import Bitemporal.Proofs.Variables

namespace Bitemporal

/-! ### Calls that are given dates with a name -/

/-- A call is given a date in which a name is free.  Only as many arguments are dates as the target
has axes. -/
def Navigation.Gives (m : Model) (x : String) (n : Navigation) : Prop :=
  ∃ target ∈ m.callShape? n.owner n.property,
    Expression.MentionsAny x (n.explicit.take target.axes.length)

instance (m : Model) (x : String) : DecidablePred (Navigation.Gives m x) :=
  fun _ => inferInstanceAs (Decidable (∃ _ ∈ _, _))

namespace Expression

/-- No call of the expression, under whatever filter, is given a date in which a name is free. -/
abbrev Silent (m : Model) (x : String) (e : Expression) : Prop :=
  e.Everywhere fun n => ¬ n.Gives m x

mutual

/-- A filter of the expression lends its variable: a call in its body is given a date in which that
is free. -/
def Lends (m : Model) (x : String) : Expression → Prop
  | reference _ _ => False
  | literal _ _ => False
  | equal _ l r _ => Lends m x l ∨ Lends m x r
  | compare _ _ l r _ => Lends m x l ∨ Lends m x r
  | conjunction _ os _ => LendsAny m x os
  | filter _ s b e _ => Lends m x s ∨ Lends m x e ∨ b.parameter.name = x ∧ ¬ e.Silent m x
  | navigate _ as _ _ => LendsAny m x as

/-- A filter of an expression of the list lends its variable. -/
def LendsAny (m : Model) (x : String) : List Expression → Prop
  | [] => False
  | e :: es => Lends m x e ∨ LendsAny m x es

end

theorem lendsAny_iff {m : Model} {x : String} {es : List Expression} :
    LendsAny m x es ↔ ∃ e ∈ es, e.Lends m x := by
  induction es with
  | nil => simp [LendsAny]
  | cons e es ih => simp [LendsAny, ih]

mutual

/-- A name that is neither free nor lent is in no date that a call is given. -/
theorem silent_of_not_mentions {m : Model} {x : String} {e : Expression} (hfree : ¬ e.Mentions x)
    (hlends : ¬ e.Lends m x) : e.Silent m x := by
  match e with
  | reference n t => trivial
  | literal v t => trivial
  | equal f l r t =>
    obtain ⟨hl, hr⟩ := not_or.1 hfree
    obtain ⟨hl', hr'⟩ := not_or.1 hlends
    exact ⟨silent_of_not_mentions hl hl', silent_of_not_mentions hr hr'⟩
  | compare f o l r t =>
    obtain ⟨hl, hr⟩ := not_or.1 hfree
    obtain ⟨hl', hr'⟩ := not_or.1 hlends
    exact ⟨silent_of_not_mentions hl hl', silent_of_not_mentions hr hr'⟩
  | conjunction f os t => exact silentAll_of_not_mentions hfree hlends
  | filter f s b e t =>
    obtain ⟨hs, he⟩ := not_or.1 hfree
    obtain ⟨hs', he'⟩ := not_or.1 hlends
    obtain ⟨he', hparameter⟩ := not_or.1 he'
    refine ⟨silent_of_not_mentions hs hs', ?_⟩
    -- the body may mention its own parameter, but then that is not lent
    by_cases hname : b.parameter.name = x
    · by_contra hgives
      exact hparameter ⟨hname, hgives⟩
    · exact silent_of_not_mentions (fun h => he ⟨hname, h⟩) he'
  | navigate site as w t =>
    refine ⟨?_, silentAll_of_not_mentions hfree hlends⟩
    rintro ⟨target, -, hgives⟩
    obtain ⟨date, hdate, hx⟩ := mentionsAny_iff.1 hgives
    exact hfree (mentionsAny_iff.2 ⟨date, List.mem_of_mem_tail (List.mem_of_mem_take hdate), hx⟩)

theorem silentAll_of_not_mentions {m : Model} {x : String} {es : List Expression}
    (hfree : ¬ MentionsAny x es) (hlends : ¬ LendsAny m x es) :
    EverywhereAll (fun n => ¬ n.Gives m x) es := by
  match es with
  | [] => trivial
  | e :: es =>
    obtain ⟨he, hes⟩ := not_or.1 hfree
    obtain ⟨he', hes'⟩ := not_or.1 hlends
    exact ⟨silent_of_not_mentions he he', silentAll_of_not_mentions hes hes'⟩

end

/-- An expression that, as a receiver, binds no date in which a name is free. -/
def Bare (m : Model) (x : String) (e : Expression) : Prop :=
  ∀ r, e.navigation? = some r → ∀ axis date, (axis, date) ∈ r.boundDates m → ¬ date.Mentions x

/-- What dating has made of an expression mentions a name only if that did, and binds no date with
it. -/
structure Keeps (m : Model) (x : String) (e e' : Expression) : Prop where
  mentions : e'.Mentions x → e.Mentions x
  bare : e'.Bare m x

theorem bare_of_not_navigation {m : Model} {x : String} {e : Expression} (h : e.navigation? = none) :
    e.Bare m x := by
  intro r hr
  rw [h] at hr
  cases hr

theorem mentionsAny_of_forall₂ {m : Model} {x : String} {es es' : List Expression}
    (h : List.Forall₂ (Keeps m x) es es') (hx : MentionsAny x es') : MentionsAny x es := by
  obtain ⟨e', he', hx⟩ := mentionsAny_iff.1 hx
  obtain ⟨e, he, hkeeps⟩ := exists_of_forall₂_right h he'
  exact mentionsAny_iff.2 ⟨e, he, hkeeps.mentions hx⟩

end Expression

/-! ### One call -/

namespace Ambient

variable {X : Expression → Prop} {a : Ambient}

theorem all_not_of_not_exists (h : ¬ ∃ axis, ∃ date ∈ a.date? axis, X date) :
    a.All fun date => ¬ X date :=
  fun axis date hdate hX => h ⟨axis, date, hdate, hX⟩

/-- Only the dates for the axes of a shape are put in force. -/
theorem All.enter_take (h : a.All X) {shape : Shape} {dates : List Expression}
    (hd : ∀ date ∈ dates.take shape.axes.length, X date) : (a.enter shape dates).All X := by
  have hzip : shape.axes.zip dates = shape.axes.zip (dates.take shape.axes.length) :=
    calc shape.axes.zip dates
      _ = (shape.axes.zip dates).take shape.axes.length := by
        rw [List.take_of_length_le]
        rw [List.length_zip]
        exact Nat.min_le_left _ _
      _ = (shape.axes.take shape.axes.length).zip (dates.take shape.axes.length) :=
        List.take_zipWith
      _ = shape.axes.zip (dates.take shape.axes.length) := by rw [List.take_length]
  rw [Ambient.enter, hzip, ← Ambient.enter]
  exact h.enter hd

theorem All.recordSupplied_take (h : a.All X) {shape : Shape} {dates : List Expression}
    (hd : ∀ date ∈ dates.take shape.axes.length, X date) : (a.recordSupplied shape dates).All X := by
  rw [Ambient.recordSupplied]
  split
  · exact h.enter_take hd
  · exact h

end Ambient

namespace Navigation

variable {m : Model} {x : String} {n n' : Navigation} {ambient after : Ambient}

theorem explicit_supply_subset (n : Navigation) (dates : List Expression) :
    (n.supply dates).explicit ⊆ dates := by
  show (n.arguments.take 1 ++ dates).tail ⊆ dates
  rcases n.arguments with - | ⟨receiver, rest⟩
  · exact (List.tail_sublist dates).subset
  · exact List.Subset.refl _

theorem not_mentions_of_not_gives (hgives : ¬ n.Gives m x) {target : Shape}
    (hcall : m.callShape? n.owner n.property = some target) :
    ∀ date ∈ n.explicit.take target.axes.length, ¬ date.Mentions x := by
  intro date hdate hx
  apply hgives
  exact ⟨target, hcall, Expression.mentionsAny_iff.2 ⟨date, hdate, hx⟩⟩

/-- A call that is given no date with a name binds none, as a receiver. -/
theorem not_mentions_of_mem_boundDates (hgives : ¬ n.Gives m x) {axis : Axis} {date : Expression}
    (h : (axis, date) ∈ n.boundDates m) : ¬ date.Mentions x := by
  obtain ⟨target, hcall, hlength, hdate⟩ := of_mem_boundDates h
  apply not_mentions_of_not_gives hgives hcall
  rwa [← hlength, List.take_length]

/-- **A call that is given no date with a name passes none on**: neither to itself nor to what
follows it, provided that none is in force and that its receiver binds none. -/
theorem Settles.silent (h : Settles m n ambient n' after) (hgives : ¬ n.Gives m x)
    (hbare : ∀ e ∈ n.receiver?, e.Bare m x) (ha : ambient.All fun date => ¬ date.Mentions x) :
    (Expression.MentionsAny x n'.arguments → Expression.MentionsAny x n.arguments) ∧
      ¬ n'.Gives m x ∧ after.All fun date => ¬ date.Mentions x := by
  cases h with
  | plain hcall => exact ⟨id, hgives, ha⟩
  | overfull hcall hmore =>
    exact ⟨id, hgives, ha.recordSupplied_take (not_mentions_of_not_gives hgives hcall)⟩
  | exact hcall hexact htakes =>
    exact ⟨id, hgives, ha.recordSupplied_take (not_mentions_of_not_gives hgives hcall)⟩
  | filled hcall hless hlength hwritten horigin htakes =>
    rename_i target dates
    have hexplicit : ∀ date ∈ n.explicit, ¬ date.Mentions x := by
      have hall := not_mentions_of_not_gives hgives hcall
      rwa [List.take_of_length_le (Nat.le_of_lt hless)] at hall
    have hbound : ∀ axis date, (n.receiverDates m).lookup axis = some date → ¬ date.Mentions x := by
      intro axis date hd
      obtain ⟨e, he, r, hr, hdate⟩ := receiver_of_receiverDates hd
      exact hbare e he r hr axis date hdate
    have hannounced : (announce ambient (m.shapeAt? n.owner) target n.explicit).All
        fun date => ¬ date.Mentions x := ha.announce hexplicit
    have hdates := all_of_origin horigin hexplicit hbound hannounced
    refine ⟨?_, ?_, hannounced.enter hdates⟩
    · -- the receiver stays, and the dates do not mention the name
      intro hx
      obtain ⟨e, he, hx⟩ := Expression.mentionsAny_iff.1 hx
      rcases List.mem_append.1 he with he | he
      · exact Expression.mentionsAny_iff.2 ⟨e, List.mem_of_mem_take he, hx⟩
      · exact (hdates e he hx).elim
    · rintro ⟨target', -, hx⟩
      obtain ⟨date, hdate, hx⟩ := Expression.mentionsAny_iff.1 hx
      exact hdates date (n.explicit_supply_subset dates (List.mem_of_mem_take hdate)) hx

end Navigation

/-! ### A run -/

namespace Expression

variable {m : Model} {x : String}

mutual

/-- **A name that no call is given a date with is not spread**: if none of the dates in force
mentions it, then it is free only where it was, and is in no date in force at the end. -/
theorem dated_silent {e e' : Expression} {ambient after : Ambient} (he : e.Silent m x)
    (ha : ambient.All fun date => ¬ date.Mentions x) (h : (dated m e).from ambient = (.ok e', after)) :
    Keeps m x e e' ∧ after.All fun date => ¬ date.Mentions x := by
  match e with
  | reference n t =>
    obtain ⟨rfl, rfl⟩ := Dating.from_pure_eq_ok.1 h
    exact ⟨⟨id, bare_of_not_navigation rfl⟩, ha⟩
  | literal v t =>
    obtain ⟨rfl, rfl⟩ := Dating.from_pure_eq_ok.1 h
    exact ⟨⟨id, bare_of_not_navigation rfl⟩, ha⟩
  | equal f l r t =>
    obtain ⟨l', r', between, hl, hr, rfl⟩ := dated_equal_eq_ok.1 h
    obtain ⟨hl', hbetween⟩ := dated_silent he.1 ha hl
    obtain ⟨hr', hafter⟩ := dated_silent he.2 hbetween hr
    exact ⟨⟨Or.imp hl'.mentions hr'.mentions, bare_of_not_navigation rfl⟩, hafter⟩
  | compare f o l r t =>
    obtain ⟨l', r', between, hl, hr, rfl⟩ := dated_compare_eq_ok.1 h
    obtain ⟨hl', hbetween⟩ := dated_silent he.1 ha hl
    obtain ⟨hr', hafter⟩ := dated_silent he.2 hbetween hr
    exact ⟨⟨Or.imp hl'.mentions hr'.mentions, bare_of_not_navigation rfl⟩, hafter⟩
  | conjunction f os t =>
    obtain ⟨os', hos, rfl⟩ := dated_conjunction_eq_ok.1 h
    obtain ⟨hos', hafter⟩ := datedAll_silent he ha hos
    exact ⟨⟨mentionsAny_of_forall₂ hos', bare_of_not_navigation rfl⟩, hafter⟩
  | filter f s b e t =>
    obtain ⟨s', e', between, hs, he', rfl⟩ := dated_filter_eq_ok.1 h
    obtain ⟨hs', hbetween⟩ := dated_silent he.1 ha hs
    obtain ⟨he', hafter⟩ := dated_silent he.2 hbetween he'
    exact ⟨⟨Or.imp hs'.mentions (And.imp_right he'.mentions), bare_of_not_navigation rfl⟩, hafter⟩
  | navigate site as w t =>
    obtain ⟨as', n', between, has, hn, rfl⟩ := dated_navigate_eq_ok.1 h
    obtain ⟨has', hbetween⟩ := datedAll_silent he.2 ha has
    -- the dated arguments mention the name no more than those that were written
    have hgives : ¬ Navigation.Gives m x { toSite := site, arguments := as', written := w } := by
      rintro ⟨target, hcall, hx⟩
      have hexplicit : List.Forall₂ (Keeps m x) as.tail as'.tail := by
        simpa only [List.drop_one] using List.forall₂_drop 1 has'
      exact he.1 ⟨target, hcall, mentionsAny_of_forall₂ (List.forall₂_take _ hexplicit) hx⟩
    have hbare : ∀ e ∈ as'.head?, e.Bare m x := by
      intro e' he'
      obtain ⟨e, -, hkeeps⟩ := exists_of_forall₂_right has' (List.mem_of_mem_head? he')
      exact hkeeps.bare
    obtain ⟨hmentions, hgives', hafter⟩ :=
      (Navigation.settles_of_settle hn).silent hgives hbare hbetween
    refine ⟨⟨fun hx => mentionsAny_of_forall₂ has' (hmentions hx), ?_⟩, hafter⟩
    intro r hr axis date hdate
    obtain rfl := Option.some.inj hr
    exact Navigation.not_mentions_of_mem_boundDates hgives' hdate

theorem datedAll_silent {es es' : List Expression} {ambient after : Ambient}
    (he : EverywhereAll (fun n => ¬ n.Gives m x) es) (ha : ambient.All fun date => ¬ date.Mentions x)
    (h : (datedAll m es).from ambient = (.ok es', after)) :
    List.Forall₂ (Keeps m x) es es' ∧ after.All fun date => ¬ date.Mentions x := by
  match es with
  | [] =>
    obtain ⟨rfl, rfl⟩ := Dating.from_pure_eq_ok.1 h
    exact ⟨.nil, ha⟩
  | e :: es =>
    obtain ⟨e', es', between, he', hes', rfl⟩ := datedAll_cons_eq_ok.1 h
    obtain ⟨hkeeps, hbetween⟩ := dated_silent he.1 ha he'
    obtain ⟨hkeepsAll, hafter⟩ := datedAll_silent he.2 hbetween hes'
    exact ⟨.cons hkeeps hkeepsAll, hafter⟩

end

/-- **Every free variable of a dated expression** is free in what it was made of, free in a date in
force at the start, or lent by a filter. -/
theorem mentions_of_dated {e e' : Expression} {ambient after : Ambient}
    (h : (dated m e).from ambient = (.ok e', after)) (hx : e'.Mentions x) :
    e.Mentions x ∨ (∃ axis, ∃ date ∈ ambient.date? axis, date.Mentions x) ∨ e.Lends m x := by
  by_contra hnot
  obtain ⟨hfree, hnot⟩ := not_or.1 hnot
  obtain ⟨hambient, hlends⟩ := not_or.1 hnot
  have ha := Ambient.all_not_of_not_exists hambient
  exact hfree ((dated_silent (silent_of_not_mentions hfree hlends) ha h).1.mentions hx)

theorem mentionsAny_of_datedAll {es es' : List Expression} {ambient after : Ambient}
    (h : (datedAll m es).from ambient = (.ok es', after)) (hx : MentionsAny x es') :
    MentionsAny x es ∨ (∃ axis, ∃ date ∈ ambient.date? axis, date.Mentions x) ∨ LendsAny m x es := by
  by_contra hnot
  obtain ⟨hfree, hnot⟩ := not_or.1 hnot
  obtain ⟨hambient, hlends⟩ := not_or.1 hnot
  have ha := Ambient.all_not_of_not_exists hambient
  exact hfree (mentionsAny_of_forall₂ (datedAll_silent (silentAll_of_not_mentions hfree hlends) ha h).1 hx)

end Expression

/-! ### Bodies -/

/-- What dating a qualified property keeps to: its header stays, and each free variable of its body
is free in the body before, or names the receiver, or is lent by a filter of the body before. -/
structure QualifiedProperty.Confined (m : Model) (q q' : QualifiedProperty) : Prop where
  header : q'.header = q.header
  free : ∀ e' ∈ q'.body, ∀ x ∈ e'.freeVariables,
    (∃ e ∈ q.body, x ∈ e.freeVariables) ∨ x ∈ q.signature.parameters.head?.map (·.name) ∨
      ∃ e ∈ q.body, e.Lends m x

namespace Model

variable {m : Model} {x : String}

/-- The dates at the start of a body mention the receiver only. -/
theorem openingDates_all_mentions (q : QualifiedProperty) : (m.openingDates q).All fun date =>
    date.Mentions x → x ∈ q.signature.parameters.head?.map (·.name) := by
  apply openingDates_all
  rintro this hthis c - axis (hx | hx)
  · rw [Option.mem_def.1 hthis]
    exact congrArg some hx
  · cases hx

theorem confined_of_dateBody {q q' : QualifiedProperty} (h : m.dateBody .builtin q = .ok q') :
    q.Confined m q' := by
  refine ⟨header_dateBody h, ?_⟩
  intro e' he' x hx
  rcases hgenerated : q.isGenerated with - | -
  · obtain ⟨after, hbody⟩ := QualifiedProperty.body_of_dateBody h hgenerated
    have hany := Expression.mentionsAny_iff.2 ⟨e', he', Expression.mem_freeVariables.1 hx⟩
    rcases Expression.mentionsAny_of_datedAll hbody hany with hfree | ⟨axis, date, hdate, hx⟩ | hlends
    · obtain ⟨e, he, hx⟩ := Expression.mentionsAny_iff.1 hfree
      exact .inl ⟨e, he, Expression.mem_freeVariables.2 hx⟩
    · exact .inr (.inl (openingDates_all_mentions q axis date hdate hx))
    · exact .inr (.inr (Expression.lendsAny_iff.1 hlends))
  · -- a generated accessor keeps its body
    rw [dateBody_of_isGenerated hgenerated] at h
    obtain rfl := Except.ok.inj h
    exact .inl ⟨e', he', hx⟩

/-- What becomes of the first of a list of qualified properties. -/
theorem Dates.confined {qs new qs' : List QualifiedProperty} (h : m.Dates (qs ++ new) qs') :
    List.Forall₂ (QualifiedProperty.Confined m) qs (qs'.take qs.length) := by
  have htake := List.forall₂_take qs.length h
  rw [List.take_left] at htake
  exact htake.imp fun _ _ => confined_of_dateBody

/-- **A variable that escapes from its scope is lent.**  Every free variable of a dated expression is
free in what it was made of, or in one of the dates in force at the start, unless a filter lends it;
and the bodies of a compiled model keep to their own free variables and to the receiver, save for what
their filters lend. -/
theorem lent_of_escapes (m : Model) :
    (∀ (e e' : Expression) (ambient after : Ambient), (e.dated m).from ambient = (.ok e', after) →
      ∀ x ∈ e'.freeVariables, x ∈ e.freeVariables ∨
        (∃ axis, ∃ date ∈ ambient.date? axis, x ∈ date.freeVariables) ∨ e.Lends m x) ∧
    ∀ (settings : Settings) (report : Report) (m' : Model),
      m.compile .builtin settings = .ok (report, m') →
        (∀ c ∈ m.classes.entries, ∃ c', m'.class? c.path = some c' ∧
          List.Forall₂ (QualifiedProperty.Confined (m.prepared settings.rangeFilter)) c.qualified
            (c'.qualified.take c.qualified.length)) ∧
        ∀ a ∈ m.associations.entries, ∃ a', m'.association? a.path = some a' ∧
          ∃ n, (m.prepared settings.rangeFilter).Between
              (m.changedAssociations settings.rangeFilter m') n ∧
            List.Forall₂ (QualifiedProperty.Confined n) a.qualified
              (a'.qualified.take a.qualified.length) := by
  constructor
  · intro e e' ambient after h x hx
    simp only [Expression.mem_freeVariables] at hx ⊢
    exact Expression.mentions_of_dated h hx
  · intro settings report m' hcompile
    have h := compiles_of_compile hcompile
    constructor
    · intro c hc
      obtain ⟨c', hc', hcompiled⟩ := exists_of_forall₂_left h.forall₂_classes hc
      have hdates := hcompiled.dates
      rw [equipped_qualified] at hdates
      exact ⟨c', hcompiled.path ▸ class?_path hc', hdates.confined⟩
    · intro a ha
      obtain ⟨a', ha', hcompiled⟩ := exists_of_forall₂_left h.forall₂_associations ha
      obtain ⟨n, hn, hdates⟩ := hcompiled.dates
      have hqualified : (a.milestoned m settings.rangeFilter).qualified = a.qualified ++ _ :=
        milestonedMembers_qualified
      rw [hqualified] at hdates
      exact ⟨a', hcompiled.path ▸ association?_path ha', n, hn, hdates.confined⟩

/-- A body of two expressions.  The first filters all versions by a call that is given a date of the
filtered version; the second leaves its date out. -/
def following : QualifiedProperty :=
  let this : Variable := { name := "this", type := .ofClass "m::K", multiplicity := .one }
  let version : Variable := { this with name := "v" }
  let next : Typing := ⟨.ofClass "m::K", .zeroOne⟩
  let versions := (Navigation.plain "m::K" "nextAllVersions" this.reference []).toExpression next
  let signed := (Navigation.plain "m::K" "signed" version.reference []).toExpression .date
  { name := "following", type := .ofClass "m::K", multiplicity := .zeroOne, owner := .ofClass "m::K"
    signature := { parameters := [this], result := next }
    body := [
      .filter ⟨"filter", "filter"⟩ versions
        { parameter := version, openVariables := ["this"]
          signature := { parameters := [version], result := ⟨.primitive .boolean, .one⟩ } }
        (.equal ⟨"eq", "eq"⟩
          ((Navigation.plain "m::K" "next" version.reference [signed]).toExpression next)
          this.reference ⟨.primitive .boolean, .one⟩)
        next,
      (Navigation.plain "m::K" "next" this.reference []).toExpression next] }

/-- A class with an edge to itself, a date of its own and that body. -/
def lendingClass : Class where
  path := "m::K"
  stereotypes := [.resolved temporalProfile Shape.business.name]
  properties := [
    { name := "next", type := .ofClass "m::K", multiplicity := .zeroOne, owner := .ofClass "m::K" },
    { Typing.date with name := "signed", owner := .ofClass "m::K" }]
  qualified := [following]

def lending : Model :=
  ofDocument { classes := [lendingClass] }

/-- The body refers to its receiver only, and the compiled one refers to the variable of the filter
where nothing binds it. -/
theorem following_escapes :
    (lending.compile .builtin {}).toBool = true ∧ ∀ report m', lending.compile .builtin {} =
      .ok (report, m') → ∃ c', m'.class? "m::K" = some c' ∧ ∃ q' ∈ c'.qualified,
        q'.header = following.header ∧ (∀ e ∈ following.body, e.freeVariables = ["this"]) ∧
          (∃ e' ∈ q'.body, "v" ∈ e'.freeVariables) ∧
            ∃ e ∈ following.body, e.Lends (lending.prepared .startEquality) "v" := by
  refine ⟨by decide +kernel, fun report m' hcompile => ?_⟩
  obtain ⟨c', hc', hconfined⟩ :=
    ((lent_of_escapes lending).2 {} report m' hcompile).1 lendingClass (by decide +kernel)
  obtain ⟨q', qs, hq', -, htake⟩ := List.forall₂_cons_left_iff.1 hconfined
  have hmem : q' ∈ c'.qualified := List.mem_of_mem_take (htake ▸ List.mem_cons_self)
  have hclosed : ∀ e ∈ following.body, e.freeVariables = ["this"] := by decide +kernel
  -- the compiled body is looked at once
  have hescapes : ((lending.compile .builtin {}).toOption.any fun result =>
      (result.2.class? "m::K").any fun c' => (c'.qualified.take lendingClass.qualified.length).all
        fun q' => q'.body.any fun e' => decide ("v" ∈ e'.freeVariables)) = true := by
    decide +kernel
  have hv : ∃ e' ∈ q'.body, "v" ∈ e'.freeVariables := by
    rw [hcompile] at hescapes
    change (m'.class? lendingClass.path).any _ = true at hescapes
    rw [hc', Option.any_some, htake, List.all_cons, Bool.and_eq_true] at hescapes
    simpa using hescapes.1
  refine ⟨c', hc', q', hmem, hq'.header, hclosed, hv, ?_⟩
  obtain ⟨e', he', hx⟩ := hv
  rcases hq'.free e' he' "v" hx with ⟨e, he, hx⟩ | hreceiver | hlends
  · rw [hclosed e he] at hx
    exact absurd hx (by decide)
  · exact absurd hreceiver (by decide)
  · exact hlends

end Model

end Bitemporal
