/-
Bitemporal/Proofs/Closures.lean

The names that filters take from outside without listing them.

A filter lists the names that its body takes from outside.  Dating keeps the
list as it is while it puts dates into the body, so that a variable of such a
date can be missing from the list.  A filter whose body mentions a name that is
neither listed nor the filter's own variable *leaves it open*
(`Expression.LeavesOpen`).

Dates are put into a body only from the dates in force and from calls that are
given dates.  A name that is in none of them is left open only where it was,
by one call (`Navigation.Settles.all`) and by a run (`Expression.dated_closed`).
For a compilation this says which names the filters of declared bodies can
come to leave open, while those of generated accessors leave none
(`Model.given_of_leavesOpen`).
-/
import Bitemporal.Proofs.Scope

namespace Bitemporal

theorem Ambient.all_not_of_not_or {X Y : Expression → Prop} {a : Ambient}
    (h : ¬ ∃ axis, ∃ date ∈ a.date? axis, X date ∨ Y date) :
    (a.All fun date => ¬ X date) ∧ a.All fun date => ¬ Y date := by
  have hall := all_not_of_not_exists h
  exact ⟨fun axis date hdate hX => hall axis date hdate (.inl hX),
    fun axis date hdate hY => hall axis date hdate (.inr hY)⟩

namespace Expression

/-! ### Leaving a name open -/

mutual

/-- A filter of the expression leaves a name open: its body mentions the name, which is neither that
of its own variable nor listed among those from outside. -/
def LeavesOpen (x : String) : Expression → Prop
  | reference _ _ => False
  | literal _ _ => False
  | equal _ l r _ => LeavesOpen x l ∨ LeavesOpen x r
  | compare _ _ l r _ => LeavesOpen x l ∨ LeavesOpen x r
  | conjunction _ os _ => LeavesOpenAny x os
  | filter _ s b e _ =>
    LeavesOpen x s ∨ LeavesOpen x e ∨ e.Mentions x ∧ x ≠ b.parameter.name ∧ x ∉ b.openVariables
  | navigate _ as _ _ => LeavesOpenAny x as

/-- A filter of an expression of the list leaves a name open. -/
def LeavesOpenAny (x : String) : List Expression → Prop
  | [] => False
  | e :: es => LeavesOpen x e ∨ LeavesOpenAny x es

end

section Decidability

variable (x : String)

mutual

/-- Whether a name is left open can be decided. -/
def decideLeavesOpen : (e : Expression) → Decidable (e.LeavesOpen x)
  | reference _ _ => .isFalse id
  | literal _ _ => .isFalse id
  | equal _ l r _ => @instDecidableOr _ _ (decideLeavesOpen l) (decideLeavesOpen r)
  | compare _ _ l r _ => @instDecidableOr _ _ (decideLeavesOpen l) (decideLeavesOpen r)
  | conjunction _ os _ => decideLeavesOpenAny os
  | filter _ s _ e _ =>
    @instDecidableOr _ _ (decideLeavesOpen s)
      (@instDecidableOr _ _ (decideLeavesOpen e) inferInstance)
  | navigate _ as _ _ => decideLeavesOpenAny as

/-- The same for a list. -/
def decideLeavesOpenAny : (es : List Expression) → Decidable (LeavesOpenAny x es)
  | [] => .isFalse id
  | e :: es => @instDecidableOr _ _ (decideLeavesOpen e) (decideLeavesOpenAny es)

end

instance : DecidablePred (LeavesOpen x) := decideLeavesOpen x

end Decidability

variable {m : Model} {x : String}

theorem leavesOpenAny_iff {es : List Expression} :
    LeavesOpenAny x es ↔ ∃ e ∈ es, e.LeavesOpen x := by
  induction es with
  | nil => simp [LeavesOpenAny]
  | cons e es ih => simp [LeavesOpenAny, ih]

/-- What a navigation is called with leaves no more names open than it does. -/
theorem hereditary_not_leavesOpen : Hereditary fun e => ¬ e.LeavesOpen x := by
  intro e n hn he a ha hx
  cases e with
  | navigate site as w t =>
    obtain rfl := Option.some.inj hn
    exact he (leavesOpenAny_iff.2 ⟨a, ha, hx⟩)
  | _ => cases hn

/-! ### A run -/

mutual

/-- **A name that no call is given a date with is left open only where it was**, if the dates in
force neither mention it nor leave it open. -/
theorem dated_closed {e e' : Expression} {ambient after : Ambient} (he : e.Silent m x)
    (hclosed : ¬ e.LeavesOpen x) (ha : ambient.All fun date => ¬ date.Mentions x)
    (ho : ambient.All fun date => ¬ date.LeavesOpen x)
    (h : (dated m e).from ambient = (.ok e', after)) :
    ¬ e'.LeavesOpen x ∧ after.All fun date => ¬ date.LeavesOpen x := by
  match e with
  | reference n t =>
    obtain ⟨rfl, rfl⟩ := Dating.from_pure_eq_ok.1 h
    exact ⟨hclosed, ho⟩
  | literal v t =>
    obtain ⟨rfl, rfl⟩ := Dating.from_pure_eq_ok.1 h
    exact ⟨hclosed, ho⟩
  | equal f l r t =>
    obtain ⟨l', r', between, hl, hr, rfl⟩ := dated_equal_eq_ok.1 h
    obtain ⟨hclosedLeft, hclosedRight⟩ := not_or.1 hclosed
    obtain ⟨-, hbetween⟩ := dated_silent he.1 ha hl
    obtain ⟨hl', hopen⟩ := dated_closed he.1 hclosedLeft ha ho hl
    obtain ⟨hr', hafter⟩ := dated_closed he.2 hclosedRight hbetween hopen hr
    exact ⟨not_or.2 ⟨hl', hr'⟩, hafter⟩
  | compare f o l r t =>
    obtain ⟨l', r', between, hl, hr, rfl⟩ := dated_compare_eq_ok.1 h
    obtain ⟨hclosedLeft, hclosedRight⟩ := not_or.1 hclosed
    obtain ⟨-, hbetween⟩ := dated_silent he.1 ha hl
    obtain ⟨hl', hopen⟩ := dated_closed he.1 hclosedLeft ha ho hl
    obtain ⟨hr', hafter⟩ := dated_closed he.2 hclosedRight hbetween hopen hr
    exact ⟨not_or.2 ⟨hl', hr'⟩, hafter⟩
  | conjunction f os t =>
    obtain ⟨os', hos, rfl⟩ := dated_conjunction_eq_ok.1 h
    exact datedAll_closed he hclosed ha ho hos
  | filter f s b e t =>
    obtain ⟨s', e', between, hs, he', rfl⟩ := dated_filter_eq_ok.1 h
    obtain ⟨hclosedSource, hclosedBody⟩ := not_or.1 hclosed
    obtain ⟨hclosedBody, hlisted⟩ := not_or.1 hclosedBody
    obtain ⟨-, hbetween⟩ := dated_silent he.1 ha hs
    obtain ⟨hs', hopen⟩ := dated_closed he.1 hclosedSource ha ho hs
    obtain ⟨hbody, hafter⟩ := dated_closed he.2 hclosedBody hbetween hopen he'
    -- the list is kept, and the body mentions the name no more than it did
    have hkeeps := (dated_silent he.2 hbetween he').1
    refine ⟨?_, hafter⟩
    rintro (hx | hx | ⟨hmentions, hunlisted⟩)
    · exact hs' hx
    · exact hbody hx
    · exact hlisted ⟨hkeeps.mentions hmentions, hunlisted⟩
  | navigate site as w t =>
    obtain ⟨as', n', between, has, hn, rfl⟩ := dated_navigate_eq_ok.1 h
    obtain ⟨has', hopen⟩ := datedAll_closed he.2 hclosed ha ho has
    have hargs : ∀ a ∈ as', ¬ a.LeavesOpen x := fun a hmem hx => has' (leavesOpenAny_iff.2 ⟨a, hmem, hx⟩)
    obtain ⟨hn', hafter⟩ :=
      (Navigation.settles_of_settle hn).all hereditary_not_leavesOpen hargs hopen
    refine ⟨fun hx => ?_, hafter⟩
    obtain ⟨a, hmem, hx⟩ := leavesOpenAny_iff.1 hx
    exact hn' a hmem hx

theorem datedAll_closed {es es' : List Expression} {ambient after : Ambient}
    (he : EverywhereAll (fun n => ¬ n.Gives m x) es) (hclosed : ¬ LeavesOpenAny x es)
    (ha : ambient.All fun date => ¬ date.Mentions x)
    (ho : ambient.All fun date => ¬ date.LeavesOpen x)
    (h : (datedAll m es).from ambient = (.ok es', after)) :
    ¬ LeavesOpenAny x es' ∧ after.All fun date => ¬ date.LeavesOpen x := by
  match es with
  | [] =>
    obtain ⟨rfl, rfl⟩ := Dating.from_pure_eq_ok.1 h
    exact ⟨hclosed, ho⟩
  | e :: es =>
    obtain ⟨e', es', between, he', hes', rfl⟩ := datedAll_cons_eq_ok.1 h
    obtain ⟨hclosedHead, hclosedTail⟩ := not_or.1 hclosed
    obtain ⟨-, hbetween⟩ := dated_silent he.1 ha he'
    obtain ⟨hhead, hopen⟩ := dated_closed he.1 hclosedHead ha ho he'
    obtain ⟨htail, hafter⟩ := datedAll_closed he.2 hclosedTail hbetween hopen hes'
    exact ⟨not_or.2 ⟨hhead, htail⟩, hafter⟩

end

/-- **What a dated expression leaves open** was left open before, or is mentioned or left open by a
date in force at the start, or is mentioned by a date that a call is given. -/
theorem leavesOpen_of_dated {e e' : Expression} {ambient after : Ambient}
    (h : (dated m e).from ambient = (.ok e', after)) (hx : e'.LeavesOpen x) :
    e.LeavesOpen x ∨ (∃ axis, ∃ date ∈ ambient.date? axis, date.Mentions x ∨ date.LeavesOpen x) ∨
      ¬ e.Silent m x := by
  by_contra hnot
  obtain ⟨hclosed, hnot⟩ := not_or.1 hnot
  obtain ⟨hambient, hsilent⟩ := not_or.1 hnot
  obtain ⟨ha, ho⟩ := Ambient.all_not_of_not_or hambient
  exact (dated_closed (not_not.1 hsilent) hclosed ha ho h).1 hx

theorem leavesOpenAny_of_datedAll {es es' : List Expression} {ambient after : Ambient}
    (h : (datedAll m es).from ambient = (.ok es', after)) (hx : LeavesOpenAny x es') :
    LeavesOpenAny x es ∨
      (∃ axis, ∃ date ∈ ambient.date? axis, date.Mentions x ∨ date.LeavesOpen x) ∨
        ¬ EverywhereAll (fun n => ¬ n.Gives m x) es := by
  by_contra hnot
  obtain ⟨hclosed, hnot⟩ := not_or.1 hnot
  obtain ⟨hambient, hsilent⟩ := not_or.1 hnot
  obtain ⟨ha, ho⟩ := Ambient.all_not_of_not_or hambient
  exact (datedAll_closed (not_not.1 hsilent) hclosed ha ho h).1 hx

end Expression

/-! ### Generated accessors -/

namespace Edge

variable {e : Edge} {form : AccessorForm} {x : String}

/-- A condition has no filters, and mentions the version it looks at and the accessor's dates only. -/
theorem closed_of_mem_conditionsOf {condition : Expression} (h : condition ∈ e.conditionsOf form) :
    ¬ condition.LeavesOpen x ∧
      (condition.Mentions x → x = Naming.version ∨ x ∈ (e.datesOf form).map (·.name)) := by
  have hclosed : ∀ axis, ¬ (e.versionDateOf axis).LeavesOpen x := by
    rintro axis (hx | hx)
    · exact hx
    · exact hx
  have hversion : ∀ axis, (e.versionDateOf axis).Mentions x → x = Naming.version := by
    rintro axis (hx | hx)
    · exact hx.symm
    · cases hx
  have hname : ∀ date ∈ e.datesOf form, date.reference.Mentions x →
      x ∈ (e.datesOf form).map (·.name) :=
    fun date hdate hx => List.mem_map.2 ⟨date, hdate, hx⟩
  obtain ⟨axis, -, date, hdate, rfl | rfl | rfl⟩ := mem_conditionsOf h
  · exact ⟨not_or.2 ⟨hclosed axis, id⟩, Or.imp (hversion axis) (hname date hdate)⟩
  · exact ⟨not_or.2 ⟨id, hclosed axis⟩, fun hx => hx.symm.imp (hversion axis) (hname date hdate)⟩
  · exact ⟨not_or.2 ⟨hclosed axis, id⟩, Or.imp (hversion axis) (hname date hdate)⟩

theorem closed_predicateOf : ¬ (e.predicateOf form).LeavesOpen x ∧
    ((e.predicateOf form).Mentions x → x = Naming.version ∨ x ∈ (e.datesOf form).map (·.name)) := by
  rw [predicateOf, conjunctionOf.eq_def]
  split
  · rename_i condition hconditions
    exact closed_of_mem_conditionsOf (hconditions ▸ List.mem_cons_self)
  · constructor
    · intro hx
      obtain ⟨condition, hcondition, hx⟩ := Expression.leavesOpenAny_iff.1 hx
      exact (closed_of_mem_conditionsOf hcondition).1 hx
    · intro hx
      obtain ⟨condition, hcondition, hx⟩ := Expression.mentionsAny_iff.1 hx
      exact (closed_of_mem_conditionsOf hcondition).2 hx

/-- **The filter of a generated accessor leaves no name open.** -/
theorem not_leavesOpen_bodyOf : ¬ (e.bodyOf form).LeavesOpen x := by
  rintro ((hx | hx) | hx | ⟨hmentions, hparameter, hunlisted⟩)
  · exact hx
  · exact hx
  · exact closed_predicateOf.1 hx
  · rcases closed_predicateOf.2 hmentions with hversion | hdate
    · exact hparameter hversion
    · apply hunlisted
      refine List.mem_cons_of_mem _ (List.mem_filter.2 ⟨hdate, ?_⟩)
      exact List.contains_iff_mem.2 (Expression.mem_freeVariables.2 hmentions)

end Edge

/-! ### Bodies -/

/-- What dating a qualified property keeps to: its header stays, and each name that its body leaves
open was left open before, or names the receiver, or is in a date that a call of the body before is
given. -/
structure QualifiedProperty.Encloses (m : Model) (q q' : QualifiedProperty) : Prop where
  header : q'.header = q.header
  leavesOpen : ∀ x, Expression.LeavesOpenAny x q'.body →
    Expression.LeavesOpenAny x q.body ∨ x ∈ q.signature.parameters.head?.map (·.name) ∨
      ¬ Expression.EverywhereAll (fun n => ¬ n.Gives m x) q.body

namespace Model

variable {m : Model}

theorem encloses_of_dateBody {q q' : QualifiedProperty} (h : m.dateBody .builtin q = .ok q') :
    q.Encloses m q' := by
  refine ⟨header_dateBody h, ?_⟩
  intro x hx
  rcases hgenerated : q.isGenerated with - | -
  · obtain ⟨after, hbody⟩ := QualifiedProperty.body_of_dateBody h hgenerated
    rcases Expression.leavesOpenAny_of_datedAll hbody hx with hopen | ⟨axis, date, hdate, hx⟩ | hgives
    · exact .inl hopen
    · -- the dates at the start of a body have no filters
      have hnone : (m.openingDates q).All fun date => ¬ date.LeavesOpen x := by
        apply openingDates_all
        rintro this - c - axis (hx | hx)
        · exact hx
        · exact hx
      rcases hx with hmentions | hopen
      · exact .inr (.inl (openingDates_all_mentions q axis date hdate hmentions))
      · exact (hnone axis date hdate hopen).elim
    · exact .inr (.inr hgives)
  · -- a generated accessor keeps its body
    rw [dateBody_of_isGenerated hgenerated] at h
    obtain rfl := Except.ok.inj h
    exact .inl hx

/-- What becomes of the qualified properties of an element: those it declares enclose what they did,
and those generated for it leave no name open. -/
def EnclosesAll (m : Model) (qs qs' : List QualifiedProperty) : Prop :=
  List.Forall₂ (QualifiedProperty.Encloses m) qs (qs'.take qs.length) ∧
    ∀ q' ∈ qs'.drop qs.length, ∀ x, ¬ Expression.LeavesOpenAny x q'.body

theorem Dates.enclosesAll {filter : RangeFilter} {edges : List Edge} {keys : List (String × Nat)}
    {d : Model} {qs qs' : List QualifiedProperty}
    (h : d.Dates (qs ++ news QualifiedProperty.key keys (edges.flatMap (m.accessorsOf filter))) qs') :
    d.EnclosesAll qs qs' := by
  constructor
  · have htake := List.forall₂_take qs.length h
    rw [List.take_left] at htake
    exact htake.imp fun _ _ => encloses_of_dateBody
  · intro q' hq' x hx
    have hdrop := List.forall₂_drop qs.length h
    rw [List.drop_left] at hdrop
    obtain ⟨q, hq, hdate⟩ := exists_of_forall₂_right hdrop hq'
    obtain ⟨e, -, hq⟩ := List.mem_flatMap.1 (mem_of_mem_news hq).1
    obtain ⟨form, -, rfl⟩ := mem_accessorsOf.1 hq
    -- dating leaves a generated accessor alone
    rw [dateBody_of_isGenerated (e.isGenerated_accessorOf form)] at hdate
    obtain rfl := Except.ok.inj hdate
    exact hx.elim Edge.not_leavesOpen_bodyOf id

/-- **A name that a filter comes to leave open is a variable of a date that was given.**  What a dated
expression leaves open was left open before, or is free in or left open by a date in force at the
start, or is free in a date that a call of the expression is given; the bodies of a compiled model
leave open what they did, their receiver, and variables of dates that they give; and the accessors
that a compilation generates leave no name open. -/
theorem given_of_leavesOpen (m : Model) :
    (∀ (e e' : Expression) (ambient after : Ambient), (e.dated m).from ambient = (.ok e', after) →
      ∀ x, e'.LeavesOpen x → e.LeavesOpen x ∨
        (∃ axis, ∃ date ∈ ambient.date? axis, x ∈ date.freeVariables ∨ date.LeavesOpen x) ∨
          ¬ e.Silent m x) ∧
    ∀ (settings : Settings) (report : Report) (m' : Model),
      m.compile .builtin settings = .ok (report, m') →
        (∀ c ∈ m.classes.entries, ∃ c', m'.class? c.path = some c' ∧
          (m.prepared settings.rangeFilter).EnclosesAll c.qualified c'.qualified) ∧
        ∀ a ∈ m.associations.entries, ∃ a', m'.association? a.path = some a' ∧
          ∃ n, (m.prepared settings.rangeFilter).Between
              (m.changedAssociations settings.rangeFilter m') n ∧
            n.EnclosesAll a.qualified a'.qualified := by
  constructor
  · intro e e' ambient after h x hx
    simp only [Expression.mem_freeVariables]
    exact Expression.leavesOpen_of_dated h hx
  · intro settings report m' hcompile
    have h := compiles_of_compile hcompile
    constructor
    · intro c hc
      obtain ⟨c', hc', hcompiled⟩ := exists_of_forall₂_left h.forall₂_classes hc
      have hdates := hcompiled.dates
      rw [equipped_qualified] at hdates
      exact ⟨c', hcompiled.path ▸ class?_path hc', hdates.enclosesAll⟩
    · intro a ha
      obtain ⟨a', ha', hcompiled⟩ := exists_of_forall₂_left h.forall₂_associations ha
      obtain ⟨n, hn, hdates⟩ := hcompiled.dates
      have hqualified : (a.milestoned m settings.rangeFilter).qualified = a.qualified ++ _ :=
        milestonedMembers_qualified
      rw [hqualified] at hdates
      exact ⟨a', hcompiled.path ▸ association?_path ha', n, hn, hdates.enclosesAll⟩

end Model

namespace Expression

/-- All versions of the next object on a date `d`, of which those are kept that come before `this`:
the filter's body leaves out the date of its call. -/
def preceding : Expression :=
  let this : Variable := { name := "this", type := .ofClass "m::K", multiplicity := .one }
  let version : Variable := { this with name := "v" }
  let next : Typing := ⟨.ofClass "m::K", .zeroOne⟩
  let truth : Typing := ⟨.primitive .boolean, .one⟩
  let dated := (Navigation.plain "m::K" "next" this.reference [(Variable.date "d").reference]).toExpression next
  .filter ⟨"filter", "filter"⟩
    ((Navigation.plain "m::K" "nextAllVersions" dated []).toExpression ⟨.ofClass "m::K", .zeroMany⟩)
    { parameter := version, openVariables := ["this"]
      signature := { parameters := [version], result := truth } }
    (.equal ⟨"eq", "eq"⟩ ((Navigation.plain "m::K" "next" version.reference []).toExpression next)
      this.reference truth)
    ⟨.ofClass "m::K", .zeroMany⟩

/-- The filter lists what its body takes from outside.  Its call is given the date `d` of the source,
which the list then lacks. -/
theorem preceding_leavesOpen : ∃ e' after,
    (dated succession preceding).from {} = (.ok e', after) ∧ (∀ x, ¬ preceding.LeavesOpen x) ∧
      e'.text = "$this.next($d).nextAllVersions->filter(v|$v.next($d) == $this)" ∧
        e'.LeavesOpen "d" ∧ ¬ preceding.Silent succession "d" := by
  have hclosed : ∀ x, ¬ preceding.LeavesOpen x := by
    rintro x (((hx | hx | hx) | hx) | ((hx | hx) | hx) | ⟨(hx | hx) | hx, hparameter, hunlisted⟩)
    any_goals exact hx
    · exact hparameter hx.symm
    · exact hunlisted (hx ▸ List.mem_cons_self)
  -- the outcome is looked at once
  have houtcome : ((dated succession preceding).from {}).1.toOption.any (fun e' =>
      e'.text == "$this.next($d).nextAllVersions->filter(v|$v.next($d) == $this)" &&
        decide (e'.LeavesOpen "d")) = true := by
    decide +kernel
  rcases hrun : (dated succession preceding).from {} with ⟨fault | e', after⟩
  · rw [hrun] at houtcome
    cases houtcome
  · rw [hrun] at houtcome
    obtain ⟨htext, hopen⟩ := (Bool.and_eq_true _ _).mp houtcome
    have hopen := of_decide_eq_true hopen
    refine ⟨e', after, rfl, hclosed, eq_of_beq htext, hopen, ?_⟩
    rcases (Model.given_of_leavesOpen succession).1 _ _ _ _ hrun "d" hopen with
      hbefore | ⟨axis, date, hdate, -⟩ | hgives
    · exact (hclosed "d" hbefore).elim
    · exact (Ambient.all_empty (X := fun _ => False) axis date hdate).elim
    · exact hgives

end Expression

end Bitemporal
