/-
Bitemporal/Proofs/Settled.lean

Expressions that dating leaves alone.

An expression is *settled* in a model if each of its navigations has a
receiver and either is no call of a date accessor, or supplies more dates than
that takes, or supplies exactly its dates and names it by arity.  Settled
expressions are the fixed points of dating, whatever dates are in force
(`dated_of_settled`, `settled_of_dated_self`), and dating leads to them: if the
dates in force are settled, so is what comes out, and so are the dates in force
after it (`settled_dated`, `dated_fixed_points`).

For bodies this says that a compilation leaves alone exactly the settled ones
(`dateBody_self_iff`).
-/
import Bitemporal.Expression.Text
import Bitemporal.Proofs.Bodies
import Bitemporal.Proofs.Origins

namespace Bitemporal

/-! ### Settled expressions -/

/-- A navigation that has a receiver and, if it calls a date accessor, is beyond that or is the very
call that takes its dates. -/
def Navigation.Settled (m : Model) (n : Navigation) : Prop :=
  n.HasReceiver ∧ ∀ target, m.callShape? n.owner n.property = some target →
    target.axes.length < n.explicit.length ∨
      n.explicit.length = target.axes.length ∧
        n.access = .qualified (UInt64.ofNat n.arguments.length) ∧
          m.takes n.owner n.property n.arguments.length = true

instance (m : Model) : DecidablePred (Navigation.Settled m) := fun n =>
  match h : m.callShape? n.owner n.property with
  | none => decidable_of_iff n.HasReceiver (by simp [Navigation.Settled, h])
  | some target =>
    decidable_of_iff (n.HasReceiver ∧ (target.axes.length < n.explicit.length ∨
      n.explicit.length = target.axes.length ∧
        n.access = .qualified (UInt64.ofNat n.arguments.length) ∧
          m.takes n.owner n.property n.arguments.length = true)) (by simp [Navigation.Settled, h])

namespace Navigation

variable {m : Model} {n n' : Navigation} {ambient after : Ambient}

/-- What settling gives is settled. -/
theorem Settles.settled (hn : n.HasReceiver) (h : Settles m n ambient n' after) : n'.Settled m := by
  refine ⟨h.hasReceiver hn, ?_⟩
  cases h with
  | plain hcall =>
    intro target htarget
    rw [hcall] at htarget
    cases htarget
  | overfull hcall hmore =>
    intro target htarget
    rw [hcall] at htarget
    obtain rfl := Option.some.inj htarget
    exact .inl hmore
  | exact hcall hexact htakes =>
    intro target htarget
    have hsame := hcall.symm.trans htarget
    obtain rfl := Option.some.inj hsame
    exact .inr ⟨hexact, rfl, htakes⟩
  | filled hcall hless hlength hwritten horigin htakes =>
    intro target htarget
    have hsame := hcall.symm.trans htarget
    obtain rfl := Option.some.inj hsame
    refine .inr ⟨?_, rfl, htakes⟩
    exact (congrArg List.length (explicit_supply hn _)).trans hlength

/-- A call that gets no more arguments keeps those it has. -/
theorem Settles.arguments_eq (hn : n.HasReceiver) (h : Settles m n ambient n' after)
    (hlength : n'.arguments.length = n.arguments.length) : n'.arguments = n.arguments := by
  cases h with
  | plain => rfl
  | overfull => rfl
  | exact => rfl
  | filled hcall hless hdates hwritten horigin htakes =>
    rename_i target dates
    have hfull : (n.supply dates).arguments.length = n.arguments.length := hlength
    rw [length_arguments (hasReceiver_supply hn dates), explicit_supply hn,
      length_arguments hn] at hfull
    omega

/-- Settling a settled call changes nothing. -/
theorem settle_of_settled (h : n.Settled m) (ambient : Ambient) :
    ∃ after, (n.settle m).from ambient = (.ok n, after) := by
  rw [settle_from, settledFrom]
  rcases hcall : m.callShape? n.owner n.property with - | target
  · exact ⟨ambient, rfl⟩
  · refine ⟨ambient.recordSupplied target n.explicit, ?_⟩
    dsimp only
    rcases h.2 target hcall with hmore | ⟨hexact, haccess, htakes⟩
    · rw [if_pos (by omega), if_neg (by omega)]
    · have hself : n.retargeted = n := by
        rw [retargeted, ← haccess]
      rw [if_pos (by omega), if_pos hexact, called, if_pos htakes, hself]

end Navigation

namespace Expression

/-- Every navigation is settled. -/
abbrev Settled (m : Model) (e : Expression) : Prop :=
  e.Everywhere (Navigation.Settled m)

variable {m : Model}

/-- **Dating leads to settled expressions.** -/
theorem settled_dated {e e' : Expression} {ambient after : Ambient} (he : e.Received)
    (ha : ambient.All (Settled m)) (h : (dated m e).from ambient = (.ok e', after)) :
    e'.Settled m ∧ after.All (Settled m) :=
  dated_everywhere Navigation.Settles.settled he ha h

theorem settledAll_datedAll {es es' : List Expression} {ambient after : Ambient}
    (he : EverywhereAll Navigation.HasReceiver es) (ha : ambient.All (Settled m))
    (h : (datedAll m es).from ambient = (.ok es', after)) :
    EverywhereAll (Navigation.Settled m) es' ∧ after.All (Settled m) :=
  datedAll_everywhere Navigation.Settles.settled he ha h

mutual

/-- **Dating leaves settled expressions alone**, whatever dates are in force. -/
theorem dated_of_settled {e : Expression} (he : e.Settled m) (ambient : Ambient) :
    ∃ after, (dated m e).from ambient = (.ok e, after) := by
  match e with
  | reference n t => exact ⟨ambient, rfl⟩
  | literal v t => exact ⟨ambient, rfl⟩
  | equal f l r t =>
    obtain ⟨between, hl⟩ := dated_of_settled he.1 ambient
    obtain ⟨after, hr⟩ := dated_of_settled he.2 between
    exact ⟨after, dated_equal_eq_ok.2 ⟨l, r, between, hl, hr, rfl⟩⟩
  | compare f o l r t =>
    obtain ⟨between, hl⟩ := dated_of_settled he.1 ambient
    obtain ⟨after, hr⟩ := dated_of_settled he.2 between
    exact ⟨after, dated_compare_eq_ok.2 ⟨l, r, between, hl, hr, rfl⟩⟩
  | conjunction f os t =>
    obtain ⟨after, hos⟩ := datedAll_of_settled he ambient
    exact ⟨after, dated_conjunction_eq_ok.2 ⟨os, hos, rfl⟩⟩
  | filter f s b e t =>
    obtain ⟨between, hs⟩ := dated_of_settled he.1 ambient
    obtain ⟨after, he⟩ := dated_of_settled he.2 between
    exact ⟨after, dated_filter_eq_ok.2 ⟨s, e, between, hs, he, rfl⟩⟩
  | navigate site as w t =>
    obtain ⟨between, has⟩ := datedAll_of_settled he.2 ambient
    obtain ⟨after, hn⟩ := Navigation.settle_of_settled he.1 between
    exact ⟨after, dated_navigate_eq_ok.2 ⟨as, _, between, has, hn, rfl⟩⟩

theorem datedAll_of_settled {es : List Expression} (he : EverywhereAll (Navigation.Settled m) es)
    (ambient : Ambient) : ∃ after, (datedAll m es).from ambient = (.ok es, after) := by
  match es with
  | [] => exact ⟨ambient, rfl⟩
  | e :: es =>
    obtain ⟨between, he'⟩ := dated_of_settled he.1 ambient
    obtain ⟨after, hes⟩ := datedAll_of_settled he.2 between
    exact ⟨after, datedAll_cons_eq_ok.2 ⟨e, es, between, he', hes, rfl⟩⟩

end

mutual

/-- An expression that dating gives back, from whatever dates in force, is settled. -/
theorem settled_of_dated_self {e : Expression} {ambient after : Ambient} (he : e.Received)
    (h : (dated m e).from ambient = (.ok e, after)) : e.Settled m := by
  match e with
  | reference n t => trivial
  | literal v t => trivial
  | equal f l r t =>
    obtain ⟨l', r', between, hl, hr, hself⟩ := dated_equal_eq_ok.1 h
    obtain ⟨-, rfl, rfl, -⟩ := Expression.equal.inj hself
    exact ⟨settled_of_dated_self he.1 hl, settled_of_dated_self he.2 hr⟩
  | compare f o l r t =>
    obtain ⟨l', r', between, hl, hr, hself⟩ := dated_compare_eq_ok.1 h
    obtain ⟨-, -, rfl, rfl, -⟩ := Expression.compare.inj hself
    exact ⟨settled_of_dated_self he.1 hl, settled_of_dated_self he.2 hr⟩
  | conjunction f os t =>
    obtain ⟨os', hos, hself⟩ := dated_conjunction_eq_ok.1 h
    obtain ⟨-, rfl, -⟩ := Expression.conjunction.inj hself
    exact settledAll_of_datedAll_self he hos
  | filter f s b e t =>
    obtain ⟨s', e', between, hs, he', hself⟩ := dated_filter_eq_ok.1 h
    obtain ⟨-, rfl, -, rfl, -⟩ := Expression.filter.inj hself
    exact ⟨settled_of_dated_self he.1 hs, settled_of_dated_self he.2 he'⟩
  | navigate site as w t =>
    obtain ⟨as', n', between, has, hn, hself⟩ := dated_navigate_eq_ok.1 h
    obtain ⟨hsite, hargs, hwritten, -⟩ := Expression.navigate.inj hself
    have hsettles := Navigation.settles_of_settle hn
    have hlength := length_datedAll has
    have hreceiver : Navigation.HasReceiver { toSite := site, arguments := as', written := w } :=
      he.1.of_length hlength
    -- no argument was added, so that the arguments were given back as well
    have hsame := hsettles.arguments_eq hreceiver (by rw [← hargs]; exact hlength.symm)
    obtain rfl : as' = as := hsame.symm.trans hargs.symm
    have hn' : n' = { toSite := site, arguments := as', written := w } := by
      obtain ⟨site', arguments', written'⟩ := n'
      obtain rfl := hsite
      obtain rfl := hargs
      obtain rfl := hwritten
      rfl
    exact ⟨hn' ▸ hsettles.settled hreceiver, settledAll_of_datedAll_self he.2 has⟩

theorem settledAll_of_datedAll_self {es : List Expression} {ambient after : Ambient}
    (he : EverywhereAll Navigation.HasReceiver es)
    (h : (datedAll m es).from ambient = (.ok es, after)) :
    EverywhereAll (Navigation.Settled m) es := by
  match es with
  | [] => trivial
  | e :: es =>
    obtain ⟨e', es', between, he', hes', hself⟩ := datedAll_cons_eq_ok.1 h
    obtain ⟨rfl, rfl⟩ := List.cons.inj hself
    exact ⟨settled_of_dated_self he.1 he', settledAll_of_datedAll_self he.2 hes'⟩

end

/-- **Dating reaches a fixed point in one pass.**  What comes out of settled dates in force is settled,
with settled dates in force at the end, and is given back when it is dated again; settled expressions
are given back from whatever dates in force; and an expression with receivers that is given back from
any is settled. -/
theorem dated_fixed_points (m : Model) :
    (∀ (e e' : Expression) (ambient after : Ambient), e.Received → ambient.All (Settled m) →
      (dated m e).from ambient = (.ok e', after) →
        e'.Settled m ∧ after.All (Settled m) ∧
          ∀ ambient', ∃ after', (dated m e').from ambient' = (.ok e', after')) ∧
    (∀ e : Expression, e.Settled m → ∀ ambient, ∃ after, (dated m e).from ambient = (.ok e, after)) ∧
    ∀ (e : Expression) (ambient after : Ambient), e.Received →
      (dated m e).from ambient = (.ok e, after) → e.Settled m := by
  refine ⟨?_, fun e he ambient => dated_of_settled he ambient, ?_⟩
  · intro e e' ambient after he ha h
    obtain ⟨he', hafter⟩ := settled_dated he ha h
    exact ⟨he', hafter, fun ambient' => dated_of_settled he' ambient'⟩
  · intro e ambient after he h
    exact settled_of_dated_self he h

/-- A run whose outcome shows as a text has succeeded. -/
theorem exists_dated_of_text {e : Expression} {ambient after : Ambient} {shown : String}
    (h : ((dated m e).from ambient).map (fun r => r.toOption.map text) id = (some shown, after)) :
    ∃ e', (dated m e).from ambient = (.ok e', after) ∧ e'.text = shown := by
  rcases hrun : (dated m e).from ambient with ⟨fault | e', after'⟩
  · rw [hrun] at h
    cases (Prod.mk.inj h).1
  · rw [hrun] at h
    obtain ⟨htext, rfl⟩ := Prod.mk.inj h
    exact ⟨e', rfl, Option.some.inj htext⟩

/-- A model in which a class has an edge to itself, as it is when its bodies are dated. -/
def succession : Model :=
  (Model.ofDocument {
    classes := [
      { path := "m::K"
        stereotypes := [.resolved temporalProfile Shape.business.name]
        properties := [
          { name := "next", type := .ofClass "m::K", multiplicity := .zeroOne
            owner := .ofClass "m::K" }] }] }).prepared .startEquality

/-- The edge taken twice: first with a date, then without. -/
def nextButOne : Expression :=
  let next (receiver : Expression) (dates : List Expression) : Expression :=
    (Navigation.plain "m::K" "next" receiver dates).toExpression ⟨.ofClass "m::K", .zeroOne⟩
  next (next (.reference "this" ⟨.ofClass "m::K", .one⟩) [date "2020-01-01"]) []

/-- The second call gets the date of the first.  The outcome stays as it is, while no dates in force
keep the expression itself as it was. -/
theorem nextButOne_dated_once : ∃ e' after, (dated succession nextButOne).from {} = (.ok e', after) ∧
    e'.text = "$this.next(%2020-01-01).next(%2020-01-01)" ∧
      (∀ ambient after', (dated succession nextButOne).from ambient ≠ (.ok nextButOne, after')) ∧
        e'.Settled succession ∧ after.All (Settled succession) ∧
          ∀ ambient', ∃ after', (dated succession e').from ambient' = (.ok e', after') := by
  obtain ⟨hlead, hkeep, honly⟩ := dated_fixed_points succession
  have hreceived : nextButOne.Received := by decide +kernel
  have hopen : ¬ nextButOne.Settled succession := by decide +kernel
  have htext : ((dated succession nextButOne).from {}).1.toOption.map text =
      some "$this.next(%2020-01-01).next(%2020-01-01)" := by
    decide +kernel
  rcases hrun : (dated succession nextButOne).from {} with ⟨fault | e', after⟩
  · rw [hrun] at htext
    cases htext
  · rw [hrun] at htext
    obtain ⟨hsettled, hafter, -⟩ := hlead _ _ _ _ hreceived Ambient.all_empty hrun
    refine ⟨e', after, rfl, Option.some.inj htext, ?_, hsettled, hafter, hkeep e' hsettled⟩
    intro ambient after' hself
    exact hopen (honly _ _ _ hreceived hself)

end Expression

/-! ### Settled bodies -/

namespace Model

variable {m : Model}

theorem mem_of_resolve? {t : TypeRef} {c : Class} (h : m.resolve? t = some c) :
    c ∈ m.classes.entries := by
  cases t with
  | primitive _ => cases h
  | ofClass p => exact (class?_eq_some_iff.1 h).1
  | abbreviated p =>
    rw [resolve?] at h
    rcases hclass : m.class? p with - | c'
    · rw [hclass] at h
      exact List.mem_of_find?_eq_some h
    · rw [hclass] at h
      obtain rfl := Option.some.inj h
      exact (class?_eq_some_iff.1 hclass).1

/-- The dates at the start of a body are read off its receiver. -/
theorem openingDates_all {X : Expression → Prop} (q : QualifiedProperty)
    (h : ∀ this ∈ q.signature.parameters.head?, ∀ c ∈ m.classes.entries, ∀ axis : Axis,
      X ((Navigation.plain c.path axis.name this.reference []).toExpression .date)) :
    (m.openingDates q).All X := by
  rw [openingDates]
  split
  · exact Ambient.all_empty
  · rename_i this hthis
    split
    · exact Ambient.all_empty
    · rename_i path shape hreceiver
      obtain ⟨c, hc, hshape⟩ := Option.bind_eq_some_iff.1 hreceiver
      obtain ⟨shape', -, he⟩ := Option.map_eq_some_iff.1 hshape
      obtain ⟨rfl, rfl⟩ := Prod.mk.inj he
      refine Ambient.all_empty.enter fun date hdate => ?_
      obtain ⟨axis, -, rfl⟩ := List.mem_map.1 hdate
      exact h this hthis c (mem_of_resolve? hc) axis

theorem openingDates_received (q : QualifiedProperty) :
    (m.openingDates q).All Expression.Received :=
  openingDates_all q fun _ _ _ _ _ => ⟨List.cons_ne_nil _ _, trivial, trivial⟩

end Model

namespace QualifiedProperty

/-- Every navigation in the body has a receiver, unless the body was generated. -/
def Received (q : QualifiedProperty) : Prop :=
  q.isGenerated = false → Expression.EverywhereAll Navigation.HasReceiver q.body

/-- Every navigation in the body is settled, unless the body was generated. -/
def Settled (m : Model) (q : QualifiedProperty) : Prop :=
  q.isGenerated = false → Expression.EverywhereAll (Navigation.Settled m) q.body

instance : DecidablePred Received := fun _ => inferInstanceAs (Decidable (_ → _))

instance (m : Model) : DecidablePred (Settled m) := fun _ => inferInstanceAs (Decidable (_ → _))

variable {m : Model} {q q' : QualifiedProperty}

/-- The body of a dated qualified property is what dating made of it. -/
theorem body_of_dateBody (h : m.dateBody .builtin q = .ok q') (hq : q.isGenerated = false) :
    ∃ after, (Expression.datedAll m q.body).from (m.openingDates q) = (.ok q'.body, after) := by
  rw [Model.dateBody_builtin, hq] at h
  rcases hrun : (Expression.datedAll m q.body).from (m.openingDates q) with ⟨fault | body, after⟩
  · rw [hrun] at h
    cases h
  · rw [hrun] at h
    obtain rfl := Except.ok.inj h
    exact ⟨after, rfl⟩

theorem isGenerated_of_dateBody (h : m.dateBody .builtin q = .ok q') :
    q'.isGenerated = q.isGenerated := by
  have hheader := congrArg isGenerated (Model.header_dateBody h)
  exact hheader

theorem Received.dateBody (hq : q.Received) (h : m.dateBody .builtin q = .ok q') : q'.Received := by
  intro hgenerated
  rw [isGenerated_of_dateBody h] at hgenerated
  obtain ⟨after, hbody⟩ := body_of_dateBody h hgenerated
  exact (Expression.receivedAll_datedAll (hq hgenerated) (m.openingDates_received q) hbody).1

/-- **Dating keeps exactly the settled bodies.** -/
theorem dateBody_self_iff (hq : q.Received) : m.dateBody .builtin q = .ok q ↔ q.Settled m := by
  constructor
  · intro h hgenerated
    obtain ⟨after, hbody⟩ := body_of_dateBody h hgenerated
    exact Expression.settledAll_of_datedAll_self (hq hgenerated) hbody
  · intro h
    rw [Model.dateBody_builtin]
    split
    · rfl
    · rename_i hgenerated
      obtain ⟨after, hbody⟩ :=
        Expression.datedAll_of_settled (h (by simpa using hgenerated)) (m.openingDates q)
      rw [hbody]
      rfl

end QualifiedProperty

namespace Model

variable {m : Model} {qs qs' : List QualifiedProperty}

theorem fixes_iff (h : ∀ q ∈ qs, q.Received) : m.Fixes qs ↔ ∀ q ∈ qs, q.Settled m :=
  forall₂_congr fun q hq => QualifiedProperty.dateBody_self_iff (h q hq)

theorem Dates.received (h : m.Dates qs qs') (hqs : ∀ q ∈ qs, q.Received) : ∀ q ∈ qs', q.Received := by
  intro q' hq'
  obtain ⟨q, hq, hdate⟩ := exists_of_forall₂_right h hq'
  exact (hqs q hq).dateBody hdate

end Model

end Bitemporal
