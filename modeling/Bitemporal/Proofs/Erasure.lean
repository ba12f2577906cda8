/-
Bitemporal/Proofs/Erasure.lean

What dating adds to an expression, and how to take it away again.

Where a call is given dates, its arguments as they stood are kept beside them,
and which accessor it calls is decided.  Erasing an expression puts the kept
arguments back and makes every call one of a plain property.  The expressions
that erasing leaves alone are those without either (`erased_eq_self_iff`).

Dating changes nothing else: an expression and what is made of it erase alike
(`Expression.erased_dated`), whatever was dated before.  So an expression that
has not been dated is recovered from its dated form (`recovered_of_dated`).
-/
import Bitemporal.Proofs.Settled

namespace Bitemporal

namespace Expression

/-! ### Erasing -/

mutual

/-- An expression without what dating adds. -/
def erased : Expression → Expression
  | reference n t => reference n t
  | literal v t => literal v t
  | equal f l r t => equal f (erased l) (erased r) t
  | compare f o l r t => compare f o (erased l) (erased r) t
  | conjunction f os t => conjunction f (erasedAll os) t
  | filter f s b e t => filter f (erased s) b (erased e) t
  | navigate site as w t =>
    navigate { site with access := .property } (erasedWritten (erasedAll as) w) none t

/-- The expressions of a list without what dating adds. -/
def erasedAll : List Expression → List Expression
  | [] => []
  | e :: es => erased e :: erasedAll es

/-- The arguments of a call as they were written, if that is recorded, and else those given. -/
def erasedWritten (given : List Expression) : Option (List Expression) → List Expression
  | none => given
  | some as => erasedAll as

end

/-! ### Nothing to erase -/

end Expression

/-- A navigation without what dating adds: it calls a plain property, and its arguments are those that
were written. -/
def Navigation.Undated (n : Navigation) : Prop :=
  n.access = .property ∧ n.written = none

instance : DecidablePred Navigation.Undated := fun _ => inferInstanceAs (Decidable (_ ∧ _))

namespace Expression

/-- No navigation has anything that dating adds. -/
abbrev Undated (e : Expression) : Prop :=
  e.Everywhere Navigation.Undated

mutual

/-- What is erased is undated, in the arguments that are put back as well. -/
theorem undated_erased : ∀ e : Expression, e.erased.Undated
  | reference _ _ => trivial
  | literal _ _ => trivial
  | equal _ l r _ => ⟨undated_erased l, undated_erased r⟩
  | compare _ _ l r _ => ⟨undated_erased l, undated_erased r⟩
  | conjunction _ os _ => undatedAll_erasedAll os
  | filter _ s _ e _ => ⟨undated_erased s, undated_erased e⟩
  | navigate _ as none _ => ⟨⟨rfl, rfl⟩, undatedAll_erasedAll as⟩
  | navigate _ _ (some ws) _ => ⟨⟨rfl, rfl⟩, undatedAll_erasedAll ws⟩

theorem undatedAll_erasedAll :
    ∀ es : List Expression, EverywhereAll Navigation.Undated (erasedAll es)
  | [] => trivial
  | e :: es => ⟨undated_erased e, undatedAll_erasedAll es⟩

end

mutual

theorem erased_of_undated {e : Expression} (he : e.Undated) : e.erased = e := by
  match e with
  | reference n t => rfl
  | literal v t => rfl
  | equal f l r t => rw [erased, erased_of_undated he.1, erased_of_undated he.2]
  | compare f o l r t => rw [erased, erased_of_undated he.1, erased_of_undated he.2]
  | conjunction f os t => rw [erased, erasedAll_of_undatedAll he]
  | filter f s b e t => rw [erased, erased_of_undated he.1, erased_of_undated he.2]
  | navigate site as w t =>
    obtain ⟨⟨haccess, hwritten⟩, has⟩ := he
    -- nothing is kept, and the access is reset to what it is
    obtain rfl : w = none := hwritten
    rw [erased, erasedWritten, erasedAll_of_undatedAll has, ← haccess]

theorem erasedAll_of_undatedAll {es : List Expression}
    (hes : EverywhereAll Navigation.Undated es) : erasedAll es = es := by
  match es with
  | [] => rfl
  | e :: es => rw [erasedAll, erased_of_undated hes.1, erasedAll_of_undatedAll hes.2]

end

/-- **Erasing leaves alone exactly what is undated.** -/
theorem erased_eq_self_iff {e : Expression} : e.erased = e ↔ e.Undated := by
  constructor
  · intro h
    rw [← h]
    exact undated_erased e
  · exact erased_of_undated

/-! ### One call -/

/-- **Settling a call** changes what is erased only. -/
theorem erased_of_settles {m : Model} {n n' : Navigation} {ambient after : Ambient} (t : Typing)
    (h : n.Settles m ambient n' after) : (n'.toExpression t).erased = (n.toExpression t).erased := by
  cases h with
  | plain => rfl
  | overfull => rfl
  | exact => rfl
  | filled =>
    -- what was written stays, or is what the arguments were before
    obtain ⟨site, arguments, written⟩ := n
    cases written with
    | none => rfl
    | some as => rfl

/-! ### A run -/

mutual

/-- **Dating can be taken back**: an expression and what dating makes of it erase alike. -/
theorem erased_dated {m : Model} {e e' : Expression} {ambient after : Ambient}
    (h : (dated m e).from ambient = (.ok e', after)) : e'.erased = e.erased := by
  match e with
  | reference n t =>
    obtain ⟨rfl, -⟩ := Dating.from_pure_eq_ok.1 h
    rfl
  | literal v t =>
    obtain ⟨rfl, -⟩ := Dating.from_pure_eq_ok.1 h
    rfl
  | equal f l r t =>
    obtain ⟨l', r', between, hl, hr, rfl⟩ := dated_equal_eq_ok.1 h
    rw [erased, erased, erased_dated hl, erased_dated hr]
  | compare f o l r t =>
    obtain ⟨l', r', between, hl, hr, rfl⟩ := dated_compare_eq_ok.1 h
    rw [erased, erased, erased_dated hl, erased_dated hr]
  | conjunction f os t =>
    obtain ⟨os', hos, rfl⟩ := dated_conjunction_eq_ok.1 h
    rw [erased, erased, erasedAll_datedAll hos]
  | filter f s b e t =>
    obtain ⟨s', e', between, hs, he', rfl⟩ := dated_filter_eq_ok.1 h
    rw [erased, erased, erased_dated hs, erased_dated he']
  | navigate site as w t =>
    obtain ⟨as', n', between, has, hn, rfl⟩ := dated_navigate_eq_ok.1 h
    rw [erased_of_settles t (Navigation.settles_of_settle hn)]
    show navigate _ (erasedWritten (erasedAll as') w) none t = _
    rw [erasedAll_datedAll has]
    rfl

theorem erasedAll_datedAll {m : Model} {es es' : List Expression} {ambient after : Ambient}
    (h : (datedAll m es).from ambient = (.ok es', after)) : erasedAll es' = erasedAll es := by
  match es with
  | [] =>
    obtain ⟨rfl, -⟩ := Dating.from_pure_eq_ok.1 h
    rfl
  | e :: es =>
    obtain ⟨e', es', between, he', hes', rfl⟩ := datedAll_cons_eq_ok.1 h
    rw [erasedAll, erasedAll, erased_dated he', erasedAll_datedAll hes']

end

/-- **What was dated is recovered by erasing**: from an undated expression itself, from any other what
erasing makes of it, which is undated. -/
theorem recovered_of_dated {m : Model} {e e' : Expression} {ambient after : Ambient}
    (h : (dated m e).from ambient = (.ok e', after)) :
    e'.erased = e.erased ∧ e'.erased.Undated ∧ (e.Undated → e'.erased = e) := by
  have hsame := erased_dated h
  refine ⟨hsame, undated_erased e', fun he => ?_⟩
  rw [hsame, erased_of_undated he]

/-- The edge taken twice without a date, of which the first call carries the date that it was given. -/
def nextAnnotated : Expression :=
  let next (access : Access) (arguments : List Expression) (written : Option (List Expression)) :=
    navigate { owner := "m::K", property := "next", access, span := none } arguments written
      ⟨.ofClass "m::K", .zeroOne⟩
  let this := reference "this" ⟨.ofClass "m::K", .one⟩
  next .property [next (.qualified 2) [this, date "2020-01-01"] (some [this])] none

/-- An undated expression is changed and recovered.  One that carries dates already is recovered
without them. -/
theorem nextButOne_recovered :
    (∃ e' after, (dated succession nextButOne).from {} = (.ok e', after) ∧
      e'.text = "$this.next(%2020-01-01).next(%2020-01-01)" ∧ e'.erased = nextButOne) ∧
    ∃ e' after, (dated succession nextAnnotated).from {} = (.ok e', after) ∧
      e'.text = "$this.next(%2020-01-01).next(%2020-01-01)" ∧ ¬ nextAnnotated.Undated ∧
        e'.erased.Undated ∧ e'.erased.text = "$this.next.next" := by
  have hundated : nextButOne.Undated := by decide +kernel
  have hannotated : ¬ nextAnnotated.Undated := by decide +kernel
  have hrun : ∀ e ∈ [nextButOne, nextAnnotated], ∃ e',
      (dated succession e).from {} = (.ok e', { business := some (date "2020-01-01") }) ∧
        e'.text = "$this.next(%2020-01-01).next(%2020-01-01)" := by
    intro e he
    apply exists_dated_of_text
    revert e
    decide +kernel
  constructor
  · obtain ⟨e', h, htext⟩ := hrun _ (.head _)
    obtain ⟨-, -, hself⟩ := recovered_of_dated h
    exact ⟨e', _, h, htext, hself hundated⟩
  · obtain ⟨e', h, htext⟩ := hrun _ (.tail _ (.head _))
    obtain ⟨hsame, hclean, -⟩ := recovered_of_dated h
    refine ⟨e', _, h, htext, hannotated, hclean, ?_⟩
    rw [hsame]
    decide +kernel

end Expression

end Bitemporal
