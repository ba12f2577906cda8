/-
Bitemporal/Proofs/MoreDates.lean

Dating with more dates in force.

A date in force is looked up only where nothing nearer supplies one, and no
computation asks whether an axis has none.  So what is dated with some dates
in force is dated alike with more of them: putting other dates in force where
there are none commutes with every step (`Dating.Undisturbed`), and at the end
they are in force where nothing else has been put.

    run x from a = (ok v, d)  →  run x from (a backed by b) = (ok v, d backed by b)
-/
import Bitemporal.Proofs.Propagation
import Bitemporal.Proofs.Settled

namespace Bitemporal

/-! ### Dates in force, backed by others -/

namespace Ambient

/-- The dates in force, and others on the axes that have none. -/
def backedBy (a b : Ambient) : Ambient where
  processing := a.processing <|> b.processing
  business := a.business <|> b.business

variable {a b : Ambient}

theorem date?_backedBy (axis : Axis) : (a.backedBy b).date? axis = (a.date? axis <|> b.date? axis) := by
  cases axis <;> rfl

theorem set_backedBy (axis : Axis) (date : Expression) :
    (a.backedBy b).set axis date = (a.set axis date).backedBy b := by
  cases axis <;> rfl

theorem enter_backedBy (shape : Shape) (dates : List Expression) :
    (a.backedBy b).enter shape dates = (a.enter shape dates).backedBy b := by
  rw [enter, enter]
  exact List.foldl_hom (fun a : Ambient => a.backedBy b) fun a x => set_backedBy x.1 x.2

theorem recordSupplied_backedBy (shape : Shape) (dates : List Expression) :
    (a.backedBy b).recordSupplied shape dates = (a.recordSupplied shape dates).backedBy b := by
  rw [recordSupplied, recordSupplied]
  split
  · exact enter_backedBy shape dates
  · rfl

theorem announce_backedBy (source : Option Shape) (target : Shape) (explicit : List Expression) :
    announce (a.backedBy b) source target explicit = (announce a source target explicit).backedBy b := by
  unfold announce
  split
  · exact set_backedBy _ _
  · rfl

/-- Backed by dates that hold them already, dates in force add nothing. -/
theorem backedBy_of_held (h : ∀ axis date, a.date? axis = some date → b.date? axis = some date) :
    a.backedBy b = b := by
  apply ext_date?
  intro axis
  rw [date?_backedBy]
  rcases hdate : a.date? axis with - | date
  · rfl
  · exact (h axis date hdate).symm

end Ambient

/-- A date that is found is found with more dates in force as well. -/
theorem dateOn_backedBy {bound : List (Axis × Expression)} {a b : Ambient} {axis : Axis}
    {date : Expression} (h : dateOn bound a axis = some date) :
    dateOn bound (a.backedBy b) axis = some date := by
  rw [dateOn] at h ⊢
  rcases hbound : bound.lookup axis with - | other
  · rw [hbound] at h
    have hdate : a.date? axis = some date := h
    rw [Ambient.date?_backedBy, hdate]
    rfl
  · rw [hbound] at h
    exact h

/-! ### Undisturbed computations -/

namespace Dating

variable {α β : Type}

/-- More dates in force do not disturb a computation: where it succeeds, it gives the same with them,
and they stay where it puts none of its own. -/
def Undisturbed (x : Dating α) : Prop :=
  ∀ (a b after : Ambient) (v : α), x.from a = (.ok v, after) →
    x.from (a.backedBy b) = (.ok v, after.backedBy b)

theorem Undisturbed.pure (v : α) : Undisturbed (pure v) := by
  intro a b after w h
  obtain ⟨rfl, rfl⟩ := from_pure_eq_ok.1 h
  rfl

theorem Undisturbed.bind {x : Dating α} {f : α → Dating β} (hx : x.Undisturbed)
    (hf : ∀ v, (f v).Undisturbed) : (x >>= f).Undisturbed := by
  intro a b after w h
  obtain ⟨v, between, hv, hw⟩ := from_bind_eq_ok.1 h
  exact from_bind_eq_ok.2 ⟨v, between.backedBy b, hx a b between v hv, hf v between b after w hw⟩

end Dating

/-! ### One call -/

/-- **Settling a call is undisturbed**: no rule that fills its slots asks for an axis without a date. -/
theorem Navigation.undisturbed_settle (m : Model) (n : Navigation) : (n.settle m).Undisturbed := by
  intro a b after n' h
  rw [settle_from, settledFrom] at h ⊢
  rcases hcall : m.callShape? n.owner n.property with - | target
  · rw [hcall] at h
    obtain ⟨hn, rfl⟩ := Prod.mk.inj h
    rw [← hn]
  · rw [hcall] at h
    dsimp only at h ⊢
    by_cases hle : target.axes.length ≤ n.explicit.length
    · -- all dates are written
      rw [if_pos hle] at h ⊢
      obtain ⟨hn, rfl⟩ := Prod.mk.inj h
      rw [hn, Ambient.recordSupplied_backedBy]
    · rw [if_neg hle] at h ⊢
      rw [Ambient.announce_backedBy]
      split at h
      · cases (Prod.mk.inj h).1
      · -- the rule that fills the slots still does
        rename_i dates hslots
        obtain ⟨hn, rfl⟩ := Prod.mk.inj h
        have hfills := (fillSlots_eq_some_iff.1 hslots).congr fun axis date hdate =>
          dateOn_backedBy (b := b) hdate
        rw [fillSlots_eq_some_iff.2 hfills]
        dsimp only
        rw [hn, Ambient.enter_backedBy]

/-! ### A run -/

namespace Expression

mutual

/-- **Dating is undisturbed by more dates in force.** -/
theorem undisturbed_dated (m : Model) (e : Expression) : (dated m e).Undisturbed := by
  match e with
  | reference n t => exact .pure _
  | literal v t => exact .pure _
  | equal f l r t =>
    exact (undisturbed_dated m l).bind fun l' => (undisturbed_dated m r).bind fun r' => .pure _
  | compare f o l r t =>
    exact (undisturbed_dated m l).bind fun l' => (undisturbed_dated m r).bind fun r' => .pure _
  | conjunction f os t => exact (undisturbed_datedAll m os).bind fun os' => .pure _
  | filter f s b e t =>
    exact (undisturbed_dated m s).bind fun s' => (undisturbed_dated m e).bind fun e' => .pure _
  | navigate site as w t =>
    exact (undisturbed_datedAll m as).bind fun as' =>
      (Navigation.undisturbed_settle m _).bind fun n => .pure _

theorem undisturbed_datedAll (m : Model) (es : List Expression) : (datedAll m es).Undisturbed := by
  match es with
  | [] => exact .pure _
  | e :: es =>
    exact (undisturbed_dated m e).bind fun e' => (undisturbed_datedAll m es).bind fun es' => .pure _

end

/-- **More dates in force never hurt.**  If an expression is dated with some dates in force, it is dated
alike from any that hold these.  At the end every date is in force that was so with fewer, and an
axis that had none then has the date it had at the start. -/
theorem dated_of_more {m : Model} {e e' : Expression} {before before' after : Ambient}
    (hmore : ∀ axis date, before.date? axis = some date → before'.date? axis = some date)
    (h : (dated m e).from before = (.ok e', after)) :
    ∃ after', (dated m e).from before' = (.ok e', after') ∧
      ∀ axis, (∀ date, after.date? axis = some date → after'.date? axis = some date) ∧
        (after.date? axis = none → after'.date? axis = before'.date? axis) := by
  have hrun := undisturbed_dated m e before before' after e' h
  rw [Ambient.backedBy_of_held hmore] at hrun
  refine ⟨after.backedBy before', hrun, fun axis => ⟨fun date hdate => ?_, fun hnone => ?_⟩⟩
  · rw [Ambient.date?_backedBy, hdate]
    rfl
  · rw [Ambient.date?_backedBy, hnone]
    rfl

/-- The part of a part of a site, with no date written. -/
def partOfPart : Expression :=
  let part (receiver : Expression) : Expression :=
    (Navigation.plain "m::Site" "part" receiver []).toExpression ⟨.ofClass "m::Site", .zeroOne⟩
  part (part (reference "site" ⟨.ofClass "m::Site", .one⟩))

/-- Sites have no processing date: that one is in force changes nothing, and it is in force at the
end. -/
theorem partOfPart_dated_alike :
    let business : Ambient := { business := some (date "2020-06-30") }
    let both : Ambient := { business with processing := some (date "2021-01-01") }
    ∃ e' after after', (dated Navigation.contracts partOfPart).from business = (.ok e', after) ∧
      e'.text = "$site.part(%2020-06-30).part(%2020-06-30)" ∧
      (dated Navigation.contracts partOfPart).from both = (.ok e', after') ∧
      after.date? .processing = none ∧
      after'.date? .processing = some (date "2021-01-01") ∧
      after'.date? .business = some (date "2020-06-30") := by
  intro business both
  have hmore : ∀ axis date, business.date? axis = some date → both.date? axis = some date := by
    rintro (- | -) date hdate
    · cases hdate
    · exact hdate
  have hrun : ∃ e', (dated Navigation.contracts partOfPart).from business = (.ok e', business) ∧
      e'.text = "$site.part(%2020-06-30).part(%2020-06-30)" := by
    apply exists_dated_of_text
    decide +kernel
  obtain ⟨e', h, htext⟩ := hrun
  obtain ⟨after', h', hafter⟩ := dated_of_more hmore h
  exact ⟨e', _, after', h, htext, h', rfl, (hafter .processing).2 rfl, (hafter .business).1 _ rfl⟩

end Expression

end Bitemporal
