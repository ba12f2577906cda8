/-
Bitemporal/Proofs/Propagation.lean

The table of date propagation.

A call that leaves dates out can have them filled in from two places: the
receiver binds the dates of its own target, if it is itself a call that is
given exactly those (`Navigation.Binds`), and for the axes it does not bind the
dates in force are available (`Available`).  Which slots are filled depends on
the shapes at both ends and on the dates that are written; the rules are the
constructors of `Fills`.

Everything is read after the arguments have been dated from left to right: the
receiver is the dated one, and the dates in force are those that the last
argument left.  The main statement, `Navigation.dated_propagates`, says from
there what becomes of the call in each of the three cases: all its dates are
written, a rule fills the slots, or no rule does.
-/
import Bitemporal.Proofs.Origins
import Bitemporal.Proofs.Stages

namespace Bitemporal

/-! ### Dates put in force -/

namespace Ambient

variable {a : Ambient}

/-- The dates of a call are in force after it, in the order of its target's parameters, and the dates
on other axes are those that were before. -/
structure Entered (before : Ambient) (target : Shape) (dates : List Expression) (after : Ambient) :
    Prop where
  held : ∀ axis date, (axis, date) ∈ target.axes.zip dates → after.date? axis = some date
  kept : ∀ axis, axis ∉ target.axes → after.date? axis = before.date? axis

/-- An axis that is not among those that are set keeps its date. -/
theorem date?_foldl_set_of_notMem {slots : List (Axis × Expression)} {axis : Axis}
    (h : axis ∉ slots.map Prod.fst) :
    (slots.foldl (fun a x => a.set x.1 x.2) a).date? axis = a.date? axis := by
  induction slots generalizing a with
  | nil => rfl
  | cons x slots ih =>
    rw [List.map_cons, List.mem_cons, not_or] at h
    rw [List.foldl_cons, ih h.2, date?_set_of_ne a h.1]

/-- Axes that are set once each have the dates they are set to. -/
theorem date?_foldl_set_of_mem {slots : List (Axis × Expression)} {axis : Axis} {date : Expression}
    (hnodup : (slots.map Prod.fst).Nodup) (h : (axis, date) ∈ slots) :
    (slots.foldl (fun a x => a.set x.1 x.2) a).date? axis = some date := by
  induction slots generalizing a with
  | nil => cases h
  | cons x slots ih =>
    rw [List.map_cons, List.nodup_cons] at hnodup
    rw [List.foldl_cons]
    rcases List.mem_cons.1 h with rfl | h
    · rw [date?_foldl_set_of_notMem hnodup.1, date?_set_self]
    · exact ih hnodup.2 h

theorem entered_enter {target : Shape} {dates : List Expression}
    (h : target.axes.length ≤ dates.length) : a.Entered target dates (a.enter target dates) := by
  have hfst : (target.axes.zip dates).map Prod.fst = target.axes := List.map_fst_zip h
  constructor
  · intro axis date hmem
    apply date?_foldl_set_of_mem _ hmem
    rw [hfst]
    exact target.axes_nodup
  · intro axis hmem
    apply date?_foldl_set_of_notMem
    rw [hfst]
    exact hmem

/-- What was put in force before on the target's own axes does not matter. -/
theorem Entered.of_kept {before between after : Ambient} {target : Shape} {dates : List Expression}
    (h : between.Entered target dates after)
    (hkept : ∀ axis, axis ∉ target.axes → between.date? axis = before.date? axis) :
    before.Entered target dates after where
  held := h.held
  kept axis hmem := (h.kept axis hmem).trans (hkept axis hmem)

end Ambient

/-! ### Where dates are available -/

section Available

variable {m : Model} {receiver : Expression} {ambient after : Ambient} {axis : Axis}
  {date : Expression}

/-- A call binds the date on an axis of its target, if it calls a generated accessor that its owner
has and is given exactly the dates of the target. -/
def Navigation.Binds (m : Model) (r : Navigation) (axis : Axis) (date : Expression) : Prop :=
  ∃ target, m.callShape? r.owner r.property = some target ∧ r.access ≠ .property ∧
    m.takes r.owner r.property r.arguments.length = true ∧
      r.explicit.length = target.axes.length ∧ (axis, date) ∈ target.axes.zip r.explicit

/-- The date that is available on an axis to a call with the given receiver: the one that the receiver
binds, as a call itself, and else the one in force. -/
def Available (m : Model) (receiver : Expression) (ambient : Ambient) (axis : Axis)
    (date : Expression) : Prop :=
  (∃ r, receiver.navigation? = some r ∧ r.Binds m axis date) ∨
    (∀ r, receiver.navigation? = some r → ∀ date, ¬ r.Binds m axis date) ∧
      ambient.date? axis = some date

/-- Dating keeps the typing of an expression, and makes a navigation of a navigation only. -/
theorem Expression.outline_of_dated {e e' : Expression} (h : (dated m e).from ambient = (.ok e', after)) :
    e'.typing = e.typing ∧ ∀ r, e'.navigation? = some r → ∃ n arguments between,
      e.navigation? = some n ∧ (datedAll m n.arguments).from ambient = (.ok arguments, between) ∧
        (Navigation.settle m { n with arguments }).from between = (.ok r, after) := by
  cases e with
  | reference n t =>
    obtain ⟨rfl, rfl⟩ := Dating.from_pure_eq_ok.1 h
    exact ⟨rfl, fun _ hr => nomatch hr⟩
  | literal v t =>
    obtain ⟨rfl, rfl⟩ := Dating.from_pure_eq_ok.1 h
    exact ⟨rfl, fun _ hr => nomatch hr⟩
  | equal f l r t =>
    obtain ⟨l', r', -, -, -, rfl⟩ := dated_equal_eq_ok.1 h
    exact ⟨rfl, fun _ hr => nomatch hr⟩
  | compare f o l r t =>
    obtain ⟨l', r', -, -, -, rfl⟩ := dated_compare_eq_ok.1 h
    exact ⟨rfl, fun _ hr => nomatch hr⟩
  | conjunction f os t =>
    obtain ⟨os', -, rfl⟩ := dated_conjunction_eq_ok.1 h
    exact ⟨rfl, fun _ hr => nomatch hr⟩
  | filter f s b e t =>
    obtain ⟨s', e', -, -, -, rfl⟩ := dated_filter_eq_ok.1 h
    exact ⟨rfl, fun _ hr => nomatch hr⟩
  | navigate site as w t =>
    obtain ⟨as', n', between, has, hn', rfl⟩ := dated_navigate_eq_ok.1 h
    refine ⟨rfl, fun r hr => ?_⟩
    obtain rfl := Option.some.inj hr
    exact ⟨{ toSite := site, arguments := as, written := w }, as', between, rfl, has, hn'⟩

/-- A dated call that is given exactly the dates of its target calls an accessor that is there. -/
theorem Expression.takes_of_dated {e e' : Expression} {r : Navigation} {target : Shape}
    (h : (dated m e).from ambient = (.ok e', after)) (hr : e'.navigation? = some r)
    (hcall : m.callShape? r.owner r.property = some target)
    (hlength : r.explicit.length = target.axes.length) :
    m.takes r.owner r.property r.arguments.length = true := by
  obtain ⟨n, arguments, between, -, -, hsettle⟩ := (outline_of_dated h).2 r hr
  cases Navigation.settles_of_settle hsettle with
  | plain hplain => cases hplain.symm.trans hcall
  | overfull hcall' hmore =>
    obtain rfl := Option.some.inj (hcall.symm.trans hcall')
    exact absurd hlength (Nat.ne_of_gt hmore)
  | exact _ _ htakes => exact htakes
  | filled _ _ _ _ _ htakes => exact htakes

/-- In a list of pairs with different first members, the one that is found is the one there is. -/
theorem lookup_eq_some_iff_mem {α β : Type} [BEq α] [LawfulBEq α] {l : List (α × β)}
    (hnodup : (l.map Prod.fst).Nodup) {a : α} {b : β} : l.lookup a = some b ↔ (a, b) ∈ l := by
  induction l with
  | nil => simp
  | cons x l ih =>
    obtain ⟨a', b'⟩ := x
    rw [List.map_cons, List.nodup_cons] at hnodup
    rw [List.lookup_cons, List.mem_cons, Prod.mk.injEq]
    split
    · rename_i heq
      obtain rfl := LawfulBEq.eq_of_beq heq
      constructor
      · intro h
        exact .inl ⟨rfl, (Option.some.inj h).symm⟩
      · rintro (⟨-, rfl⟩ | h)
        · rfl
        · exact absurd (List.mem_map_of_mem (f := Prod.fst) h) hnodup.1
    · rename_i hne
      rw [ih hnodup.2]
      constructor
      · exact .inr
      · rintro (⟨rfl, -⟩ | h)
        · simp at hne
        · exact h

/-- The axes of the dates that a call binds are different. -/
theorem Navigation.nodup_boundDates (r : Navigation) : ((r.boundDates m).map Prod.fst).Nodup := by
  rw [boundDates_eq]
  split
  · rename_i target _ _
    split
    · rename_i hlength
      rw [List.map_fst_zip (Nat.le_of_eq hlength.symm)]
      exact target.axes_nodup
    · exact List.nodup_nil
  · exact List.nodup_nil

/-- The dates that a call binds are those that dating takes from it, if it calls an accessor that is
there once it is given its dates. -/
theorem Navigation.binds_iff_mem {r : Navigation}
    (htakes : ∀ target, m.callShape? r.owner r.property = some target →
      r.explicit.length = target.axes.length → m.takes r.owner r.property r.arguments.length = true) :
    r.Binds m axis date ↔ (axis, date) ∈ r.boundDates m := by
  rw [boundDates_eq]
  constructor
  · rintro ⟨target, hcall, hqualified, -, hlength, hmem⟩
    rcases haccess : r.access with - | count
    · exact absurd haccess hqualified
    · rw [hcall]
      dsimp only
      rw [if_pos hlength]
      exact hmem
  · intro h
    split at h
    · rename_i target haccess hcall
      split at h
      · rename_i hlength
        refine ⟨target, hcall, ?_, htakes target hcall hlength, hlength, h⟩
        rw [haccess]
        exact Access.noConfusion
      · cases h
    · cases h

/-- **What is available to a call is what dating looks up**, once the receiver is dated. -/
theorem available_iff {n : Navigation} {e : Expression} {before between : Ambient}
    (hreceiver : n.receiver? = some receiver)
    (hdated : (Expression.dated m e).from before = (.ok receiver, between)) :
    Available m receiver ambient axis date ↔ dateOn (n.receiverDates m) ambient axis = some date := by
  have hbinds : ∀ date, (∃ r, receiver.navigation? = some r ∧ r.Binds m axis date) ↔
      (n.receiverDates m).lookup axis = some date := by
    intro date
    rw [Navigation.receiverDates, hreceiver, Option.bind_some]
    rcases hr : receiver.navigation? with - | r
    · simp
    · have htakes : ∀ target, m.callShape? r.owner r.property = some target →
          r.explicit.length = target.axes.length →
            m.takes r.owner r.property r.arguments.length = true :=
        fun _ => Expression.takes_of_dated hdated hr
      dsimp only
      rw [lookup_eq_some_iff_mem r.nodup_boundDates, ← r.binds_iff_mem htakes]
      simp
  rw [Available, dateOn, hbinds]
  rcases hlookup : (n.receiverDates m).lookup axis with - | bound
  · have hnone : ∀ r, receiver.navigation? = some r → ∀ date, ¬ r.Binds m axis date := by
      intro r hr date hb
      have := (hbinds date).1 ⟨r, hr, hb⟩
      rw [hlookup] at this
      cases this
    constructor
    · rintro (h | ⟨-, h⟩)
      · cases h
      · exact h
    · exact fun h => .inr ⟨hnone, h⟩
  · obtain ⟨r, hr, hb⟩ := (hbinds bound).2 hlookup
    constructor
    · rintro (h | ⟨h, -⟩)
      · exact h
      · exact absurd hb (h r hr bound)
    · exact fun h => .inl h

end Available

/-! ### Filling slots -/

/-- A date is announced only by a call between bitemporal classes that is given one date. -/
theorem announce_eq_self_or (ambient : Ambient) (source : Option Shape) (target : Shape)
    (explicit : List Expression) :
    announce ambient source target explicit = ambient ∨
      ∃ written, target = .bitemporal ∧ source = some .bitemporal ∧ explicit = [written] ∧
        announce ambient source target explicit = ambient.set .business written := by
  unfold announce
  split
  · exact .inr ⟨_, rfl, rfl, rfl, rfl⟩
  · exact .inl rfl

theorem announce_nil (ambient : Ambient) (source : Option Shape) (target : Shape) :
    announce ambient source target [] = ambient := by
  rcases announce_eq_self_or ambient source target [] with h | ⟨written, -, -, hnil, -⟩
  · exact h
  · cases hnil

/-- The date that is announced is not one that the slots of the call are filled from. -/
theorem fills_announce_iff {bound : List (Axis × Expression)} {ambient : Ambient}
    {source : Option Shape} {target : Shape} {explicit dates : List Expression} :
    Fills (fun axis date => dateOn bound (announce ambient source target explicit) axis = some date)
        target source explicit dates ↔
      Fills (fun axis date => dateOn bound ambient axis = some date) target source explicit dates := by
  rcases announce_eq_self_or ambient source target explicit with hself |
    ⟨written, rfl, rfl, rfl, hset⟩
  · rw [hself]
  · -- the rule for one written date looks up the other axis
    have hprocessing : dateOn bound (ambient.set .business written) .processing =
        dateOn bound ambient .processing := rfl
    rw [hset]
    constructor
    · intro h
      cases h with
      | business hp => exact .business (hprocessing.symm.trans hp)
    · intro h
      cases h with
      | business hp => exact .business (hprocessing.trans hp)

theorem Fills.congr {available available' : Axis → Expression → Prop} {source : Option Shape}
    {target : Shape} {explicit dates : List Expression}
    (h : Fills available target source explicit dates)
    (himp : ∀ axis date, available axis date → available' axis date) :
    Fills available' target source explicit dates := by
  cases h with
  | business hp => exact .business (himp _ _ hp)
  | ofProcessing hp => exact .ofProcessing (himp _ _ hp)
  | ofBusiness hb => exact .ofBusiness (himp _ _ hb)
  | both hp hb => exact .both (himp _ _ hp) (himp _ _ hb)
  | one hone hsource hd => exact .one hone hsource (himp _ _ hd)

/-- Dates that fill the slots of a call are in force after it, and nothing else has changed. -/
theorem Ambient.entered_announce {ambient : Ambient} {source : Option Shape} {target : Shape}
    {explicit dates : List Expression} (h : dates.length = target.axes.length) :
    ambient.Entered target dates ((announce ambient source target explicit).enter target dates) := by
  apply (entered_enter (Nat.le_of_eq h.symm)).of_kept
  intro axis hmem
  rcases announce_eq_self_or ambient source target explicit with hself | ⟨written, rfl, -, -, -⟩
  · rw [hself]
  · cases axis <;> exact absurd (by decide) hmem

/-! ### Calls -/

namespace Navigation

variable {m : Model} {n : Navigation} {receiver : Expression} {explicit : List Expression}
  {before ambient : Ambient} {target : Shape}

theorem called_of_takes (h : m.takes n.owner n.property n.arguments.length = true) :
    n.called m = .ok n.retargeted :=
  if_pos h

/-- A navigation is settled from where its arguments have left the dates in force. -/
theorem dated_from {arguments : List Expression}
    (h : (Expression.datedAll m n.arguments).from before = (.ok arguments, ambient)) :
    (n.dated m).from before = settledFrom m { n with arguments } ambient := by
  rw [dated, Dating.from_bind, h]
  exact settle_from m _ ambient

/-- A call with all of its dates puts them in force. -/
theorem settledFrom_of_le (hcall : m.callShape? n.owner n.property = some target)
    (hle : target.axes.length ≤ n.explicit.length) :
    settledFrom m n ambient =
      (if n.explicit.length = target.axes.length then n.called m else .ok n,
        ambient.enter target n.explicit) := by
  have hrecord : ambient.recordSupplied target n.explicit = ambient.enter target n.explicit :=
    if_pos hle
  simp only [settledFrom, hcall, if_pos hle, hrecord]

/-- The slots of a call are filled by the rules, from what its dated receiver makes available. -/
theorem slots_eq_some_iff {e : Expression} {between : Ambient} {dates : List Expression}
    (hreceiver : n.receiver? = some receiver)
    (hdated : (Expression.dated m e).from before = (.ok receiver, between)) :
    (fillSlots (n.receiverDates m) (announce ambient (m.shapeAt? n.owner) target n.explicit)
        (m.shapeAt? n.owner) target n.explicit).mapM id = some dates ↔
      Fills (Available m receiver ambient) target (m.shapeAt? n.owner) n.explicit dates := by
  rw [fillSlots_eq_some_iff, fills_announce_iff]
  constructor
  · intro h
    exact h.congr fun axis date hdate => (available_iff hreceiver hdated).2 hdate
  · intro h
    exact h.congr fun axis date hdate => (available_iff hreceiver hdated).1 hdate

/-- A call that leaves dates out is given those that the rules say. -/
theorem settledFrom_of_fills {e : Expression} {between : Ambient} {dates : List Expression}
    (hreceiver : n.receiver? = some receiver)
    (hdated : (Expression.dated m e).from before = (.ok receiver, between))
    (hcall : m.callShape? n.owner n.property = some target)
    (hlt : n.explicit.length < target.axes.length)
    (hfills : Fills (Available m receiver ambient) target (m.shapeAt? n.owner) n.explicit dates) :
    settledFrom m n ambient = ((n.supply dates).called m,
      (announce ambient (m.shapeAt? n.owner) target n.explicit).enter target dates) := by
  rw [settledFrom, hcall]
  dsimp only
  rw [if_neg (Nat.not_le.2 hlt), (slots_eq_some_iff hreceiver hdated).2 hfills]

/-- A call that leaves dates out fails if the rules say nothing. -/
theorem settledFrom_of_forall_not_fills {e : Expression} {between : Ambient}
    (hreceiver : n.receiver? = some receiver)
    (hdated : (Expression.dated m e).from before = (.ok receiver, between))
    (hcall : m.callShape? n.owner n.property = some target)
    (hlt : n.explicit.length < target.axes.length)
    (hnone : ∀ dates,
      ¬ Fills (Available m receiver ambient) target (m.shapeAt? n.owner) n.explicit dates) :
    settledFrom m n ambient = (.error (.missingDate n.property target.axes n.span),
      announce ambient (m.shapeAt? n.owner) target n.explicit) := by
  have hslots : (fillSlots (n.receiverDates m)
      (announce ambient (m.shapeAt? n.owner) target n.explicit) (m.shapeAt? n.owner) target
      n.explicit).mapM id = none := by
    rw [Option.eq_none_iff_forall_ne_some]
    intro dates hdates
    exact hnone dates ((slots_eq_some_iff hreceiver hdated).1 hdates)
  rw [settledFrom, hcall]
  dsimp only
  rw [if_neg (Nat.not_le.2 hlt), hslots]

/-- The receiver of a navigation is dated before the call is settled. -/
theorem receiver_dated
    (hargs : (Expression.datedAll m n.arguments).from before = (.ok (receiver :: explicit), ambient)) :
    ∃ e between, (Expression.dated m e).from before = (.ok receiver, between) := by
  rcases hwritten : n.arguments with - | ⟨e, es⟩
  · rw [hwritten] at hargs
    cases (Prod.mk.inj hargs).1
  · rw [hwritten] at hargs
    obtain ⟨receiver', es', between, he, -, heq⟩ := Expression.datedAll_cons_eq_ok.1 hargs
    obtain rfl := (List.cons.inj heq).1
    exact ⟨e, between, he⟩

/-- **The table of propagation.**  Let the arguments of a navigation be dated, the receiver first, and
let its name lead to the given shape.  A call with all of its dates keeps its arguments, and the
dates for the axes of its target are in force after it.  One that leaves dates out is given those that
the rules say, from what its receiver binds and what is in force, and they are in force after it.
It fails for want of a date if the rules say nothing. -/
theorem dated_propagates
    (hargs : (Expression.datedAll m n.arguments).from before = (.ok (receiver :: explicit), ambient))
    (hcall : m.callShape? n.owner n.property = some target) :
    (target.axes.length ≤ explicit.length → ∃ after, ambient.Entered target explicit after ∧
      (n.dated m).from before =
        (if explicit.length = target.axes.length
          then called m { n with arguments := receiver :: explicit }
          else .ok { n with arguments := receiver :: explicit }, after)) ∧
    (explicit.length < target.axes.length →
      (∀ dates, Fills (Available m receiver ambient) target (m.shapeAt? n.owner) explicit dates →
        ∃ after, ambient.Entered target dates after ∧
          (n.dated m).from before =
            (called m { n with
              arguments := receiver :: dates
              written := n.written <|> some (receiver :: explicit) }, after)) ∧
      ((∀ dates, ¬ Fills (Available m receiver ambient) target (m.shapeAt? n.owner) explicit dates) →
        ((n.dated m).from before).1 = .error (.missingDate n.property target.axes n.span))) := by
  obtain ⟨e, between, hreceiver⟩ := receiver_dated hargs
  -- the navigation with its dated arguments
  let call : Navigation := { n with arguments := receiver :: explicit }
  have hsettled : (n.dated m).from before = call.settledFrom m ambient := dated_from hargs
  rw [hsettled]
  refine ⟨fun hle => ?_, fun hlt => ⟨fun dates hfills => ?_, fun hnone => ?_⟩⟩
  · exact ⟨_, Ambient.entered_enter hle, call.settledFrom_of_le hcall hle⟩
  · exact ⟨_, Ambient.entered_announce hfills.length_eq,
      call.settledFrom_of_fills rfl hreceiver hcall hlt hfills⟩
  · rw [call.settledFrom_of_forall_not_fills rfl hreceiver hcall hlt hnone]

/-- A model with bitemporal contracts at sites that have business time only, as it is when its bodies
are dated. -/
def contracts : Model :=
  (Model.ofDocument {
    classes := [
      { path := "m::Contract"
        stereotypes := [.resolved temporalProfile Shape.bitemporal.name]
        properties := [
          { name := "amends", type := .ofClass "m::Contract", multiplicity := .zeroOne
            owner := .ofClass "m::Contract" },
          { name := "site", type := .ofClass "m::Site", multiplicity := .zeroOne
            owner := .ofClass "m::Contract" },
          { name := "signed", type := .primitive .date, multiplicity := .one
            owner := .ofClass "m::Contract" }] },
      { path := "m::Site"
        stereotypes := [.resolved temporalProfile Shape.business.name]
        properties := [
          { name := "part", type := .ofClass "m::Site", multiplicity := .zeroOne
            owner := .ofClass "m::Site" }] }] }).prepared .startEquality

/-- A call of the contract that a contract amends. -/
def amends (access : Access) (arguments : List Expression) : Navigation :=
  { owner := "m::Contract", property := "amends", access, span := none, arguments }

/-- A contract with both dates, and the date on which another one was signed. -/
def revision (access : Access) : List Expression :=
  let contract (name processing business : String) : Expression :=
    (amends access [.reference name ⟨.ofClass "m::Contract", .one⟩, .date processing,
      .date business]).toExpression ⟨.ofClass "m::Contract", .zeroOne⟩
  let signed := plain "m::Contract" "signed" (contract "that" "2030-01-01" "2030-06-30") []
  [contract "this" "2015-01-01" "2015-06-30", signed.toExpression .date]

/-- Given the date of signature only, a call takes the processing date of its receiver, while dating
the argument has left another one in force. -/
theorem revision_propagates :
    ∃ receiver signed ambient after,
      (Expression.datedAll contracts (amends .property (revision .property)).arguments).from {} =
        (.ok [receiver, signed], ambient) ∧
      contracts.callShape? "m::Contract" "amends" = some .bitemporal ∧
      ambient.date? .processing = some (.date "2030-01-01") ∧
      ((amends .property (revision .property)).dated contracts).from {} =
        (.ok { amends (.qualified 3) [receiver, .date "2015-01-01", signed] with
          written := some [receiver, signed] }, after) ∧
      after.date? .processing = some (.date "2015-01-01") ∧
      after.date? .business = some signed := by
  have hargs : (Expression.datedAll contracts (revision .property)).from {} =
      (.ok (revision (.qualified 3)),
        { processing := some (.date "2030-01-01"), business := some (.date "2030-06-30") }) := by
    decide +kernel
  have hcall : contracts.callShape? "m::Contract" "amends" = some .bitemporal := by decide +kernel
  have hsource : contracts.shapeAt? "m::Contract" = some .bitemporal := by decide +kernel
  have htakes : contracts.takes "m::Contract" "amends" 3 = true := by decide +kernel
  obtain ⟨-, hless⟩ :=
    dated_propagates (n := amends .property (revision .property)) hargs hcall
  obtain ⟨hfilled, -⟩ := hless (by decide)
  obtain ⟨after, hafter, hrun⟩ := hfilled _ <| by
    rw [show (amends .property (revision .property)).owner = "m::Contract" from rfl, hsource]
    exact .business (.inl ⟨_, rfl, .bitemporal, hcall, nofun, htakes, rfl, .head _⟩)
  rw [called_of_takes htakes] at hrun
  exact ⟨_, _, _, after, hargs, hcall, rfl, hrun, hafter.held _ _ (.head _),
    hafter.held _ _ (.tail _ (.head _))⟩

end Navigation

end Bitemporal
