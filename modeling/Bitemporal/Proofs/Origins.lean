/-
Bitemporal/Proofs/Origins.lean

Where the dates of a dated expression come from.

Dates come from three places only: the dates in force, the dates a receiver
binds, and the call itself (`mem_fillSlots`).  Which of them fill the slots of
a call is said by a table of rules (`Fills`).  The ways in which a call can be
settled are listed once (`Navigation.Settles`); each leaves the call with
arguments from these places.  All of them consist of navigations that were
dated before, and so whatever every settled call has goes over to the whole of
a dated expression (`dated_everywhere`); that every navigation has a receiver
is the first such property.
-/
import Bitemporal.Proofs.Calls

namespace Bitemporal

/-! ### Properties of all navigations -/

namespace Expression

mutual

/-- Every navigation of an expression has a property. -/
def Everywhere (P : Navigation → Prop) : Expression → Prop
  | reference _ _ => True
  | literal _ _ => True
  | equal _ l r _ => Everywhere P l ∧ Everywhere P r
  | compare _ _ l r _ => Everywhere P l ∧ Everywhere P r
  | conjunction _ os _ => EverywhereAll P os
  | filter _ s _ e _ => Everywhere P s ∧ Everywhere P e
  | navigate site as w _ =>
    P { toSite := site, arguments := as, written := w } ∧ EverywhereAll P as

/-- Every navigation of a list of expressions has a property. -/
def EverywhereAll (P : Navigation → Prop) : List Expression → Prop
  | [] => True
  | e :: es => Everywhere P e ∧ EverywhereAll P es

end

section Decidability

variable (P : Navigation → Prop) [DecidablePred P]

mutual

/-- Whether every navigation has a decidable property can be decided. -/
def decideEverywhere : (e : Expression) → Decidable (e.Everywhere P)
  | reference _ _ => .isTrue trivial
  | literal _ _ => .isTrue trivial
  | equal _ l r _ => @instDecidableAnd _ _ (decideEverywhere l) (decideEverywhere r)
  | compare _ _ l r _ => @instDecidableAnd _ _ (decideEverywhere l) (decideEverywhere r)
  | conjunction _ os _ => decideEverywhereAll os
  | filter _ s _ e _ => @instDecidableAnd _ _ (decideEverywhere s) (decideEverywhere e)
  | navigate _ as _ _ => @instDecidableAnd _ _ inferInstance (decideEverywhereAll as)

/-- The same for a list. -/
def decideEverywhereAll : (es : List Expression) → Decidable (EverywhereAll P es)
  | [] => .isTrue trivial
  | e :: es => @instDecidableAnd _ _ (decideEverywhere e) (decideEverywhereAll es)

end

instance : DecidablePred (Everywhere P) := decideEverywhere P

instance : DecidablePred (EverywhereAll P) := decideEverywhereAll P

end Decidability

variable {P Q : Navigation → Prop}

theorem everywhereAll_iff {es : List Expression} :
    EverywhereAll P es ↔ ∀ e ∈ es, e.Everywhere P := by
  induction es with
  | nil => simp [EverywhereAll]
  | cons e es ih => simp [EverywhereAll, ih]

mutual

theorem everywhere_imp (hPQ : ∀ n, P n → Q n) {e : Expression} (h : e.Everywhere P) :
    e.Everywhere Q := by
  match e with
  | reference n t => trivial
  | literal v t => trivial
  | equal f l r t => exact ⟨everywhere_imp hPQ h.1, everywhere_imp hPQ h.2⟩
  | compare f o l r t => exact ⟨everywhere_imp hPQ h.1, everywhere_imp hPQ h.2⟩
  | conjunction f os t => exact everywhereAll_imp hPQ h
  | filter f s b e t => exact ⟨everywhere_imp hPQ h.1, everywhere_imp hPQ h.2⟩
  | navigate site as w t => exact ⟨hPQ _ h.1, everywhereAll_imp hPQ h.2⟩

theorem everywhereAll_imp (hPQ : ∀ n, P n → Q n) {es : List Expression} (h : EverywhereAll P es) :
    EverywhereAll Q es := by
  match es with
  | [] => trivial
  | e :: es => exact ⟨everywhere_imp hPQ h.1, everywhereAll_imp hPQ h.2⟩

end

/-- What an expression navigates with has the property as well. -/
theorem everywhere_of_navigation? {e : Expression} {n : Navigation} (h : e.navigation? = some n)
    (he : e.Everywhere P) : P n ∧ EverywhereAll P n.arguments := by
  cases e with
  | navigate site as w t =>
    obtain rfl := Option.some.inj h
    exact he
  | _ => cases h

/-- A property that a navigation hands down to its arguments. -/
def Hereditary (X : Expression → Prop) : Prop :=
  ∀ e n, e.navigation? = some n → X e → ∀ a ∈ n.arguments, X a

theorem hereditary_everywhere : Hereditary (Everywhere P) :=
  fun _ _ hn he => everywhereAll_iff.1 (everywhere_of_navigation? hn he).2

end Expression

/-! ### Where dates come from -/

namespace Ambient

/-- All dates in force have a property. -/
def All (X : Expression → Prop) (a : Ambient) : Prop :=
  ∀ axis date, a.date? axis = some date → X date

variable {X : Expression → Prop} {a : Ambient}

theorem all_empty : All X {} := by
  intro axis date h
  cases axis <;> cases h

theorem All.set (h : a.All X) {axis : Axis} {date : Expression} (hd : X date) :
    (a.set axis date).All X := by
  intro y d hy
  by_cases hyx : y = axis
  · subst hyx
    rw [date?_set_self] at hy
    obtain rfl := Option.some.inj hy
    exact hd
  · rw [date?_set_of_ne a hyx] at hy
    exact h y d hy

theorem All.enter (h : a.All X) {shape : Shape} {dates : List Expression}
    (hd : ∀ date ∈ dates, X date) : (a.enter shape dates).All X := by
  -- dates are set one after another, from any that are in force
  have hfold : ∀ (l : List (Axis × Expression)) (a : Ambient), a.All X → (∀ x ∈ l, X x.2) →
      (l.foldl (fun a x => a.set x.1 x.2) a).All X := by
    intro l
    induction l with
    | nil => exact fun _ ha _ => ha
    | cons x l ih =>
      intro a ha hl
      refine ih _ (ha.set (hl x List.mem_cons_self)) fun y hy => hl y (List.mem_cons_of_mem _ hy)
  rw [Ambient.enter]
  exact hfold _ a h fun x hx => hd x.2 (List.of_mem_zip hx).2

theorem All.recordSupplied (h : a.All X) {shape : Shape} {dates : List Expression}
    (hd : ∀ date ∈ dates, X date) : (a.recordSupplied shape dates).All X := by
  rw [Ambient.recordSupplied]
  split
  · exact h.enter hd
  · exact h

theorem All.announce (h : a.All X) {source : Option Shape} {target : Shape}
    {explicit : List Expression} (hd : ∀ date ∈ explicit, X date) :
    (announce a source target explicit).All X := by
  unfold Bitemporal.announce
  split
  · exact h.set (hd _ List.mem_cons_self)
  · exact h

end Ambient

theorem mapM_id_eq_some {α : Type} {l : List (Option α)} {r : List α} :
    l.mapM id = some r ↔ l = r.map some := by
  induction l generalizing r with
  | nil =>
    rw [List.mapM_nil]
    constructor
    · intro h
      obtain rfl := Option.some.inj h
      rfl
    · intro h
      rw [List.map_eq_nil_iff.1 h.symm]
      rfl
  | cons x l ih =>
    rw [List.mapM_cons]
    constructor
    · intro h
      obtain ⟨a, hx, h⟩ := Option.bind_eq_some_iff.1 h
      obtain ⟨as, has, h⟩ := Option.bind_eq_some_iff.1 h
      obtain rfl := Option.some.inj h
      rw [List.map_cons, ih.1 has, ← hx]
      rfl
    · intro h
      rcases r with - | ⟨a, r⟩
      · cases h
      · obtain ⟨rfl, hl⟩ := List.cons.inj h
        rw [ih.2 hl]
        rfl

/-- The rules by which the slots of a call are filled that leaves dates out, from the dates that are
available, the shapes of its target and of its source and the dates that are written. -/
inductive Fills (available : Axis → Expression → Prop) :
    Shape → Option Shape → List Expression → List Expression → Prop
  /-- Between bitemporal classes, one date is the business date. -/
  | business {processing written : Expression} (h : available .processing processing) :
    Fills available .bitemporal (some .bitemporal) [written] [processing, written]
  /-- From a source with processing time only, the date that is written is the business date. -/
  | ofProcessing {processing written : Expression} (h : available .processing processing) :
    Fills available .bitemporal (some .processing) [written] [processing, written]
  /-- From a source with business time only, the date that is written is the processing date. -/
  | ofBusiness {business written : Expression} (h : available .business business) :
    Fills available .bitemporal (some .business) [written] [written, business]
  /-- Between bitemporal classes, both dates can be left out. -/
  | both {processing business : Expression} (hp : available .processing processing)
      (hb : available .business business) :
    Fills available .bitemporal (some .bitemporal) [] [processing, business]
  /-- The date of a target with one axis can be left out if the source is versioned along it. -/
  | one {target : Shape} {source : Option Shape} {date : Expression} (hone : target ≠ .bitemporal)
      (hsource : source = some .bitemporal ∨ source = some target)
      (h : available target.primary date) :
    Fills available target source [] [date]

theorem eq_singleton_of_eq_map_some {α : Type} {x : Option α} {l : List α} (h : [x] = l.map some) :
    ∃ a, l = [a] ∧ x = some a := by
  obtain ⟨a, rest, rfl, rfl, hrest⟩ := List.map_eq_cons_iff.1 h.symm
  exact ⟨a, by rw [List.map_eq_nil_iff.1 hrest], rfl⟩

theorem eq_pair_of_eq_map_some {α : Type} {x y : Option α} {l : List α}
    (h : [x, y] = l.map some) : ∃ a b, l = [a, b] ∧ x = some a ∧ y = some b := by
  obtain ⟨a, rest, rfl, rfl, hrest⟩ := List.map_eq_cons_iff.1 h.symm
  obtain ⟨b, rfl, rfl⟩ := eq_singleton_of_eq_map_some hrest.symm
  exact ⟨a, b, rfl, rfl, rfl⟩

/-- **Slots are filled by these rules and by no others.** -/
theorem fillSlots_eq_some_iff {bound : List (Axis × Expression)} {ambient : Ambient}
    {source : Option Shape} {target : Shape} {explicit dates : List Expression} :
    (fillSlots bound ambient source target explicit).mapM id = some dates ↔
      Fills (fun axis date => dateOn bound ambient axis = some date) target source explicit dates := by
  rw [mapM_id_eq_some]
  constructor
  · intro h
    unfold fillSlots at h
    dsimp only at h
    split at h
    · obtain ⟨d, d', rfl, hd, hd'⟩ := eq_pair_of_eq_map_some h
      obtain rfl := Option.some.inj hd'
      exact .business hd
    · obtain ⟨d, d', rfl, hd, hd'⟩ := eq_pair_of_eq_map_some h
      obtain rfl := Option.some.inj hd'
      exact .ofProcessing hd
    · obtain ⟨d, d', rfl, hd, hd'⟩ := eq_pair_of_eq_map_some h
      obtain rfl := Option.some.inj hd
      exact .ofBusiness hd'
    · obtain ⟨d, d', rfl, hd, hd'⟩ := eq_pair_of_eq_map_some h
      exact .both hd hd'
    · obtain ⟨d, d', -, hd, -⟩ := eq_pair_of_eq_map_some h
      cases hd
    · rename_i hunitemporal _
      split at h
      · rename_i hsource
        obtain ⟨d, rfl, hd⟩ := eq_singleton_of_eq_map_some h
        exact .one hunitemporal hsource hd
      · obtain ⟨d, -, hd⟩ := eq_singleton_of_eq_map_some h
        cases hd
    · obtain ⟨d, -, hd⟩ := eq_singleton_of_eq_map_some h
      cases hd
  · intro h
    cases h with
    | business h => exact congrArg (fun d => [d, some _]) h
    | ofProcessing h => exact congrArg (fun d => [d, some _]) h
    | ofBusiness h => exact congrArg (fun d => [some _, d]) h
    | both hp hb => exact congrArg₂ (fun d d' => [d, d']) hp hb
    | one eq_singleton_of_eq_map_some hsource h =>
      unfold fillSlots
      dsimp only
      split
      any_goals contradiction
      rw [if_pos hsource, h]
      rfl

theorem Fills.length_eq {available : Axis → Expression → Prop} {source : Option Shape}
    {target : Shape} {explicit dates : List Expression}
    (h : Fills available target source explicit dates) : dates.length = target.axes.length := by
  cases h with
  | business | ofProcessing | ofBusiness | both => rfl
  | one hone =>
    cases target with
    | business => rfl
    | processing => rfl
    | bitemporal => exact absurd rfl hone

/-- Slots that are all filled: one for each axis, what was written among them, and the others taken
from the receiver or the dates in force. -/
theorem mem_fillSlots {bound : List (Axis × Expression)} {ambient : Ambient} {source : Option Shape}
    {target : Shape} {explicit dates : List Expression}
    (hslots : (fillSlots bound ambient source target explicit).mapM id = some dates) :
    dates.length = target.axes.length ∧ explicit ⊆ dates ∧
      ∀ date ∈ dates, date ∈ explicit ∨ ∃ axis, dateOn bound ambient axis = some date := by
  have hfills := fillSlots_eq_some_iff.1 hslots
  refine ⟨hfills.length_eq, ?_⟩
  cases hfills with
  | business hp => exact ⟨by simp, by simpa using .inr ⟨_, hp⟩⟩
  | ofProcessing hp => exact ⟨by simp, by simpa using .inr ⟨_, hp⟩⟩
  | ofBusiness hb => exact ⟨by simp, by simpa using .inr ⟨_, hb⟩⟩
  | both hp hb =>
    refine ⟨List.nil_subset _, ?_⟩
    intro date hdate
    rcases List.mem_pair.1 hdate with rfl | rfl
    · exact .inr ⟨_, hp⟩
    · exact .inr ⟨_, hb⟩
  | one hone hsource hd =>
    refine ⟨List.nil_subset _, ?_⟩
    intro date hdate
    rw [List.mem_singleton.1 hdate]
    exact .inr ⟨_, hd⟩

/-! ### The ways a call is settled -/

namespace Navigation

/-- The ways in which settling a navigation succeeds. -/
inductive Settles (m : Model) (n : Navigation) (ambient : Ambient) : Navigation → Ambient → Prop
  /-- It calls no date accessor. -/
  | plain (hcall : m.callShape? n.owner n.property = none) : Settles m n ambient n ambient
  /-- It supplies more dates than it should. -/
  | overfull {target : Shape} (hcall : m.callShape? n.owner n.property = some target)
      (hmore : target.axes.length < n.explicit.length) :
      Settles m n ambient n (ambient.recordSupplied target n.explicit)
  /-- It supplies its dates. -/
  | exact {target : Shape} (hcall : m.callShape? n.owner n.property = some target)
      (hexact : n.explicit.length = target.axes.length)
      (htakes : m.takes n.owner n.property n.arguments.length = true) :
      Settles m n ambient n.retargeted (ambient.recordSupplied target n.explicit)
  /-- Its dates are filled in. -/
  | filled {target : Shape} {dates : List Expression}
      (hcall : m.callShape? n.owner n.property = some target)
      (hless : n.explicit.length < target.axes.length)
      (hlength : dates.length = target.axes.length) (hwritten : n.explicit ⊆ dates)
      (horigin : ∀ date ∈ dates, date ∈ n.explicit ∨ ∃ axis, dateOn (n.receiverDates m)
        (announce ambient (m.shapeAt? n.owner) target n.explicit) axis = some date)
      (htakes : m.takes n.owner n.property (n.supply dates).arguments.length = true) :
      Settles m n ambient (n.supply dates).retargeted
        ((announce ambient (m.shapeAt? n.owner) target n.explicit).enter target dates)

theorem called_eq_ok {m : Model} {n n' : Navigation} (h : n.called m = .ok n') :
    m.takes n.owner n.property n.arguments.length = true ∧ n' = n.retargeted := by
  rw [called] at h
  split at h
  · exact ⟨‹_›, (Except.ok.inj h).symm⟩
  · cases h

/-- **Settling succeeds in these ways only.** -/
theorem settles_of_settle {m : Model} {n n' : Navigation} {ambient after : Ambient}
    (h : (n.settle m).from ambient = (.ok n', after)) : Settles m n ambient n' after := by
  rw [settle_from, settledFrom] at h
  split at h
  · rename_i hcall
    obtain ⟨hn, rfl⟩ := Prod.mk.inj h
    obtain rfl := Except.ok.inj hn
    exact .plain hcall
  · rename_i target hcall
    split at h
    · rename_i hle
      obtain ⟨hn, rfl⟩ := Prod.mk.inj h
      split at hn
      · rename_i hexact
        obtain ⟨htakes, rfl⟩ := called_eq_ok hn
        exact .exact hcall hexact htakes
      · rename_i hne
        obtain rfl := Except.ok.inj hn
        exact .overfull hcall (by omega)
    · rename_i hlt
      dsimp only at h
      split at h
      · cases (Prod.mk.inj h).1
      · rename_i dates hslots
        obtain ⟨hn, rfl⟩ := Prod.mk.inj h
        obtain ⟨htakes, rfl⟩ := called_eq_ok hn
        obtain ⟨hlength, hwritten, horigin⟩ := mem_fillSlots hslots
        exact .filled hcall (by omega) hlength hwritten horigin htakes

variable {P : Navigation → Prop} {m : Model} {n n' : Navigation} {ambient after : Ambient}

theorem explicit_subset (n : Navigation) : n.explicit ⊆ n.arguments :=
  (List.tail_sublist n.arguments).subset

/-- A call binds the dates it is given, if it is given exactly those of its target. -/
theorem of_mem_boundDates {r : Navigation} {axis : Axis} {date : Expression}
    (h : (axis, date) ∈ r.boundDates m) :
    ∃ target, m.callShape? r.owner r.property = some target ∧
      r.explicit.length = target.axes.length ∧ date ∈ r.explicit := by
  rw [boundDates_eq] at h
  split at h
  · rename_i target _ hcall
    split at h
    · rename_i hlength
      exact ⟨target, hcall, hlength, (List.of_mem_zip h).2⟩
    · cases h
  · cases h

/-- The dates bound for a call are those that its receiver binds, as a call itself. -/
theorem receiver_of_receiverDates {axis : Axis} {date : Expression}
    (h : (n.receiverDates m).lookup axis = some date) :
    ∃ e ∈ n.receiver?, ∃ r, e.navigation? = some r ∧ (axis, date) ∈ r.boundDates m := by
  rw [receiverDates] at h
  split at h
  · rename_i r hreceiver
    obtain ⟨e, he, hr⟩ := Option.bind_eq_some_iff.1 hreceiver
    obtain ⟨l₁, l₂, hl, -⟩ := List.lookup_eq_some_iff.1 h
    exact ⟨e, he, r, hr, hl ▸ by simp⟩
  · cases h

/-- The dates a receiver binds are among its own arguments. -/
theorem all_receiverDates {X : Expression → Prop} (hX : Expression.Hereditary X)
    (h : ∀ e ∈ n.arguments, X e) {axis : Axis} {date : Expression}
    (hd : (n.receiverDates m).lookup axis = some date) : X date := by
  obtain ⟨e, he, r, hr, hbound⟩ := receiver_of_receiverDates hd
  obtain ⟨target, -, -, hdate⟩ := of_mem_boundDates hbound
  exact hX e r hr (h e (List.mem_of_mem_head? he)) date (r.explicit_subset hdate)

/-- Dates that are filled in have what all the dates have that they are taken from. -/
theorem all_of_origin {X : Expression → Prop} {dates : List Expression}
    (horigin : ∀ date ∈ dates, date ∈ n.explicit ∨
      ∃ axis, dateOn (n.receiverDates m) ambient axis = some date)
    (hexplicit : ∀ date ∈ n.explicit, X date)
    (hbound : ∀ axis date, (n.receiverDates m).lookup axis = some date → X date)
    (ha : ambient.All X) : ∀ date ∈ dates, X date := by
  intro date hd
  rcases horigin date hd with hd | ⟨axis, hd⟩
  · exact hexplicit date hd
  · rw [dateOn] at hd
    rcases hlookup : (n.receiverDates m).lookup axis with - | date'
    · rw [hlookup] at hd
      exact ha axis date hd
    · rw [hlookup] at hd
      obtain rfl := Option.some.inj hd
      exact hbound axis _ hlookup

/-- Settling a call puts nothing into it, or in force, that was not there before. -/
theorem Settles.all {X : Expression → Prop} (hX : Expression.Hereditary X)
    (h : Settles m n ambient n' after) (hn : ∀ e ∈ n.arguments, X e) (ha : ambient.All X) :
    (∀ e ∈ n'.arguments, X e) ∧ after.All X := by
  have hexplicit : ∀ date ∈ n.explicit, X date := fun date hd => hn date (n.explicit_subset hd)
  cases h with
  | plain => exact ⟨hn, ha⟩
  | overfull => exact ⟨hn, ha.recordSupplied hexplicit⟩
  | exact => exact ⟨hn, ha.recordSupplied hexplicit⟩
  | filled hcall hless hlength hwritten horigin htakes =>
    rename_i target dates
    have hannounced : (announce ambient (m.shapeAt? n.owner) target n.explicit).All X :=
      ha.announce hexplicit
    have hdates : ∀ date ∈ dates, X date :=
      all_of_origin horigin hexplicit (fun _ _ hd => all_receiverDates hX hn hd) hannounced
    refine ⟨?_, hannounced.enter hdates⟩
    intro e he
    rcases List.mem_append.1 he with he | he
    · exact hn e (List.mem_of_mem_take he)
    · exact hdates e he

theorem Settles.everywhere (h : Settles m n ambient n' after)
    (hn : Expression.EverywhereAll P n.arguments) (ha : ambient.All (Expression.Everywhere P)) :
    Expression.EverywhereAll P n'.arguments ∧ after.All (Expression.Everywhere P) := by
  rw [Expression.everywhereAll_iff] at hn ⊢
  exact h.all Expression.hereditary_everywhere hn ha

end Navigation

/-! ### Expressions with receivers -/

/-- A navigation has a receiver. -/
def Navigation.HasReceiver (n : Navigation) : Prop :=
  n.arguments ≠ []

instance : DecidablePred Navigation.HasReceiver := fun n => inferInstanceAs (Decidable (n.arguments ≠ []))

namespace Navigation

variable {m : Model} {n n' : Navigation} {ambient after : Ambient}

/-- As many arguments include a receiver. -/
theorem HasReceiver.of_length (h : n.HasReceiver)
    (hlength : n'.arguments.length = n.arguments.length) : n'.HasReceiver := by
  intro hnil
  rw [hnil] at hlength
  exact h (List.length_eq_zero_iff.1 hlength.symm)

/-- With a receiver, the dates supplied are the explicit arguments. -/
theorem explicit_supply (h : n.HasReceiver) (dates : List Expression) :
    (n.supply dates).explicit = dates := by
  rcases hargs : n.arguments with - | ⟨receiver, explicit⟩
  · exact (h hargs).elim
  · show (n.arguments.take 1 ++ dates).tail = dates
    rw [hargs]
    rfl

theorem length_arguments (h : n.HasReceiver) : n.arguments.length = 1 + n.explicit.length := by
  rcases hargs : n.arguments with - | ⟨receiver, rest⟩
  · exact (h hargs).elim
  · rw [explicit, hargs, List.tail_cons, List.length_cons, Nat.add_comm]

theorem hasReceiver_supply (h : n.HasReceiver) (dates : List Expression) :
    (n.supply dates).HasReceiver := by
  rcases hargs : n.arguments with - | ⟨receiver, explicit⟩
  · exact (h hargs).elim
  · show n.arguments.take 1 ++ dates ≠ []
    rw [hargs]
    exact List.cons_ne_nil _ _

theorem Settles.hasReceiver (hn : n.HasReceiver) (h : Settles m n ambient n' after) :
    n'.HasReceiver := by
  cases h with
  | plain => exact hn
  | overfull => exact hn
  | exact => exact hn
  | filled => exact hasReceiver_supply hn _

end Navigation

namespace Expression

/-- Every navigation has a receiver. -/
abbrev Received (e : Expression) : Prop :=
  e.Everywhere Navigation.HasReceiver

variable {m : Model} {P : Navigation → Prop}

theorem length_datedAll {es es' : List Expression} {ambient after : Ambient}
    (h : (datedAll m es).from ambient = (.ok es', after)) : es'.length = es.length := by
  induction es generalizing es' ambient after with
  | nil =>
    obtain ⟨rfl, rfl⟩ := Dating.from_pure_eq_ok.1 h
    rfl
  | cons e es ih =>
    obtain ⟨e', es', between, he', hes', rfl⟩ := datedAll_cons_eq_ok.1 h
    rw [List.length_cons, List.length_cons, ih hes']

mutual

/-- **What every settled call has, every dated expression has throughout**, provided that the dates
in force have it. -/
theorem dated_everywhere
    (hP : ∀ {n n' : Navigation} {ambient after}, n.HasReceiver → n.Settles m ambient n' after → P n')
    {e e' : Expression} {ambient after : Ambient} (he : e.Received)
    (ha : ambient.All (Everywhere P)) (h : (dated m e).from ambient = (.ok e', after)) :
    e'.Everywhere P ∧ after.All (Everywhere P) := by
  match e with
  | reference n t =>
    obtain ⟨rfl, rfl⟩ := Dating.from_pure_eq_ok.1 h
    exact ⟨trivial, ha⟩
  | literal v t =>
    obtain ⟨rfl, rfl⟩ := Dating.from_pure_eq_ok.1 h
    exact ⟨trivial, ha⟩
  | equal f l r t =>
    obtain ⟨l', r', between, hl, hr, rfl⟩ := dated_equal_eq_ok.1 h
    obtain ⟨hl', hbetween⟩ := dated_everywhere hP he.1 ha hl
    obtain ⟨hr', hafter⟩ := dated_everywhere hP he.2 hbetween hr
    exact ⟨⟨hl', hr'⟩, hafter⟩
  | compare f o l r t =>
    obtain ⟨l', r', between, hl, hr, rfl⟩ := dated_compare_eq_ok.1 h
    obtain ⟨hl', hbetween⟩ := dated_everywhere hP he.1 ha hl
    obtain ⟨hr', hafter⟩ := dated_everywhere hP he.2 hbetween hr
    exact ⟨⟨hl', hr'⟩, hafter⟩
  | conjunction f os t =>
    obtain ⟨os', hos, rfl⟩ := dated_conjunction_eq_ok.1 h
    exact datedAll_everywhere hP he ha hos
  | filter f s b e t =>
    obtain ⟨s', e', between, hs, he', rfl⟩ := dated_filter_eq_ok.1 h
    obtain ⟨hs', hbetween⟩ := dated_everywhere hP he.1 ha hs
    obtain ⟨he', hafter⟩ := dated_everywhere hP he.2 hbetween he'
    exact ⟨⟨hs', he'⟩, hafter⟩
  | navigate site as w t =>
    obtain ⟨as', n', between, has, hn, rfl⟩ := dated_navigate_eq_ok.1 h
    obtain ⟨has', hbetween⟩ := datedAll_everywhere hP he.2 ha has
    have hsettles := Navigation.settles_of_settle hn
    have hreceiver : Navigation.HasReceiver { toSite := site, arguments := as', written := w } :=
      he.1.of_length (length_datedAll has)
    obtain ⟨hn', hafter⟩ := hsettles.everywhere has' hbetween
    exact ⟨⟨hP hreceiver hsettles, hn'⟩, hafter⟩

theorem datedAll_everywhere
    (hP : ∀ {n n' : Navigation} {ambient after}, n.HasReceiver → n.Settles m ambient n' after → P n')
    {es es' : List Expression} {ambient after : Ambient}
    (he : EverywhereAll Navigation.HasReceiver es) (ha : ambient.All (Everywhere P))
    (h : (datedAll m es).from ambient = (.ok es', after)) :
    EverywhereAll P es' ∧ after.All (Everywhere P) := by
  match es with
  | [] =>
    obtain ⟨rfl, rfl⟩ := Dating.from_pure_eq_ok.1 h
    exact ⟨trivial, ha⟩
  | e :: es =>
    obtain ⟨e', es', between, he', hes', rfl⟩ := datedAll_cons_eq_ok.1 h
    obtain ⟨he', hbetween⟩ := dated_everywhere hP he.1 ha he'
    obtain ⟨hes', hafter⟩ := datedAll_everywhere hP he.2 hbetween hes'
    exact ⟨⟨he', hes'⟩, hafter⟩

end

/-- Dating keeps receivers. -/
theorem receivedAll_datedAll {es es' : List Expression} {ambient after : Ambient}
    (he : EverywhereAll Navigation.HasReceiver es) (ha : ambient.All Received)
    (h : (datedAll m es).from ambient = (.ok es', after)) :
    EverywhereAll Navigation.HasReceiver es' ∧ after.All Received :=
  datedAll_everywhere Navigation.Settles.hasReceiver he ha h

end Expression

end Bitemporal
